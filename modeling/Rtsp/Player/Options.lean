-- SUMMARY: The arguments of the command line.
import Rtsp.Text.Cut
import Rtsp.Text.Numeral

/-!
# Options

The stream URL and three options with a value each, in any order. A value follows its option as
the next argument, after an equals sign, or, for a short option, directly. After a lone `--` every
argument is taken as it is. No option may be given twice.

An option that waits for its value, or whose value has not been looked at, is checked only when
the next argument turns out to be a known one. So an unknown argument is reported before a fault
in the option in front of it.
-/

namespace Rtsp

structure Options where
  url : String
  user : Option String := none
  password : String := ""
  /-- The number of frames after which to stop, zero for no limit. -/
  frames : Nat := 0
  deriving DecidableEq, Repr

namespace Options

inductive UsageError where
  /-- The help text was asked for. -/
  | helpRequested
  | missingUrl
  | missingValue
  | repeatedOption
  | unknownArgument
  | unexpectedValue
  | malformedNumber
  deriving DecidableEq, Repr

/-- The help text. -/
def usage : String :=
  "Pull an RTSP stream over TCP and log the depacketized frames\n\n" ++
  "Usage: rtsp-dump [OPTIONS] <URL>\n\n" ++
  "Arguments:\n" ++
  "  <URL>  Stream URL (rtsp://[user:pass@]host[:port]/path)\n\n" ++
  "Options:\n" ++
  "  -u, --user <USER>          Username for Basic/Digest authentication\n" ++
  "  -p, --password <PASSWORD>  Password for Basic/Digest authentication\n" ++
  "  -f, --frames <FRAMES>      Stop after this many frames (0 = until the server closes)\n" ++
  "  -h, --help                 Print help\n"

def UsageError.message : UsageError → String
  | .helpRequested => usage
  | .missingUrl => "the URL is missing"
  | .missingValue => "an option needs a value"
  | .repeatedOption => "an option is given twice"
  | .unknownArgument => "an argument is unknown"
  | .unexpectedValue => "an option takes no value"
  | .malformedNumber => "the number of frames is malformed"

inductive Key where
  | user
  | password
  | frames
  deriving DecidableEq, Repr

def Key.ofLong? (name : List Char) : Option Key :=
  if name = "user".toList then some .user
  else if name = "password".toList then some .password
  else if name = "frames".toList then some .frames
  else none

def Key.ofShort? : Char → Option Key
  | 'u' => some .user
  | 'p' => some .password
  | 'f' => some .frames
  | _ => none

/-- An argument as its form tells, before any option is looked up. -/
inductive Argument where
  /-- The end of the options. -/
  | separator
  | long (name : List Char) (value : Option (List Char))
  /-- A letter, and what is written directly after it. -/
  | short (letter : Char) (attached : List Char)
  | plain (text : List Char)
  deriving DecidableEq, Repr

def Argument.read : List Char → Argument
  | ['-', '-'] => .separator
  | '-' :: '-' :: name =>
    match Text.cut '=' name with
    | some (name, value) => .long name (some value)
    | none => .long name none
  | '-' :: letter :: attached => .short letter attached
  | text => .plain text

/-- What has been read so far. -/
structure State where
  url : Option String := none
  user : Option String := none
  password : Option String := none
  frames : Option Nat := none
  /-- The option that was read last, and its value once that has been read. -/
  pending : Option (Key × Option (List Char)) := none
  /-- Whether the options have ended. -/
  ended : Bool := false

/-- Give an option its value. -/
def State.assign (s : State) (key : Key) (value : List Char) : Except UsageError State :=
  match key with
  | .user =>
    if s.user.isSome then .error .repeatedOption
    else .ok { s with user := some (String.ofList value) }
  | .password =>
    if s.password.isSome then .error .repeatedOption
    else .ok { s with password := some (String.ofList value) }
  | .frames =>
    if s.frames.isSome then .error .repeatedOption
    else
      match Text.readDecimal UInt64.size value with
      | some n => .ok { s with frames := some n }
      | none => .error .malformedNumber

/-- Check the pending option. -/
def State.settle (s : State) : Except UsageError State :=
  match s.pending with
  | none => .ok s
  | some (_, none) => .error .missingValue
  | some (key, some value) => { s with pending := none }.assign key value

/-- Open an option whose value is the next argument, or give it a value at once. -/
def State.option (s : State) (key : Key) (value : Option (List Char)) :
    Except UsageError State := do
  let s ← s.settle
  match value with
  | some value => s.assign key value
  | none => .ok { s with pending := some (key, none) }

/-- Take a text that is no option: the value of the option before it, or the URL. -/
def State.plain (s : State) (text : List Char) : Except UsageError State :=
  match s.ended, s.pending with
  | false, some (key, none) => .ok { s with pending := some (key, some text) }
  | _, _ =>
    if s.url.isSome then .error .unknownArgument
    else do
      let s ← s.settle
      .ok { s with url := some (String.ofList text) }

/-- The value that a short option has directly behind it; an equals sign may lead it. -/
def attachedValue? : List Char → Option (List Char)
  | [] => none
  | '=' :: value => some value
  | value => some value

def State.step (s : State) (argument : String) : Except UsageError State :=
  if s.ended then s.plain argument.toList
  else
    match Argument.read argument.toList with
    | .separator => .ok { s with ended := true }
    | .plain text => s.plain text
    | .long name value =>
      match Key.ofLong? name with
      | some key => s.option key value
      | none =>
        if name = "help".toList then
          if value.isSome then .error .unexpectedValue
          else s.settle >>= fun _ => .error .helpRequested
        else .error .unknownArgument
    | .short letter attached =>
      match Key.ofShort? letter with
      | some key => s.option key (attachedValue? attached)
      | none =>
        if letter = 'h' then s.settle >>= fun _ => .error .helpRequested
        else .error .unknownArgument

def parse (arguments : List String) : Except UsageError Options := do
  let s ← arguments.foldlM State.step {}
  let s ← s.settle
  match s.url with
  | none => .error .missingUrl
  | some url =>
    .ok { url, user := s.user, password := s.password.getD "", frames := s.frames.getD 0 }

end Options
end Rtsp
