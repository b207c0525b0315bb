-- SUMMARY: The first line of a message and what it says the message is.
import Rtsp.Message.Method
import Rtsp.Message.Status
import Rtsp.Text.Blank
import Rtsp.Text.Numeral

/-!
# Start lines

The words of the first line decide what a message is: a request has a version as its third word, a
response has one as its first and a status as its second. Any other line is kept verbatim.
-/

namespace Rtsp

inductive StartLine where
  | request (method : Method) (uri version : String)
  | response (version : String) (status : Nat) (reason : String)
  | unknown (line : String)
  deriving DecidableEq, Repr

namespace StartLine

/-- `RTSP/` and two digits with a point between them. -/
def isVersion : List Char → Bool
  | ['R', 'T', 'S', 'P', '/', major, '.', minor] => major.isDigit && minor.isDigit
  | _ => false

/-- The status that a word spells, if a status line may carry it. -/
def readStatus? (word : List Char) : Option Nat :=
  (Text.readDecimal UInt16.size word).filter Status.isValid

/-- The words of a reason phrase, one blank between each two. -/
def joinWords (ws : List (List Char)) : String :=
  String.ofList (List.intercalate [' '] ws)

def readRequest? : List (List Char) → Option StartLine
  | method :: uri :: version :: _ =>
    if isVersion version then
      some (request (Method.ofToken (String.ofList method)) (String.ofList uri)
        (String.ofList version))
    else none
  | _ => none

def readResponse? : List (List Char) → Option StartLine
  | version :: status :: reason =>
    if isVersion version then
      (readStatus? status).map fun code =>
        response (String.ofList version) code (joinWords reason)
    else none
  | _ => none

def read (line : String) : StartLine :=
  let ws := Text.words line.toList
  match readRequest? ws with
  | some start => start
  | none => (readResponse? ws).getD (unknown line)

def text : StartLine → String
  | request method uri version => method.token ++ " " ++ uri ++ " " ++ version
  | response version status reason => version ++ " " ++ toString status ++ " " ++ reason
  | unknown line => line

end StartLine
end Rtsp
