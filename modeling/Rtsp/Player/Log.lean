-- SUMMARY: Why playing fails, and the log of a player.
import Rtsp.Depacketizer.Frame
import Rtsp.Error
import Rtsp.Message.Method

/-!
# Failures and log lines

A log line is an event in the life of a player. Its level, text and fields are derived from it; a
field without a value is left out.
-/

namespace Rtsp

inductive PlayError where
  | library (cause : Error)
  | invalidUrl (url : String)
  /-- A request was answered with a status that is no success. -/
  | refused (method : Method) (status : Nat) (reason : String)
  | noMedia
  /-- The server has been silent for too long, in seconds. -/
  | noResponse (seconds : Nat)
  /-- The server's stream is over. -/
  | streamOver (cause : Option StreamError)
  deriving DecidableEq, Repr

/-- What ended a stream, in words. -/
def describeEnd : Option StreamError → String
  | some cause => (Error.stream cause).message
  | none => "end of stream"

def PlayError.message : PlayError → String
  | .library cause => cause.message
  | .invalidUrl url => "invalid URL: " ++ url
  | .refused method status reason =>
    method.token ++ " failed: " ++ toString status ++ " " ++ reason
  | .noMedia => "server offered no media"
  | .noResponse seconds => "no response within " ++ toString seconds ++ "s"
  | .streamOver cause => "connection closed: " ++ describeEnd cause

inductive LogLevel where
  | info
  | warn
  deriving DecidableEq, Repr

inductive LogLine where
  | connected (address : String)
  | trackSetUp (media encoding : String) (channel : UInt8)
  | tooManySections (index : Nat)
  | playing (session : Option String) (timeout : Nat)
  | badPacket (channel : UInt8) (cause : Error)
  | frame (channel : UInt8) (codec : String) (timestamp : UInt32) (units bytes : Nat)
  | keepaliveRejected (status : Nat)
  | streamEnded (cause : Option StreamError)
  | teardownFailed (cause : PlayError)
  | trackSummary (channel : UInt8) (codec : String) (tally : Tally)
  deriving DecidableEq, Repr

/-- A tally as the log writes it. -/
def Tally.text (t : Tally) : String :=
  "DepacketizerStats \x7b frames: " ++ toString t.frames
    ++ ", malformed_packets: " ++ toString t.malformed
    ++ ", unsupported_packets: " ++ toString t.unsupported
    ++ ", orphan_fragments: " ++ toString t.orphans
    ++ ", restarted_fragments: " ++ toString t.restarted
    ++ ", truncated_units: " ++ toString t.truncated
    ++ ", stale_frames: " ++ toString t.stale ++ " \x7d"

namespace LogLine

def level : LogLine → LogLevel
  | tooManySections _ | badPacket _ _ | keepaliveRejected _ | teardownFailed _ => .warn
  | _ => .info

def message : LogLine → String
  | connected _ => "connected"
  | trackSetUp _ _ _ => "track set up"
  | tooManySections _ => "too many media sections, ignoring the rest"
  | playing _ _ => "playing"
  | badPacket _ _ => "bad RTP packet"
  | frame _ _ _ _ _ => "frame"
  | keepaliveRejected _ => "keepalive rejected"
  | streamEnded _ => "stream ended"
  | teardownFailed _ => "TEARDOWN failed"
  | trackSummary _ _ _ => "track summary"

def fields : LogLine → List (String × String)
  | connected address => [("addr", address)]
  | trackSetUp media encoding channel =>
    [("media", media), ("encoding", encoding), ("channel", toString channel.toNat)]
  | tooManySections index => [("index", toString index)]
  | playing session timeout =>
    (session.map fun id => ("session", id)).toList ++ [("timeout", toString timeout)]
  | badPacket channel cause => [("channel", toString channel.toNat), ("error", cause.message)]
  | frame channel codec timestamp units bytes =>
    [("channel", toString channel.toNat), ("codec", codec),
      ("timestamp", toString timestamp.toNat), ("units", toString units),
      ("bytes", toString bytes)]
  | keepaliveRejected status => [("status", toString status)]
  | streamEnded cause => [("reason", describeEnd cause)]
  | teardownFailed cause => [("error", cause.message)]
  | trackSummary channel codec tally =>
    [("channel", toString channel.toNat), ("codec", codec), ("stats", tally.text)]

/-- The line as it is printed: level, message, and the fields behind it. -/
def text (l : LogLine) : String :=
  let level := match l.level with
    | .info => " INFO "
    | .warn => " WARN "
  level ++ l.message ++ String.join (l.fields.map fun (name, value) => " " ++ name ++ "=" ++ value)

end LogLine
end Rtsp
