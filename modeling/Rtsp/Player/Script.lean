-- SUMMARY: Playing against a scripted server.
import Rtsp.Player

/-!
# Scripts

A script is a server whose behaviour is written down: one reply for each message that the player
writes. Once the script has run out, a further message makes the server end the stream. The player
takes all events before its keepalive timer fires.
-/

namespace Rtsp

/-- What a server does after it has got a message. -/
structure Reply where
  data : Bytes := []
  /-- End the stream after the data. -/
  close : Bool := false
  /-- Let the keepalive timer fire once all events have been taken. -/
  tick : Bool := false
  deriving DecidableEq, Repr

/-- A player and its server. -/
structure Playback where
  player : Player
  /-- The messages that the player has written. -/
  written : List Bytes := []
  /-- How often the timer still has to fire. -/
  ticks : Nat := 0

namespace Playback

/-- Take the events of a queue until one of them makes the player write a message. -/
def takeEvents (p : Player) : List Event → Turn
  | [] => ⟨{ p with queue := [] }, none⟩
  | e :: events =>
    match { p with queue := events }.handle e with
    | ⟨p, some bytes⟩ => ⟨p, some bytes⟩
    | ⟨p, none⟩ => takeEvents p events

/-- Go on until the next message is written, or nothing is left to do. -/
def proceed (b : Playback) : Playback × Option Bytes :=
  match takeEvents b.player b.player.queue with
  | ⟨player, some bytes⟩ => ({ b with player }, some bytes)
  | ⟨player, none⟩ =>
    if b.ticks = 0 || !player.isStreaming then ({ b with player }, none)
    else
      let turn := player.tick
      ({ b with player := turn.player, ticks := b.ticks - 1 }, turn.written)

/-- Let the server act. -/
def apply (b : Playback) (reply : Reply) : Playback :=
  let player := b.player.observe (.feed reply.data)
  let player := if reply.close then player.observe (.finish .endOfStream) else player
  { b with player, ticks := b.ticks + (if reply.tick then 1 else 0) }

def record (b : Playback) (message : Bytes) : Playback :=
  { b with written := b.written ++ [message] }

/-- Follow the script from where the player has written a message, or has nothing left to do. -/
def follow (b : Playback) : Option Bytes → List Reply → Playback
  | none, _ => b
  | some message, [] => ((b.record message).apply { close := true }).proceed.1
  | some message, reply :: replies =>
    let (b, message) := ((b.record message).apply reply).proceed
    follow b message replies

end Playback

/-- What a run of the program did. -/
structure PlayReport where
  /-- The address that it connected to. -/
  address : Option String := none
  written : List Bytes := []
  /-- The period of the keepalive timer in seconds, if it ever ran. -/
  keepalive : Option Nat := none
  log : List LogLine := []
  /-- How playing has ended, if it has. -/
  result : Option PlayResult

/-- Run the program with given options. `accepts` says whether the address can be connected to. -/
def playScript (options : Options) (accepts : Bool) (script : List Reply) (draws : Draws) :
    PlayReport :=
  match Target.ofUrl? options.url with
  | none => { result := some (.error (.invalidUrl options.url)) }
  | some target =>
    if !accepts then
      { address := some target.address
        result := some (.error (.library (.stream .connectionRefused))) }
    else
      let turn := (Player.ofOptions options target draws).start target.address
      let b := Playback.follow ⟨turn.player, [], 0⟩ turn.written script
      { address := some target.address
        written := b.written
        keepalive := b.player.keepalive
        log := b.player.log
        result := b.player.result? }

end Rtsp
