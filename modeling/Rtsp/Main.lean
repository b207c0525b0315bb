-- SUMMARY: The command line: playing over TCP.
import Rtsp.Player
import Std.Async.DNS
import Std.Async.TCP
import Std.Async.Timer

/-!
# Command line

Plays a stream from a server over TCP and prints the log of the player. All decisions are those of
`Player`; this module connects, carries bytes both ways, keeps the time, and prints.
-/

open Std.Async

namespace Rtsp.Console

/-- What ends a wait. -/
inductive Wake where
  | arrived (bytes : ByteArray)
  | ended
  | failed
  | timer

/-- Wait for bytes, for a number of milliseconds. -/
def wait (socket : TCP.Socket.Client) (milliseconds : Nat) : Async Wake := do
  let timer ← Selector.sleep (.ofNat milliseconds)
  try
    Selectable.one #[
      .case (socket.recvSelector 65536) fun bytes =>
        return match bytes with
          | some bytes => .arrived bytes
          | none => .ended,
      .case timer fun _ => return .timer]
  catch _ => return .failed

/-- Write a message. A failure ends the connection. -/
def write (socket : TCP.Socket.Client) (p : Player) (message : Option Bytes) : Async Player := do
  match message with
  | none => return p
  | some bytes =>
    try
      socket.send ⟨bytes.toArray⟩
      return p
    catch _ => return p.observe (.finish .failure)

/-- Print the log and forget it. -/
def report (p : Player) : Async Player := do
  for line in p.log do
    IO.println line.text
  return { p with log := [] }

/-- The time at which the timer is to fire after a turn. A timer that repeats is left alone. -/
def rearm (before after : Player) (due : Nat) : Async Nat := do
  let now ← IO.monoMsNow
  if before.isStreaming && after.isStreaming && now < due then return due
  else return now + 1000 * after.timerPeriod

/-- Go on from a turn to the end of playing. -/
partial def drive (socket : TCP.Socket.Client) (turn : Turn) (due : Nat) : Async PlayResult := do
  let p ← write socket (← report turn.player) turn.written
  match p.result?, p.queue with
  | some result, _ => return result
  | none, _ :: _ =>
    let next := p.takeEvent
    drive socket next (← rearm p next.player due)
  | none, [] =>
    match ← wait socket (due - (← IO.monoMsNow)) with
    | .arrived bytes => drive socket ⟨p.observe (.feed bytes.toList), none⟩ due
    | .ended => drive socket ⟨p.observe (.finish .endOfStream), none⟩ due
    | .failed => drive socket ⟨p.observe (.finish .failure), none⟩ due
    | .timer =>
      let next := p.tick
      drive socket next (← rearm p next.player due)

/-- Connect to the first of some addresses that answers. -/
def connectFirst (port : UInt16) : List Std.Net.IPAddr → Async (Option TCP.Socket.Client)
  | [] => return none
  | ip :: rest => do
    let address : Std.Net.SocketAddress := match ip with
      | .v4 ip => .v4 ⟨ip, port⟩
      | .v6 ip => .v6 ⟨ip, port⟩
    try
      let socket ← TCP.Socket.Client.mk
      socket.connect address
      socket.noDelay
      return some socket
    catch _ => connectFirst port rest

def connect (target : Target) : Async (Option TCP.Socket.Client) := do
  let (host, port) := target.endpoint
  try
    let addresses ← DNS.getAddrInfo host (toString port.toNat)
    connectFirst port addresses.toList
  catch _ => return none

/-- One number of 64 bits, which is all that a player draws. -/
def draw : IO Draws := do
  let bytes ← IO.getRandomBytes 8
  return [bytes.toList.foldl (fun n b => 256 * n + b.toNat) 0]

def play (options : Options) : Async PlayResult := do
  match Target.ofUrl? options.url with
  | none => return .error (.invalidUrl options.url)
  | some target =>
    match ← connect target with
    | none => return .error (.library (.stream .connectionRefused))
    | some socket =>
      let p := Player.ofOptions options target (← draw)
      let turn := p.start target.address
      drive socket turn (← rearm p turn.player 0)

end Rtsp.Console

def main (arguments : List String) : IO UInt32 := do
  match Rtsp.Options.parse arguments with
  | .error .helpRequested => do
    IO.print Rtsp.Options.usage
    return 0
  | .error e => do
    IO.eprintln ("error: " ++ e.message ++ "\n\n" ++ Rtsp.Options.usage)
    return 2
  | .ok options =>
    match ← (Rtsp.Console.play options).block with
    | .ok () => return 0
    | .error e => do
      IO.eprintln ("rtsp-dump: " ++ e.message)
      return 1
