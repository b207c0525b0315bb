-- SUMMARY: What depacketizers emit, and what they count.
import Rtsp.Bytes

/-!
# Frames and tallies

A depacketizer turns packets into frames. A packet that cannot be used is dropped and counted
under the reason, so that a damaged stream goes on.
-/

namespace Rtsp

/-- One access unit: the units that were captured at one instant, in order. -/
structure MediaFrame where
  timestamp : UInt32
  units : List Bytes
  deriving DecidableEq, Repr

namespace MediaFrame

/-- The bytes in all units. -/
def size (f : MediaFrame) : Nat :=
  f.units.flatten.length

def isEmpty (f : MediaFrame) : Bool :=
  f.units.all List.isEmpty

/-- The units as a byte stream in which each follows a start code. -/
def annexB (f : MediaFrame) : Bytes :=
  f.units.flatMap fun unit => [0, 0, 0, 1] ++ unit

end MediaFrame

/-- What happens to a packet or to a part of a frame. -/
inductive Incident where
  /-- A frame was emitted. -/
  | frame
  /-- A packet was too short or had an impossible structure. -/
  | malformed
  /-- A packet had a structure that is valid but not supported. -/
  | unsupported
  /-- A fragment came without the start of its unit, or a unit without its end. -/
  | orphan
  /-- A unit was started over before it had ended. -/
  | restarted
  /-- A size field ran past the end of its packet. -/
  | truncated
  /-- A frame was given up because the next one began. -/
  | stale
  deriving DecidableEq, Repr

/-- How often each incident has happened. -/
structure Tally where
  frames : Nat := 0
  malformed : Nat := 0
  unsupported : Nat := 0
  orphans : Nat := 0
  restarted : Nat := 0
  truncated : Nat := 0
  stale : Nat := 0
  deriving DecidableEq, Repr

namespace Tally

def count (t : Tally) : Incident → Tally
  | .frame => { t with frames := t.frames + 1 }
  | .malformed => { t with malformed := t.malformed + 1 }
  | .unsupported => { t with unsupported := t.unsupported + 1 }
  | .orphan => { t with orphans := t.orphans + 1 }
  | .restarted => { t with restarted := t.restarted + 1 }
  | .truncated => { t with truncated := t.truncated + 1 }
  | .stale => { t with stale := t.stale + 1 }

def toList (t : Tally) : List Nat :=
  [t.frames, t.malformed, t.unsupported, t.orphans, t.restarted, t.truncated, t.stale]

end Tally
end Rtsp
