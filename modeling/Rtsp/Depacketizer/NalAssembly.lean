-- SUMMARY: Collecting NAL units into access units.
import Rtsp.Depacketizer.Frame

/-!
# NAL assembly

The bookkeeping that H.264 and H.265 share. Complete NAL units wait for the marked packet that
ends their access unit; at most one unit is being rebuilt from fragments. What is waiting never
survives a change of the timestamp.
-/

namespace Rtsp

structure NalAssembly where
  /-- The complete units of the access unit so far. -/
  nals : List Bytes := []
  timestamp : Option UInt32 := none
  /-- The unit that is being rebuilt, header included. -/
  fragment : Option Bytes := none
  tally : Tally := {}
  deriving DecidableEq, Repr

namespace NalAssembly

def count (a : NalAssembly) (incident : Incident) : NalAssembly :=
  { a with tally := a.tally.count incident }

/-- Whether anything would be lost by starting afresh. -/
def isWaiting (a : NalAssembly) : Bool :=
  !a.nals.isEmpty || a.fragment.isSome

/-- Note the timestamp of a packet. If it differs from that of the waiting units, their marked
packet was lost, and they are discarded. -/
def begin (a : NalAssembly) (timestamp : UInt32) : NalAssembly :=
  let stale := match a.timestamp with
    | some current => current != timestamp && a.isWaiting
    | none => false
  let a := if stale then { a.count .stale with nals := [], fragment := none } else a
  { a with timestamp := some timestamp }

/-- Add a complete unit; an empty one is ignored. -/
def pushUnit (a : NalAssembly) (nal : Bytes) : NalAssembly :=
  if nal.isEmpty then a else { a with nals := a.nals ++ [nal] }

/-- The entries of an aggregate: units with their sizes in front. One byte may be left over at the
end; a size that runs past the end makes the whole aggregate unreadable. -/
def readEntries? : Bytes → Option (List Bytes)
  | hi :: lo :: bs =>
    let size := (ofBe16 hi lo).toNat
    if bs.length < size then none
    else (readEntries? (bs.drop size)).map (bs.take size :: ·)
  | _ => some []
termination_by bs => bs.length
decreasing_by simp only [List.length_drop, List.length_cons]; omega

/-- Add the non-empty units of an aggregate, or none of them. -/
def pushAggregate (a : NalAssembly) (data : Bytes) : NalAssembly :=
  match readEntries? data with
  | some units => { a with nals := a.nals ++ units.filter (!·.isEmpty) }
  | none => a.count .truncated

/-- Add a fragment. The header is the rebuilt one of the unit and counts only at its start. -/
def pushFragment (a : NalAssembly) (start stop : Bool) (header data : Bytes) : NalAssembly :=
  let opened : Option (NalAssembly × Bytes) :=
    if start then some (if a.fragment.isSome then a.count .restarted else a, header)
    else a.fragment.map fun fragment => (a, fragment)
  match opened with
  | none => a.count .orphan
  | some (a, fragment) =>
    let fragment := fragment ++ data
    if stop then { a with nals := a.nals ++ [fragment], fragment := none }
    else { a with fragment := some fragment }

/-- End the access unit and hand out its units, if there are any. -/
def finish (a : NalAssembly) : NalAssembly × Option MediaFrame :=
  let timestamp := a.timestamp.getD 0
  let a := if a.fragment.isSome then { a.count .orphan with fragment := none } else a
  let a := { a with timestamp := none }
  if a.nals.isEmpty then (a, none)
  else ({ a.count .frame with nals := [] }, some ⟨timestamp, a.nals⟩)

/-- End the access unit if the packet is marked. -/
def finishIf (a : NalAssembly) (marker : Bool) : NalAssembly × Option MediaFrame :=
  if marker then a.finish else (a, none)

end NalAssembly
end Rtsp
