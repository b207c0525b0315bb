-- SUMMARY: No NAL unit is lost, repeated or moved, unless a frame is counted as stale.
import Mathlib.Data.List.ReduceOption
import Rtsp.Proofs.Depacketizer.Count
import Rtsp.Proofs.Depacketizer.Isolation

/-!
# Conservation of NAL units

Which units a run of packets completes can be told from the packets alone (`completed`): a unit that
was sent in fragments is found by going back from its last fragment to its first one (`begun?`). An
assembly holds exactly the completed units that it has not yet handed out, as long as it has not
given up a frame (`NalAssembly.Accounts`). So the units in the emitted frames are completed units in
their order, and only stale frames are missing.
-/

namespace Rtsp

/-! ## Completed units -/

namespace NalPayload

/-- The unit up to the end of a piece, if there is one. -/
def prolong (begun : Option Bytes) (start : Bool) (header data : Bytes) : Option Bytes :=
  (if start then some header else begun).map (· ++ data)

/-- The unit that is begun but not complete behind a payload, if `begun` is the one in front. -/
def leaves (begun : Option Bytes) : NalPayload → Option Bytes
  | .fragment start stop header data => if stop then none else prolong begun start header data
  | .unit _ | .aggregate _ | .refused _ => begun

/-- The units that a payload completes, if `begun` is the one that is begun in front. -/
def completes (begun : Option Bytes) : NalPayload → List Bytes
  | .unit nal => [nal]
  | .aggregate data => ((NalAssembly.readEntries? data).getD []).filter (!·.isEmpty)
  | .fragment start stop header data =>
    if stop then (prolong begun start header data).toList else []
  | .refused _ => []

end NalPayload

section

variable (read : Bytes → NalPayload)

/-- The unit that is begun but not complete where a packet of the given timestamp comes. The packets
in front of it are given with the last one first. A unit does not reach across a marked packet, nor
across a packet of another timestamp. -/
def begun? (timestamp : UInt32) : List RtpPacket → Option Bytes
  | [] => none
  | p :: earlier =>
    if p.marker ∨ p.timestamp ≠ timestamp then none
    else (read p.payload).leaves (begun? timestamp earlier)

/-- The units that packets complete, behind packets that are given with the last one first. -/
def completedAfter (earlier : List RtpPacket) : List RtpPacket → List Bytes
  | [] => []
  | p :: packets =>
    (read p.payload).completes (begun? read p.timestamp earlier)
      ++ completedAfter (p :: earlier) packets

/-- The units that packets complete. -/
def completed (packets : List RtpPacket) : List Bytes :=
  completedAfter read [] packets

end

/-- The units in emitted frames. -/
def emittedUnits (outputs : List (Option MediaFrame)) : List Bytes :=
  outputs.reduceOption.flatMap (·.units)

theorem emittedUnits_singleton (frame : MediaFrame) : emittedUnits [some frame] = frame.units :=
  List.append_nil frame.units

theorem emittedUnits_append (outputs outputs' : List (Option MediaFrame)) :
    emittedUnits (outputs ++ outputs') = emittedUnits outputs ++ emittedUnits outputs' := by
  unfold emittedUnits
  rw [List.reduceOption_append, List.flatMap_append]

/-! ### No unit is empty -/

section

variable {begun : Option Bytes} {p : NalPayload}

theorem NalPayload.prolong_ne_nil {start : Bool} {header data : Bytes} (hheader : header ≠ [])
    (hbegun : ∀ nal ∈ begun, nal ≠ []) : ∀ nal ∈ prolong begun start header data, nal ≠ [] := by
  intro nal hnal
  obtain ⟨front, hfront, rfl⟩ := Option.map_eq_some_iff.1 hnal
  have hne : front ≠ [] := by
    cases start with
    | true => rwa [← Option.some.inj hfront]
    | false => exact hbegun front hfront
  exact List.append_ne_nil_of_left_ne_nil hne data

theorem NalPayload.leaves_ne_nil (hp : p.IsProper) (hbegun : ∀ nal ∈ begun, nal ≠ []) :
    ∀ nal ∈ p.leaves begun, nal ≠ [] := by
  cases p with
  | fragment start stop header data =>
    cases stop with
    | true => nofun
    | false => exact prolong_ne_nil hp hbegun
  | unit nal => exact hbegun
  | aggregate data => exact hbegun
  | refused incident => exact hbegun

theorem NalPayload.completes_ne_nil (hp : p.IsProper) (hbegun : ∀ nal ∈ begun, nal ≠ []) :
    ∀ nal ∈ p.completes begun, nal ≠ [] := by
  cases p with
  | unit nal =>
    intro unit hunit
    rw [List.mem_singleton.1 hunit]
    exact hp
  | aggregate data =>
    intro nal hnal
    simpa using (List.mem_filter.1 hnal).2
  | fragment start stop header data =>
    cases stop with
    | true => exact fun nal hnal => prolong_ne_nil hp hbegun nal (Option.mem_toList.1 hnal)
    | false => nofun
  | refused incident => nofun

end

section

variable {read : Bytes → NalPayload} (hread : ∀ payload, (read payload).IsProper)
include hread

theorem begun?_ne_nil (timestamp : UInt32) (earlier : List RtpPacket) :
    ∀ nal ∈ begun? read timestamp earlier, nal ≠ [] := by
  induction earlier with
  | nil => nofun
  | cons p earlier ih =>
    unfold begun?
    split
    · nofun
    · exact NalPayload.leaves_ne_nil (hread p.payload) ih

theorem completedAfter_ne_nil (earlier packets : List RtpPacket) :
    ∀ nal ∈ completedAfter read earlier packets, nal ≠ [] := by
  induction packets generalizing earlier with
  | nil => nofun
  | cons p packets ih =>
    intro nal hnal
    rcases List.mem_append.1 hnal with hnow | hlater
    · exact NalPayload.completes_ne_nil (hread p.payload) (begun?_ne_nil hread p.timestamp earlier)
        nal hnow
    · exact ih (p :: earlier) nal hlater

end

/-! ## Assemblies -/

namespace NalAssembly

variable (a : NalAssembly)

theorem fragment_push (p : NalPayload) : (a.push p).fragment = p.leaves a.fragment := by
  cases p with
  | unit nal =>
    rw [push, pushUnit]
    split <;> rfl
  | aggregate data =>
    rw [push, pushAggregate]
    split <;> rfl
  | fragment start stop header data =>
    obtain ⟨nals, timestamp, begun, tally⟩ := a
    rw [push, pushFragment]
    cases start <;> cases begun <;> cases stop <;> rfl
  | refused incident => rfl

/-- A payload adds the units that it completes. -/
theorem nals_push {p : NalPayload} (hp : p.IsProper) :
    (a.push p).nals = a.nals ++ p.completes a.fragment := by
  cases p with
  | unit nal =>
    have hempty : nal.isEmpty = false := List.isEmpty_eq_false_iff.2 hp
    rw [push, pushUnit, hempty]
    rfl
  | aggregate data =>
    rw [push, pushAggregate, NalPayload.completes]
    cases readEntries? data with
    | some units => rfl
    | none => exact (List.append_nil a.nals).symm
  | fragment start stop header data =>
    rw [push, pushFragment]
    cases stop with
    | false =>
      cases start <;> cases a.fragment <;> exact (List.append_nil a.nals).symm
    | true =>
      cases start with
      | true => cases a.fragment <;> rfl
      | false =>
        cases a.fragment with
        | none => exact (List.append_nil a.nals).symm
        | some begun => rfl
  | refused incident => exact (List.append_nil a.nals).symm

theorem stale_push {p : NalPayload} (hp : p.IsProper) :
    (a.push p).tally.stale = a.tally.stale := by
  rcases a.tally_push hp with htally | ⟨incident, -, hincident, htally⟩
  · rw [htally]
  · rw [htally, Tally.stale_count hincident]

/-! ### What is kept -/

/-- The units that were completed have been emitted or wait, unless a frame was given up. -/
structure Keeps (done emitted : List Bytes) (a : NalAssembly) : Prop where
  sublist : (emitted ++ a.nals).Sublist done
  pending : a.tally.stale = 0 → done = emitted ++ a.nals

namespace Keeps

variable {a : NalAssembly} {done emitted : List Bytes}

theorem begin (h : Keeps done emitted a) (timestamp : UInt32) :
    Keeps done emitted (a.begin timestamp) := by
  rw [begin_eq]
  split
  · refine ⟨?_, nofun⟩
    rw [List.append_nil]
    exact (List.sublist_append_left emitted a.nals).trans h.sublist
  · exact ⟨h.sublist, h.pending⟩

theorem push (h : Keeps done emitted a) {p : NalPayload} (hp : p.IsProper) :
    Keeps (done ++ p.completes a.fragment) emitted (a.push p) := by
  have hnals := a.nals_push hp
  have hstale := a.stale_push hp
  refine ⟨?_, ?_⟩
  · rw [hnals, ← List.append_assoc]
    exact h.sublist.append_right _
  · intro hnone
    rw [hnals, ← List.append_assoc, ← h.pending (hstale ▸ hnone)]

/-- A frame is made of the units that were waiting. -/
theorem finishIf (h : Keeps done emitted a) (marker : Bool) :
    Keeps done (emitted ++ emittedUnits [(a.finishIf marker).2]) (a.finishIf marker).1 := by
  have hmoved : emittedUnits [(a.finishIf marker).2] ++ (a.finishIf marker).1.nals = a.nals
      ∧ (a.finishIf marker).1.tally.stale = a.tally.stale := by
    obtain ⟨nals, timestamp, fragment, tally⟩ := a
    cases marker with
    | false => exact ⟨rfl, rfl⟩
    | true =>
      cases nals with
      | nil => cases fragment <;> exact ⟨rfl, rfl⟩
      | cons nal nals =>
        cases fragment <;> exact ⟨(List.append_nil _).trans (emittedUnits_singleton _), rfl⟩
  refine ⟨?_, ?_⟩
  · rw [List.append_assoc, hmoved.1]
    exact h.sublist
  · intro hnone
    rw [List.append_assoc, hmoved.1]
    exact h.pending (hmoved.2 ▸ hnone)

end Keeps

/-! ### Packets -/

section

variable {read : Bytes → NalPayload} {push : NalAssembly → Bytes → NalAssembly}
  {earlier : List RtpPacket} {done emitted : List Bytes} {a : NalAssembly}

/-- What the packets in front have left: the unit that they have begun, if the next packet still
belongs to it, and the units that they have completed and no frame has given out. -/
structure Accounts (read : Bytes → NalPayload) (earlier : List RtpPacket)
    (done emitted : List Bytes) (a : NalAssembly) : Prop extends Keeps done emitted a where
  -- Whether the unit is still begun is up to the next packet, so this is said of every timestamp.
  begun : ∀ timestamp, (a.begin timestamp).fragment = begun? read timestamp earlier

theorem accounts_empty (read : Bytes → NalPayload) : Accounts read [] [] [] {} where
  sublist := List.Sublist.refl []
  pending := fun _ => rfl
  begun := fun _ => rfl

/-- A unit is continued only by a packet of the same timestamp behind an unmarked one. -/
theorem fragment_begin_finishIf {current : UInt32} (h : a.timestamp = some current) (marker : Bool)
    (timestamp : UInt32) :
    ((a.finishIf marker).1.begin timestamp).fragment
      = if marker ∨ current ≠ timestamp then none else a.fragment := by
  cases marker with
  | true => exact ((agrees_finish a).begin timestamp).fragment
  | false =>
    by_cases hsame : current = timestamp
    · have hbegin : a.begin timestamp = a := begin_of_timestamp (hsame ▸ h)
      simp [finishIf, hbegin, hsame]
    · have hbegin : (a.begin timestamp).fragment = none := (agrees_begin h hsame).fragment
      simp [finishIf, hbegin, hsame]

/-- One packet. -/
theorem Accounts.step (hread : Reads push read)
    (h : Accounts read earlier done emitted a) (p : RtpPacket) :
    Accounts read (p :: earlier)
      (done ++ (read p.payload).completes (begun? read p.timestamp earlier))
      (emitted ++ emittedUnits [(NalAssembly.step push a p).2]) (NalAssembly.step push a p).1 := by
  have hpushed := (h.toKeeps.begin p.timestamp).push (hread.isProper p.payload)
  rw [h.begun] at hpushed
  have htimestamp : ((a.begin p.timestamp).push (read p.payload)).timestamp = some p.timestamp := by
    rw [timestamp_push, timestamp_begin]
  unfold NalAssembly.step
  rw [hread.push_eq]
  refine ⟨hpushed.finishIf p.marker, ?_⟩
  intro timestamp
  rw [fragment_begin_finishIf htimestamp, fragment_push, h.begun, begun?]
  split
  · rfl
  next hcontinued =>
    have hsame : p.timestamp = timestamp := by
      simpa using fun hne => hcontinued (.inr hne)
    rw [hsame]

/-- A run of packets. -/
theorem Accounts.feed (hread : Reads push read)
    (h : Accounts read earlier done emitted a) (packets : List RtpPacket) :
    Accounts read (packets.reverse ++ earlier) (done ++ completedAfter read earlier packets)
      (emitted ++ emittedUnits (Rtsp.feed (NalAssembly.step push) a packets).2)
      (Rtsp.feed (NalAssembly.step push) a packets).1 := by
  -- Each packet moves to those in front, so everything that `Accounts` relates varies.
  induction packets generalizing earlier done emitted a with
  | nil => simpa [completedAfter, emittedUnits, Rtsp.feed] using h
  | cons p packets ih =>
    have hrest := ih (h.step hread p)
    rw [List.append_assoc, List.append_assoc, ← emittedUnits_append] at hrest
    rw [List.reverse_cons, List.append_assoc]
    exact hrest

end

end NalAssembly

/-! ## Runs -/

/-- How the frames of a run stand to the units that its packets have completed, where `a` is the
assembly that the run has left. -/
structure Conserves (completed : List Bytes) (a : NalAssembly)
    (outputs : List (Option MediaFrame)) : Prop where
  sublist : (emittedUnits outputs).Sublist completed
  ne_nil : ∀ nal ∈ emittedUnits outputs, nal ≠ []
  frames : a.tally.frames = outputs.reduceOption.length
  pending : a.tally.stale = 0 → completed = emittedUnits outputs ++ a.nals

/-- In every format whose payloads are read as what they may hold. -/
theorem NalAssembly.Reads.conserves {push : NalAssembly → Bytes → NalAssembly}
    {read : Bytes → NalPayload} (h : Reads push read) (packets : List RtpPacket) :
    Conserves (completed read packets) (feed (step push) {} packets).1
      (feed (step push) {} packets).2 := by
  have haccounts := (accounts_empty read).feed h packets
  have hsublist : (emittedUnits (feed (step push) {} packets).2).Sublist (completed read packets) :=
    (List.sublist_append_left _ _).trans haccounts.sublist
  have hframes := frames_feed tally h.frames_step {} packets
  exact {
    sublist := hsublist
    ne_nil := fun nal hnal =>
      completedAfter_ne_nil h.isProper [] packets nal (hsublist.subset hnal)
    frames := hframes.trans (Nat.zero_add _)
    pending := haccounts.pending }

/-- Whatever packets come, the units in the emitted frames are completed units in their order, none
of them is empty, and every frame is counted. Unless a frame is counted as stale, the emitted units
and those that still wait are all completed units. -/
theorem feed_conserves (packets : List RtpPacket) :
    Conserves (completed H264.read packets) (feed H264.process {} packets).1
        (feed H264.process {} packets).2
      ∧ Conserves (completed (H265.read false) packets) (feed H265.process {} packets).1.assembly
        (feed H265.process {} packets).2 := by
  refine ⟨H264.reads.conserves packets, ?_⟩
  rw [H265.feed_process_eq]
  exact (H265.reads false).conserves packets

end Rtsp
