-- SUMMARY: What a packet leads to depends only on the packets of its own frame.
import Mathlib.Data.List.Basic
import Rtsp.Proofs.Depacketizer.H264
import Rtsp.Proofs.Depacketizer.H265

/-!
# Frame isolation

Packets may belong to one frame if they have one timestamp and none before the last is marked
(`IsFrameRun`). What came before the longest such run at the end of a stream (`lastRun`) has left
nothing behind but its counts: assemblies that agree in everything else (`NalAssembly.Agrees`) go on
alike, and where a run begins, an assembly agrees with a fresh one (`NalAssembly.agrees_begin`).
-/

namespace Rtsp

/-! ## Runs of packets -/

/-- Packets of one timestamp, none of them marked but perhaps the last. -/
structure IsFrameRun (run : List RtpPacket) : Prop where
  timestamp : ∀ p ∈ run, ∀ q ∈ run, p.timestamp = q.timestamp
  unmarked : ∀ p ∈ run.dropLast, p.marker = false

instance (run : List RtpPacket) : Decidable (IsFrameRun run) :=
  decidable_of_iff
    ((∀ p ∈ run, ∀ q ∈ run, p.timestamp = q.timestamp) ∧ ∀ p ∈ run.dropLast, p.marker = false)
    ⟨fun h => ⟨h.1, h.2⟩, fun h => ⟨h.timestamp, h.unmarked⟩⟩

/-- The longest run of packets of one frame that ends with the last packet. -/
def lastRun : List RtpPacket → List RtpPacket
  | [] => []
  | p :: packets => if IsFrameRun (p :: packets) then p :: packets else lastRun packets

theorem lastRun_suffix (packets : List RtpPacket) : lastRun packets <:+ packets := by
  induction packets with
  | nil => exact List.suffix_refl _
  | cons p packets ih =>
    unfold lastRun
    split
    · exact List.suffix_refl _
    · exact ih.trans (List.suffix_cons p packets)

theorem isFrameRun_lastRun (packets : List RtpPacket) : IsFrameRun (lastRun packets) := by
  induction packets with
  | nil => exact ⟨by simp [lastRun], by simp [lastRun]⟩
  | cons p packets ih =>
    unfold lastRun
    split
    · assumption
    · exact ih

/-- No longer run of one frame ends with the last packet. -/
theorem suffix_lastRun {packets run : List RtpPacket} (hsuffix : run <:+ packets)
    (hrun : IsFrameRun run) : run <:+ lastRun packets := by
  induction packets with
  | nil => exact hsuffix
  | cons p packets ih =>
    unfold lastRun
    split
    · exact hsuffix
    next hnot =>
      rcases List.suffix_cons_iff.1 hsuffix with rfl | hrest
      · exact absurd hrun hnot
      · exact ih hrest

theorem isFrameRun_singleton (p : RtpPacket) : IsFrameRun [p] where
  timestamp := by
    intro q hq r hr
    rw [List.mem_singleton.1 hq, List.mem_singleton.1 hr]
  unmarked := by simp

theorem lastRun_ne_nil {packets : List RtpPacket} (h : packets ≠ []) : lastRun packets ≠ [] := by
  intro hnil
  have hlast : [packets.getLast h] <:+ packets := ⟨packets.dropLast, List.dropLast_concat_getLast h⟩
  have hsuffix := suffix_lastRun hlast (isFrameRun_singleton _)
  rw [hnil] at hsuffix
  exact absurd (List.suffix_nil.1 hsuffix) (List.cons_ne_nil _ _)

theorem IsFrameRun.cons {p q : RtpPacket} {run : List RtpPacket} (h : IsFrameRun (q :: run))
    (hts : p.timestamp = q.timestamp) (hmarker : p.marker = false) :
    IsFrameRun (p :: q :: run) where
  timestamp := by
    have hall : ∀ r ∈ p :: q :: run, r.timestamp = q.timestamp := by
      intro r hr
      rcases List.mem_cons.1 hr with rfl | hr
      · exact hts
      · exact h.timestamp r hr q List.mem_cons_self
    intro r hr s hs
    exact (hall r hr).trans (hall s hs).symm
  unmarked := by
    intro r hr
    rw [List.dropLast_cons_cons] at hr
    rcases List.mem_cons.1 hr with rfl | hr
    · exact hmarker
    · exact h.unmarked r hr

/-- In front of the longest run stands nothing, a marked packet, or one of another timestamp. -/
theorem exists_eq_append_lastRun {packets : List RtpPacket} (h : packets ≠ []) :
    ∃ before first run, packets = before ++ first :: run ∧ lastRun packets = first :: run
      ∧ ∀ p ∈ before.getLast?, p.marker = true ∨ p.timestamp ≠ first.timestamp := by
  obtain ⟨before, hbefore⟩ := lastRun_suffix packets
  obtain ⟨first, run, hrun⟩ := List.exists_cons_of_ne_nil (lastRun_ne_nil h)
  rw [hrun] at hbefore
  refine ⟨before, first, run, hbefore.symm, hrun, ?_⟩
  intro p hp
  refine Decidable.byContradiction fun hnot => ?_
  obtain ⟨hmarker, hts⟩ := not_or.1 hnot
  -- Otherwise the packet in front would prolong the run.
  have hframe : IsFrameRun (p :: first :: run) :=
    (hrun ▸ isFrameRun_lastRun packets).cons (Decidable.not_not.1 hts) (Bool.eq_false_iff.2 hmarker)
  have hsuffix : p :: first :: run <:+ packets := by
    refine ⟨before.dropLast, ?_⟩
    rw [← hbefore, ← List.dropLast_append_getLast? p hp]
    simp
  have hlength := (suffix_lastRun hsuffix hframe).length_le
  rw [hrun] at hlength
  exact absurd hlength (Nat.not_succ_le_self _)

namespace NalAssembly

/-! ## Assemblies that differ in their counts -/

/-- Two assemblies hold the same, whatever they have counted. -/
structure Agrees (a b : NalAssembly) : Prop where
  nals : a.nals = b.nals
  timestamp : a.timestamp = b.timestamp
  fragment : a.fragment = b.fragment

namespace Agrees

variable {a b : NalAssembly}

theorem count (h : Agrees a b) (incident : Incident) :
    Agrees (a.count incident) (b.count incident) :=
  ⟨h.nals, h.timestamp, h.fragment⟩

theorem pushUnit (h : Agrees a b) (nal : Bytes) : Agrees (a.pushUnit nal) (b.pushUnit nal) := by
  unfold NalAssembly.pushUnit
  split
  · exact h
  · exact ⟨congrArg (· ++ [nal]) h.nals, h.timestamp, h.fragment⟩

theorem pushAggregate (h : Agrees a b) (data : Bytes) :
    Agrees (a.pushAggregate data) (b.pushAggregate data) := by
  unfold NalAssembly.pushAggregate
  split
  next units _ => exact ⟨congrArg (· ++ units.filter (!·.isEmpty)) h.nals, h.timestamp, h.fragment⟩
  next => exact h.count _

/-- The unit in front of a fragment is the same in both, or in neither. -/
theorem pushFragment (h : Agrees a b) (start stop : Bool) (header data : Bytes) :
    Agrees (a.pushFragment start stop header data) (b.pushFragment start stop header data) := by
  obtain ⟨nals, timestamp, fragment, _⟩ := a
  obtain ⟨_, _, _, _⟩ := b
  obtain ⟨rfl, rfl, rfl⟩ := h
  cases start <;> cases stop <;> cases fragment <;> exact ⟨rfl, rfl, rfl⟩

theorem push (h : Agrees a b) (p : NalPayload) : Agrees (a.push p) (b.push p) := by
  cases p with
  | unit nal => exact h.pushUnit nal
  | aggregate data => exact h.pushAggregate data
  | fragment start stop header data => exact h.pushFragment start stop header data
  | refused incident => exact h.count incident

theorem begin (h : Agrees a b) (timestamp : UInt32) :
    Agrees (a.begin timestamp) (b.begin timestamp) := by
  obtain ⟨nals, current, fragment, _⟩ := a
  obtain ⟨_, _, _, _⟩ := b
  obtain ⟨rfl, rfl, rfl⟩ := h
  cases current with
  | none => exact ⟨rfl, rfl, rfl⟩
  | some current =>
    unfold NalAssembly.begin isWaiting
    dsimp only
    split <;> exact ⟨rfl, rfl, rfl⟩

/-- Both hand out the same frame. -/
theorem finish (h : Agrees a b) :
    Agrees a.finish.1 b.finish.1 ∧ a.finish.2 = b.finish.2 := by
  obtain ⟨nals, timestamp, fragment, _⟩ := a
  obtain ⟨_, _, _, _⟩ := b
  obtain ⟨rfl, rfl, rfl⟩ := h
  cases fragment <;> cases nals <;> exact ⟨⟨rfl, rfl, rfl⟩, rfl⟩

theorem finishIf (h : Agrees a b) (marker : Bool) :
    Agrees (a.finishIf marker).1 (b.finishIf marker).1
      ∧ (a.finishIf marker).2 = (b.finishIf marker).2 := by
  cases marker with
  | false => exact ⟨h, rfl⟩
  | true => exact h.finish

end Agrees

/-! ## Where nothing is left -/

/-- A marked packet leaves nothing behind. -/
theorem agrees_finish (a : NalAssembly) : Agrees a.finish.1 {} := by
  obtain ⟨nals, timestamp, fragment, tally⟩ := a
  cases fragment <;> cases nals <;> exact ⟨rfl, rfl, rfl⟩

/-- A new timestamp leaves nothing behind: what was waiting is discarded. -/
theorem agrees_begin {a : NalAssembly} {current timestamp : UInt32}
    (h : a.timestamp = some current) (hne : current ≠ timestamp) :
    Agrees (a.begin timestamp) (({} : NalAssembly).begin timestamp) := by
  obtain ⟨nals, _, fragment, tally⟩ := a
  obtain rfl : _ = some current := h
  have hchanged : (current != timestamp) = true := by simpa using hne
  cases fragment <;> cases nals <;> simp only [begin, isWaiting, hchanged] <;> exact ⟨rfl, rfl, rfl⟩

/-! ## Packets -/

/-- Payloads are added alike to assemblies that hold the same, and change no timestamp. -/
structure Uniform (push : NalAssembly → Bytes → NalAssembly) : Prop where
  agrees : ∀ {a b}, Agrees a b → ∀ payload, Agrees (push a payload) (push b payload)
  timestamp : ∀ a payload, (push a payload).timestamp = a.timestamp

section

variable {push : NalAssembly → Bytes → NalAssembly}

theorem Reads.uniform {read : Bytes → NalPayload} (h : Reads push read) : Uniform push where
  agrees := by
    intro a b hagrees payload
    rw [h.push_eq, h.push_eq]
    exact hagrees.push (read payload)
  timestamp := h.timestamp

/-- One packet: what `begin` makes the same stays the same. -/
theorem Uniform.step (hpush : Uniform push) {a b : NalAssembly} {packet : RtpPacket}
    (h : Agrees (a.begin packet.timestamp) (b.begin packet.timestamp)) :
    Agrees (step push a packet).1 (step push b packet).1
      ∧ (step push a packet).2 = (step push b packet).2 :=
  (hpush.agrees h packet.payload).finishIf packet.marker

theorem Uniform.feed (hpush : Uniform push) {a b : NalAssembly} (h : Agrees a b)
    (packets : List RtpPacket) :
    (Rtsp.feed (NalAssembly.step push) a packets).2
      = (Rtsp.feed (NalAssembly.step push) b packets).2 := by
  induction packets generalizing a b with
  | nil => rfl
  | cons packet packets ih =>
    obtain ⟨hagrees, houtput⟩ := hpush.step (h.begin packet.timestamp)
    unfold Rtsp.feed
    exact List.cons_eq_cons.2 ⟨houtput, ih hagrees⟩

/-- A marked packet, or one of another timestamp, is forgotten when the next packet begins. -/
theorem Uniform.agrees_step (hpush : Uniform push) (a : NalAssembly) {p first : RtpPacket}
    (h : p.marker = true ∨ p.timestamp ≠ first.timestamp) :
    Agrees ((NalAssembly.step push a p).1.begin first.timestamp)
      (({} : NalAssembly).begin first.timestamp) := by
  cases hmarker : p.marker with
  | true =>
    refine Agrees.begin ?_ first.timestamp
    rw [NalAssembly.step, hmarker]
    exact agrees_finish _
  | false =>
    have hne : p.timestamp ≠ first.timestamp := h.resolve_left (by simp [hmarker])
    have htimestamp : (NalAssembly.step push a p).1.timestamp = some p.timestamp := by
      rw [NalAssembly.step, hmarker]
      exact hpush.timestamp _ _
    exact agrees_begin htimestamp hne

/-- The last packet leads to what it leads to at the end of its own run. -/
theorem Uniform.getLast?_feed (hpush : Uniform push) (packets : List RtpPacket) :
    (Rtsp.feed (NalAssembly.step push) {} packets).2.getLast?
      = (Rtsp.feed (NalAssembly.step push) {} (lastRun packets)).2.getLast? := by
  by_cases hne : packets = []
  · subst hne
    rfl
  · obtain ⟨before, first, run, hpackets, hrun, hboundary⟩ := exists_eq_append_lastRun hne
    obtain ⟨a, ha⟩ : ∃ a, a = (Rtsp.feed (NalAssembly.step push) {} before).1 := ⟨_, rfl⟩
    have hbegin : Agrees (a.begin first.timestamp) (({} : NalAssembly).begin first.timestamp) := by
      rcases List.eq_nil_or_concat' before with rfl | ⟨earlier, p, rfl⟩
      · rw [ha]
        exact ⟨rfl, rfl, rfl⟩
      · rw [ha, feed_append]
        exact hpush.agrees_step _ (hboundary p (by simp))
    obtain ⟨hagrees, houtput⟩ := hpush.step hbegin
    have houtputs : (Rtsp.feed (NalAssembly.step push) a (first :: run)).2
        = (Rtsp.feed (NalAssembly.step push) {} (first :: run)).2 := by
      unfold Rtsp.feed
      exact List.cons_eq_cons.2 ⟨houtput, hpush.feed hagrees run⟩
    rw [hrun, hpackets, feed_append, ← ha, houtputs]
    exact List.getLast?_append_cons _ _ _

end
end NalAssembly

/-! ## Payload formats -/

theorem H264.uniform : NalAssembly.Uniform H264.pushPayload :=
  H264.reads.uniform

theorem H265.uniform (orderNumbers : Bool) :
    NalAssembly.Uniform (H265.pushPayload · orderNumbers) :=
  (H265.reads orderNumbers).uniform

/-- Whatever packets came before, the last one leads to what it leads to when only its own frame is
fed, from the first packet of its timestamp behind the last marked one. -/
theorem getLast?_feed_lastRun (packets : List RtpPacket) :
    (feed H264.process {} packets).2.getLast? = (feed H264.process {} (lastRun packets)).2.getLast?
      ∧ ∀ orderNumbers : Bool,
        (feed H265.process { orderNumbers } packets).2.getLast?
          = (feed H265.process { orderNumbers } (lastRun packets)).2.getLast? := by
  refine ⟨H264.uniform.getLast?_feed packets, ?_⟩
  intro orderNumbers
  rw [H265.feed_process_eq, H265.feed_process_eq]
  exact (H265.uniform orderNumbers).getLast?_feed packets

end Rtsp
