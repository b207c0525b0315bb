-- SUMMARY: A depacketizer counts the frames that it emits.
import Mathlib.Data.List.ReduceOption
import Rtsp.Depacketizer
import Rtsp.Proofs.Depacketizer.NalPayload

/-!
# Counted frames

In every format the tally counts the frames that are emitted, no more and no fewer
(`Depacketizer.frames_process`). Everything else that is counted leaves the number of frames alone.
-/

namespace Rtsp

theorem Tally.frames_count {incident : Incident} (h : incident ≠ .frame) (t : Tally) :
    (t.count incident).frames = t.frames := by
  cases incident with
  | frame => exact absurd rfl h
  | _ => rfl

theorem Tally.stale_count {incident : Incident} (h : incident ≠ .stale) (t : Tally) :
    (t.count incident).stale = t.stale := by
  cases incident with
  | stale => exact absurd rfl h
  | _ => rfl

/-- A run of a depacketizer counts the frames that it emits if every step does. -/
theorem frames_feed {σ : Type} {process : σ → RtpPacket → σ × Option MediaFrame} (tally : σ → Tally)
    (hprocess : ∀ s packet, (tally (process s packet).1).frames
      = (tally s).frames + (process s packet).2.toList.length)
    (s : σ) (packets : List RtpPacket) :
    (tally (feed process s packets).1).frames
      = (tally s).frames + (feed process s packets).2.reduceOption.length := by
  induction packets generalizing s with
  | nil => rfl
  | cons packet packets ih =>
    have hstep := hprocess s packet
    unfold feed
    dsimp only
    rw [ih, hstep, Nat.add_assoc]
    cases (process s packet).2 with
    | none => simp
    | some frame => simp [Nat.add_comm]

/-! ## Frames of NAL units -/

namespace NalAssembly

variable (a : NalAssembly)

theorem frames_begin (timestamp : UInt32) :
    (a.begin timestamp).tally.frames = a.tally.frames := by
  unfold begin
  cases a.timestamp with
  | none => rfl
  | some current =>
    dsimp only
    split <;> rfl

theorem frames_push {p : NalPayload} (hp : p.IsProper) :
    (a.push p).tally.frames = a.tally.frames := by
  rcases a.tally_push hp with htally | ⟨incident, hincident, -, htally⟩
  · rw [htally]
  · rw [htally, Tally.frames_count hincident]

theorem frames_finishIf (marker : Bool) :
    (a.finishIf marker).1.tally.frames
      = a.tally.frames + (a.finishIf marker).2.toList.length := by
  obtain ⟨nals, timestamp, fragment, tally⟩ := a
  cases marker with
  | false => rfl
  | true => cases fragment <;> cases nals <;> rfl

theorem Reads.frames_step {push : NalAssembly → Bytes → NalAssembly} {read : Bytes → NalPayload}
    (h : Reads push read) (packet : RtpPacket) :
    (step push a packet).1.tally.frames
      = a.tally.frames + (step push a packet).2.toList.length := by
  unfold step
  rw [frames_finishIf, h.push_eq, frames_push _ (h.isProper packet.payload), frames_begin]

end NalAssembly

theorem H264.frames_process (a : NalAssembly) (packet : RtpPacket) :
    (process a packet).1.tally.frames = a.tally.frames + (process a packet).2.toList.length :=
  reads.frames_step a packet

theorem H265.frames_process (h : H265) (packet : RtpPacket) :
    (h.process packet).1.assembly.tally.frames
      = h.assembly.tally.frames + (h.process packet).2.toList.length :=
  (reads h.orderNumbers).frames_step h.assembly packet

/-! ## Images -/

namespace Jpeg

variable (j : Jpeg)

theorem frames_begin (timestamp : UInt32) :
    (j.begin timestamp).tally.frames = j.tally.frames := by
  unfold begin
  cases j.timestamp with
  | none => rfl
  | some current =>
    dsimp only
    split <;> rfl

theorem frames_append (offset : Nat) (data : Bytes) :
    (j.append offset data).tally.frames = j.tally.frames := by
  unfold append
  split
  · rfl
  · split <;> rfl

theorem frames_pushFirst (packet : RtpPacket) (piece : Piece) (data : Bytes) :
    (j.pushFirst packet piece data).tally.frames = j.tally.frames := by
  unfold pushFirst
  refine (frames_append _ 0 data).trans ?_
  unfold openImage
  dsimp only
  split <;> rfl

theorem tally_keepTable (q : Quantization) : (j.keepTable q).tally = j.tally := by
  unfold keepTable
  split <;> rfl

theorem frames_pushPacket (packet : RtpPacket) :
    (j.pushPacket packet).tally.frames = j.tally.frames := by
  unfold pushPacket
  split
  next => rfl
  next piece _ =>
    unfold pushPiece
    split
    · exact j.frames_append _ _
    split
    · exact j.frames_pushFirst packet piece _
    split
    next => rfl
    next => rfl
    next q rest _ =>
      have hkept : (j.keepTable q).tally.frames = j.tally.frames := by rw [tally_keepTable]
      dsimp only
      split
      · exact hkept
      · exact (frames_pushFirst _ packet piece rest).trans hkept

theorem frames_process (packet : RtpPacket) :
    (j.process packet).1.tally.frames
      = j.tally.frames + (j.process packet).2.toList.length := by
  have hpushed : ((j.begin packet.timestamp).pushPacket packet).tally.frames = j.tally.frames := by
    rw [frames_pushPacket, frames_begin]
  unfold process
  dsimp only
  split
  · unfold finish
    dsimp only
    split
    · exact hpushed
    · exact congrArg (· + 1) hpushed
  · exact hpushed

end Jpeg

/-! ## Access units of AAC -/

theorem Aac.frames_process (a : Aac) (packet : RtpPacket) :
    (a.process packet).1.tally.frames
      = a.tally.frames + (a.process packet).2.toList.length := by
  unfold process
  split <;> rfl

/-! ## All formats -/

theorem PayloadUnits.frames_emit {p : PayloadUnits} (h : .frame ∉ p.incidents) (timestamp : UInt32)
    (tally : Tally) :
    (p.emit timestamp tally).1.frames
      = tally.frames + (p.emit timestamp tally).2.toList.length := by
  have hincidents : (p.incidents.foldl Tally.count tally).frames = tally.frames := by
    generalize p.incidents = incidents at h
    induction incidents generalizing tally with
    | nil => rfl
    | cons incident incidents ih =>
      have hne : incident ≠ .frame := fun heq => h (heq ▸ List.mem_cons_self)
      rw [List.foldl_cons, ih _ fun hmem => h (List.mem_cons_of_mem _ hmem), tally.frames_count hne]
  unfold emit
  dsimp only
  split
  · exact hincidents
  · exact congrArg (· + 1) hincidents

theorem PacketFormat.frame_not_mem_read (format : PacketFormat) (payload : Bytes) :
    .frame ∉ (format.read payload).incidents := by
  cases format with
  | amr | amrWideband =>
    dsimp only [read, PayloadUnits.amr]
    split <;> simp
  | g7111 =>
    dsimp only [read, PayloadUnits.g7111]
    split
    · simp
    split
    · simp
    · dsimp only
      split <;> simp
  | unchanged name => simp [read, PayloadUnits.unchanged]

namespace Depacketizer

theorem name_process (d : Depacketizer) (packet : RtpPacket) :
    (d.process packet).1.name = d.name := by
  cases d <;> rfl

/-- The tally counts the frame that a packet completes. -/
theorem frames_process (d : Depacketizer) (packet : RtpPacket) :
    (d.process packet).1.tally.frames
      = d.tally.frames + (d.process packet).2.toList.length := by
  cases d with
  | h264 a => exact H264.frames_process a packet
  | h265 h => exact h.frames_process packet
  | jpeg j => exact j.frames_process packet
  | aac a => exact a.frames_process packet
  | perPacket p => exact PayloadUnits.frames_emit (p.format.frame_not_mem_read _) _ p.tally

end Depacketizer
end Rtsp
