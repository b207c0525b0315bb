-- SUMMARY: What a payload holds of the units of an access unit.
import Mathlib.Tactic.SplitIfs
import Rtsp.Depacketizer.H264
import Rtsp.Depacketizer.H265
import Rtsp.Proofs.Depacketizer.NalAssembly

/-!
# Payloads of NAL units

H.264 and H.265 mark their payloads in different ways, but what a payload may hold is the same in
both (`NalPayload`), and so is what an assembly does with it (`NalAssembly.push`). What is true of
every payload is therefore proved of `push`.
-/

namespace Rtsp

/-- What a payload holds. -/
inductive NalPayload where
  /-- A whole unit. -/
  | unit (nal : Bytes)
  /-- The entries of an aggregate. -/
  | aggregate (data : Bytes)
  /-- A piece of a unit, with the header of that unit. -/
  | fragment (start stop : Bool) (header data : Bytes)
  /-- Nothing that can be used. -/
  | refused (incident : Incident)
  deriving DecidableEq, Repr

namespace NalPayload

/-- Units and headers are not empty, and a payload is refused for one of two reasons. -/
def IsProper : NalPayload → Prop
  | .unit nal => nal ≠ []
  | .aggregate _ => True
  | .fragment _ _ header _ => header ≠ []
  | .refused incident => incident = .malformed ∨ incident = .unsupported

end NalPayload

/-! ## Formats -/

namespace H264

def read : Bytes → NalPayload
  | [] => .refused .malformed
  | indicator :: body =>
    let type := indicator.toNat % 32
    if 1 ≤ type ∧ type ≤ 23 then .unit (indicator :: body)
    else if type = 24 then .aggregate body
    else if type = 28 then
      match body with
      | [] => .refused .malformed
      | header :: data =>
        .fragment (RtpPacket.bit header 7) (RtpPacket.bit header 6)
          [fragmentHeader indicator header] data
    else if type = 0 ∨ 30 ≤ type then .refused .malformed
    else .refused .unsupported

theorem isProper_read (payload : Bytes) : (read payload).IsProper := by
  unfold read
  split
  · exact .inl rfl
  · dsimp only
    split_ifs
    · exact List.cons_ne_nil _ _
    · trivial
    · split
      · exact .inl rfl
      · exact List.cons_ne_nil _ _
    · exact .inl rfl
    · exact .inr rfl

end H264

namespace H265

def read (orderNumbers : Bool) : Bytes → NalPayload
  | first :: second :: body =>
    let type := first.toNat / 2 % 64
    if orderNumbers then .refused .unsupported
    else if type ≤ 47 then .unit (first :: second :: body)
    else if type = 48 then .aggregate body
    else if type = 49 then
      match body with
      | [] => .refused .malformed
      | header :: data =>
        .fragment (RtpPacket.bit header 7) (RtpPacket.bit header 6)
          [fragmentHeader first header, second] data
    else if type = 50 then .refused .unsupported
    else .refused .malformed
  | _ => .refused .malformed

theorem isProper_read (orderNumbers : Bool) (payload : Bytes) :
    (read orderNumbers payload).IsProper := by
  unfold read
  split
  · dsimp only
    split_ifs
    · exact .inr rfl
    · exact List.cons_ne_nil _ _
    · trivial
    · split
      · exact .inl rfl
      · exact List.cons_ne_nil _ _
    · exact .inr rfl
    · exact .inl rfl
  · exact .inl rfl

end H265

/-! ## Assemblies -/

/-- Add what a payload holds. -/
def NalAssembly.push (a : NalAssembly) : NalPayload → NalAssembly
  | .unit nal => a.pushUnit nal
  | .aggregate data => a.pushAggregate data
  | .fragment start stop header data => a.pushFragment start stop header data
  | .refused incident => a.count incident

namespace NalAssembly

theorem timestamp_push (a : NalAssembly) (p : NalPayload) :
    (a.push p).timestamp = a.timestamp := by
  cases p with
  | unit nal => exact a.timestamp_pushUnit nal
  | aggregate data => exact a.timestamp_pushAggregate data
  | fragment start stop header data => exact a.timestamp_pushFragment start stop header data
  | refused incident => exact a.timestamp_count incident

/-- A payload leads to at most one incident, which is about that payload or about a fragment. -/
theorem tally_push (a : NalAssembly) {p : NalPayload} (hp : p.IsProper) :
    (a.push p).tally = a.tally
      ∨ ∃ incident, incident ≠ .frame ∧ incident ≠ .stale
        ∧ (a.push p).tally = a.tally.count incident := by
  cases p with
  | unit nal =>
    refine .inl ?_
    rw [push, pushUnit]
    split <;> rfl
  | aggregate data =>
    rw [push, pushAggregate]
    split
    · exact .inl rfl
    · exact .inr ⟨.truncated, by decide, by decide, rfl⟩
  | fragment start stop header data =>
    rw [push, pushFragment]
    cases start with
    | true =>
      cases a.fragment with
      | none => exact .inl (by cases stop <;> rfl)
      | some begun => exact .inr ⟨.restarted, by decide, by decide, by cases stop <;> rfl⟩
    | false =>
      cases a.fragment with
      | none => exact .inr ⟨.orphan, by decide, by decide, rfl⟩
      | some begun => exact .inl (by cases stop <;> rfl)
  | refused incident =>
    rcases hp with rfl | rfl
    · exact .inr ⟨.malformed, by decide, by decide, rfl⟩
    · exact .inr ⟨.unsupported, by decide, by decide, rfl⟩

/-- The format whose payloads `push` adds reads them by `read`. -/
structure Reads (push : NalAssembly → Bytes → NalAssembly) (read : Bytes → NalPayload) : Prop where
  push_eq : ∀ a payload, push a payload = a.push (read payload)
  isProper : ∀ payload, (read payload).IsProper

theorem Reads.timestamp {push : NalAssembly → Bytes → NalAssembly} {read : Bytes → NalPayload}
    (h : Reads push read) (a : NalAssembly) (payload : Bytes) :
    (push a payload).timestamp = a.timestamp := by
  rw [h.push_eq, timestamp_push]

end NalAssembly

theorem H264.reads : NalAssembly.Reads pushPayload read where
  push_eq := by
    intro a payload
    unfold pushPayload read
    split
    · rfl
    · dsimp only
      split_ifs
      · rfl
      · rfl
      · split <;> rfl
      · rfl
      · rfl
  isProper := isProper_read

theorem H265.reads (orderNumbers : Bool) :
    NalAssembly.Reads (pushPayload · orderNumbers) (read orderNumbers) where
  push_eq := by
    intro a payload
    match payload with
    | [] | [_] => rfl
    | first :: second :: body =>
      unfold pushPayload read
      dsimp only
      split_ifs
      · rfl
      · rfl
      · rfl
      · split <;> rfl
      · rfl
      · rfl
  isProper := isProper_read orderNumbers

end Rtsp
