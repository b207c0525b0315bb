-- SUMMARY: An aggregate is added to an access unit as a whole, or not at all.
import Rtsp.Proofs.Depacketizer.NalAssembly

/-!
# Aggregates

The walk over an aggregate takes an entry at each turn and keeps its unit to itself
(`NalAssembly.Walk.turn`). Every turn uses up a size, so the walk ends
(`NalAssembly.Walk.follow_of_lt`), and only then its units are added. It comes to the end exactly if
the bytes are entries, but for one byte that may be left over
(`NalAssembly.readEntries?_eq_some_iff`).
-/

namespace Rtsp.NalAssembly

/-! ## Entries -/

/-- Where a size does not run past the end, there is an entry. -/
theorem eq_entries_append (hi lo : UInt8) {bs : Bytes} {nals : List Bytes} {rest : Bytes}
    (hfits : (ofBe16 hi lo).toNat ≤ bs.length) (hle : ∀ nal ∈ nals, nal.length ≤ 65535)
    (hdrop : bs.drop (ofBe16 hi lo).toNat = entries nals ++ rest) :
    (∀ nal ∈ bs.take (ofBe16 hi lo).toNat :: nals, nal.length ≤ 65535)
      ∧ hi :: lo :: bs = entries (bs.take (ofBe16 hi lo).toNat :: nals) ++ rest := by
  have hlength : (bs.take (ofBe16 hi lo).toNat).length = (ofBe16 hi lo).toNat :=
    List.length_take_of_le hfits
  have hsize : UInt16.ofNat (ofBe16 hi lo).toNat = ofBe16 hi lo := UInt16.ofNat_toNat
  constructor
  · refine List.forall_mem_cons.2 ⟨?_, hle⟩
    rw [hlength]
    exact Nat.le_of_lt_succ (ofBe16 hi lo).toNat_lt
  · rw [entries, List.flatMap_cons, hlength, hsize, be16_ofBe16, List.append_assoc,
      List.append_assoc, ← entries, ← hdrop, List.take_append_drop]
    rfl

/-- Entries of units, and perhaps a byte behind them, which is too little for a size. -/
structure IsAggregate (units : List Bytes) (data : Bytes) : Prop where
  length_le : ∀ unit ∈ units, unit.length ≤ 65535
  eq_entries : ∃ extra : Bytes, extra.length ≤ 1 ∧ data = entries units ++ extra

theorem readEntries?_of_length_le {data : Bytes} (h : data.length ≤ 1) :
    readEntries? data = some [] := by
  rw [readEntries?]
  intro hi lo bs hdata
  rw [hdata, List.length_cons, List.length_cons] at h
  omega

theorem IsAggregate.readEntries?_eq {units : List Bytes} {data : Bytes}
    (h : IsAggregate units data) : readEntries? data = some units := by
  obtain ⟨hle, extra, hextra, rfl⟩ := h
  rw [readEntries?_entries_append hle, readEntries?_of_length_le hextra]
  exact congrArg some (List.append_nil units)

/-- The units of an aggregate are those of its entries, so there is only one way to read it. -/
theorem readEntries?_eq_some_iff {units : List Bytes} {data : Bytes} :
    readEntries? data = some units ↔ IsAggregate units data := by
  refine ⟨fun hread => ?_, IsAggregate.readEntries?_eq⟩
  fun_induction readEntries? data generalizing units with
  | case1 => cases hread
  | case2 hi lo bs size hfits =>
    rename_i ih
    obtain ⟨later, hlater, rfl⟩ := Option.map_eq_some_iff.1 hread
    obtain ⟨hle, extra, hextra, hdrop⟩ := ih hlater
    obtain ⟨hall, hdata⟩ := eq_entries_append hi lo (Nat.not_lt.1 hfits) hle hdrop
    exact ⟨hall, extra, hextra, hdata⟩
  | case3 data hshort =>
    obtain rfl := Option.some.inj hread
    refine ⟨List.forall_mem_nil _, data, ?_, rfl⟩
    match data, hshort with
    | [], _ => exact Nat.zero_le 1
    | [_], _ => exact Nat.le_refl 1
    | hi :: lo :: bs, hshort => exact absurd rfl (hshort hi lo bs)

/-! ## The walk -/

/-- Where the walk over an aggregate stands: what it has collected, and what it has not seen yet. -/
structure Walk where
  units : List Bytes := []
  left : Bytes

/-- What a turn of the walk comes to. -/
inductive Walk.Turn where
  | next (w : Walk)
  | ended (units : List Bytes)
  /-- A size runs past the end. -/
  | overrun

namespace Walk

def turn (w : Walk) : Turn :=
  match w.left with
  | hi :: lo :: bs =>
    let size := (ofBe16 hi lo).toNat
    if bs.length < size then .overrun
    else .next ⟨if size = 0 then w.units else w.units ++ [bs.take size], bs.drop size⟩
  | _ => .ended w.units

/-- What the walk comes to, if it ends within `n` turns: the units, or nothing at an overrun. -/
def follow : Nat → Walk → Option (Option (List Bytes))
  | 0, _ => none
  | n + 1, w =>
    match w.turn with
    | .next later => follow n later
    | .ended units => some (some units)
    | .overrun => some none

/-- What the walk will come to: the units of the entries that are left are added to those collected,
if they are not empty. -/
def result (w : Walk) : Option (List Bytes) :=
  (readEntries? w.left).map fun units => w.units ++ units.filter (!·.isEmpty)

/-- A turn uses up a size and keeps what the walk will come to, or it is the last one. -/
theorem turn_cases (w : Walk) :
    (∃ later, w.turn = .next later ∧ later.left.length + 2 ≤ w.left.length
        ∧ later.result = w.result)
      ∨ (w.turn = .ended w.units ∧ w.result = some w.units)
      ∨ (w.turn = .overrun ∧ w.result = none) := by
  obtain ⟨collected, left⟩ := w
  match left with
  | hi :: lo :: bs =>
    by_cases hshort : bs.length < (ofBe16 hi lo).toNat
    · refine .inr (.inr ⟨if_pos hshort, ?_⟩)
      rw [result, readEntries?, if_pos hshort]
      rfl
    · refine .inl ⟨_, if_neg hshort, ?_, ?_⟩
      · simp
      · have hread : readEntries? (hi :: lo :: bs)
            = (readEntries? (bs.drop (ofBe16 hi lo).toNat)).map
              (bs.take (ofBe16 hi lo).toNat :: ·) := by
          rw [readEntries?, if_neg hshort]
        have hempty : (bs.take (ofBe16 hi lo).toNat).isEmpty = true ↔ (ofBe16 hi lo).toNat = 0 := by
          rw [List.isEmpty_iff_length_eq_zero, List.length_take_of_le (Nat.not_lt.1 hshort)]
        simp only [result, hread, Option.map_map]
        congr 1
        funext units
        by_cases hzero : (ofBe16 hi lo).toNat = 0
        · simp [hzero]
        · simp [hzero, mt hempty.1 hzero]
  | [] | [_] =>
    refine .inr (.inl ⟨rfl, ?_⟩)
    simp [result, readEntries?]

theorem follow_of_lt {n : Nat} {w : Walk} (h : w.left.length < 2 * n) :
    w.follow n = some w.result := by
  induction n generalizing w with
  | zero => exact absurd h (Nat.not_lt_zero _)
  | succ n ih =>
    rw [follow]
    obtain ⟨later, hturn, hlength, hresult⟩ | ⟨hturn, hresult⟩ | ⟨hturn, hresult⟩ := w.turn_cases
    · rw [hturn, ← hresult]
      exact ih (by omega)
    · rw [hturn, hresult]
    · rw [hturn, hresult]

end Walk

/-! ## All or nothing -/

/-- What the end of a walk does to an assembly. -/
def commit (a : NalAssembly) : Option (List Bytes) → NalAssembly
  | some units => { a with nals := a.nals ++ units }
  | none => a.count .truncated

theorem pushAggregate_eq_commit (a : NalAssembly) (data : Bytes) :
    a.pushAggregate data = a.commit (Walk.result ⟨[], data⟩) := by
  unfold pushAggregate Walk.result
  cases readEntries? data with
  | none => rfl
  | some units => rfl

/-- Either the units of all entries are added, except the empty ones, or none are, and the walk ends
in any case. -/
theorem pushAggregate_atomic (a : NalAssembly) (data : Bytes) :
    (∀ units, IsAggregate units data →
        a.pushAggregate data = { a with nals := a.nals ++ units.filter (!·.isEmpty) })
      ∧ ((¬∃ units, IsAggregate units data) →
        a.pushAggregate data
          = { a with tally := { a.tally with truncated := a.tally.truncated + 1 } })
      ∧ (a.pushAggregate data).fragment = a.fragment
      ∧ (a.pushAggregate data).timestamp = a.timestamp
      ∧ ∃ result, Walk.follow (data.length / 2 + 1) ⟨[], data⟩ = some result
        ∧ a.pushAggregate data = a.commit result := by
  refine ⟨fun units h => ?_, fun h => ?_, ?_, a.timestamp_pushAggregate data, ?_⟩
  · rw [pushAggregate, h.readEntries?_eq]
  · have hnone : readEntries? data = none := by
      cases hread : readEntries? data with
      | none => rfl
      | some units => exact absurd ⟨units, readEntries?_eq_some_iff.1 hread⟩ h
    rw [pushAggregate, hnone]
    rfl
  · unfold pushAggregate
    split <;> rfl
  · exact ⟨_, Walk.follow_of_lt (by dsimp only; omega), a.pushAggregate_eq_commit data⟩

/-- Three units, one of them empty, and a byte behind them; and a size that runs past the end behind
a unit that can be read. -/
theorem pushAggregate_atomic_both :
    let a : NalAssembly := { nals := [[0x67]], timestamp := some 90, fragment := some [0x65] }
    let data : Bytes := [0, 1, 0x41, 0, 0, 0, 2, 0x42, 0x43, 0xFF]
    let truncated : Bytes := [0, 1, 0x41, 0, 2, 0x42]
    IsAggregate [[0x41], [], [0x42, 0x43]] data
      ∧ a.pushAggregate data = { a with nals := [[0x67], [0x41], [0x42, 0x43]] }
      ∧ (¬∃ units, IsAggregate units truncated)
      ∧ a.pushAggregate truncated = { a with tally := { truncated := 1 } } := by
  intro a data truncated
  have hdata : IsAggregate [[0x41], [], [0x42, 0x43]] data :=
    ⟨by decide, [0xFF], by decide, by decide⟩
  have htruncated : ¬∃ units, IsAggregate units truncated := by
    rintro ⟨units, h⟩
    have hread := h.readEntries?_eq
    simp [truncated, NalAssembly.readEntries?, ofBe16] at hread
  exact ⟨hdata, (pushAggregate_atomic a data).1 _ hdata, htruncated,
    (pushAggregate_atomic a truncated).2.1 htruncated⟩

end Rtsp.NalAssembly
