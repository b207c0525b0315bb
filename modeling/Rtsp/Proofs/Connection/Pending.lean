-- SUMMARY: Pending requests form a map that is listed by increasing number.
import Rtsp.Connection
import Mathlib.Data.List.Pairwise

/-!
# The map of pending requests

The entries are listed by increasing number (`Pending.Sorted`), so each number stands for one
request at most, and what an insertion and a removal do is said by the members alone.
-/

namespace Rtsp.Pending

/-- The entries are listed by increasing number. -/
def Sorted (p : Pending) : Prop :=
  p.entries.Pairwise fun a b => a.1 < b.1

theorem sorted_empty : Sorted {} :=
  List.Pairwise.nil

/-! ## Look-up -/

theorem get?_eq_none_iff {p : Pending} {n : UInt32} :
    p.get? n = none ↔ ∀ e ∈ p.entries, e.1 ≠ n := by
  rw [get?, List.lookup_eq_none_iff]
  simp only [ne_eq, bne_iff_ne, eq_comm (a := n)]

theorem Sorted.get?_eq_some_iff {p : Pending} (hp : p.Sorted) {n : UInt32} {r : Request} :
    p.get? n = some r ↔ (n, r) ∈ p.entries := by
  obtain ⟨es⟩ := p
  rw [get?]
  unfold Sorted at hp
  simp only at hp ⊢
  induction es with
  | nil => simp
  | cons e es ih =>
    obtain ⟨m, q⟩ := e
    obtain ⟨hm, hes⟩ := List.pairwise_cons.1 hp
    by_cases hmn : n = m
    · subst hmn
      have hrest : (n, r) ∉ es := fun h => UInt32.lt_irrefl n (hm _ h)
      simp [hrest, eq_comm]
    · rw [List.lookup_cons, beq_false_of_ne hmn]
      simp [ih hes, hmn]

/-- What is inserted is found. -/
theorem get?_insert_self (p : Pending) (n : UInt32) (r : Request) :
    (p.insert n r).get? n = some r := by
  obtain ⟨es⟩ := p
  unfold get? insert
  dsimp only
  induction es with
  | nil => simp [insertEntry]
  | cons e es ih =>
    unfold insertEntry
    split
    · simp
    · split
      next => simp
      next hne => rwa [List.lookup_cons, beq_false_of_ne hne]

/-! ## Removal -/

theorem mem_erase {p : Pending} {n : UInt32} {e : UInt32 × Request} :
    e ∈ (p.erase n).entries ↔ e ∈ p.entries ∧ e.1 ≠ n := by
  simp [erase]

theorem Sorted.erase {p : Pending} (hp : p.Sorted) (n : UInt32) : (p.erase n).Sorted :=
  List.Pairwise.sublist List.filter_sublist hp

theorem erase_of_get?_eq_none {p : Pending} {n : UInt32} (h : p.get? n = none) :
    p.erase n = p := by
  have hall : ∀ e ∈ p.entries, (e.1 != n) = true := fun e he =>
    bne_iff_ne.2 (get?_eq_none_iff.1 h e he)
  rw [Pending.erase, List.filter_eq_self.2 hall]

/-! ## Insertion -/

theorem mem_insertEntry {n : UInt32} {r : Request} {es : List (UInt32 × Request)}
    (hs : es.Pairwise fun a b => a.1 < b.1) {e : UInt32 × Request} :
    e ∈ insertEntry n r es ↔ e = (n, r) ∨ e ∈ es ∧ e.1 ≠ n := by
  induction es with
  | nil => simp [insertEntry]
  | cons f es ih =>
    obtain ⟨hf, hes⟩ := List.pairwise_cons.1 hs
    rw [insertEntry]
    split
    next hlt =>
      -- Every number listed so far is greater.
      have hne : ∀ g ∈ f :: es, g.1 ≠ n := by
        intro g hg
        rcases List.mem_cons.1 hg with rfl | hg
        · exact (UInt32.ne_of_lt hlt).symm
        · exact (UInt32.ne_of_lt (UInt32.lt_trans hlt (hf g hg))).symm
      rw [List.mem_cons]
      exact or_congr_right ⟨fun he => ⟨he, hne e he⟩, And.left⟩
    next hge =>
      split
      next heq =>
        have hne : ∀ g ∈ es, g.1 ≠ n := fun g hg => heq ▸ (UInt32.ne_of_lt (hf g hg)).symm
        rw [List.mem_cons, List.mem_cons]
        grind
      next hne =>
        rw [List.mem_cons, List.mem_cons, ih hes]
        grind

theorem Sorted.insert {p : Pending} (hp : p.Sorted) (n : UInt32) (r : Request) :
    (p.insert n r).Sorted := by
  obtain ⟨es⟩ := p
  unfold Sorted Pending.insert at *
  simp only at hp ⊢
  induction es with
  | nil => exact List.pairwise_singleton _ _
  | cons f es ih =>
    obtain ⟨hf, hes⟩ := List.pairwise_cons.1 hp
    rw [insertEntry]
    split
    next hlt =>
      refine List.Pairwise.cons ?_ hp
      intro e he
      rcases List.mem_cons.1 he with rfl | he
      · exact hlt
      · exact UInt32.lt_trans hlt (hf e he)
    next hge =>
      split
      next heq =>
        subst heq
        exact List.Pairwise.cons hf hes
      next hne =>
        refine List.Pairwise.cons ?_ (ih hes)
        intro e he
        rcases (mem_insertEntry hes).1 he with rfl | ⟨he, -⟩
        · exact UInt32.lt_of_le_of_ne (UInt32.not_lt.1 hge) (Ne.symm hne)
        · exact hf e he

theorem Sorted.mem_insert {p : Pending} (hp : p.Sorted) {n : UInt32} {r : Request}
    {e : UInt32 × Request} :
    e ∈ (p.insert n r).entries ↔ e = (n, r) ∨ e ∈ p.entries ∧ e.1 ≠ n :=
  mem_insertEntry hp

end Rtsp.Pending
