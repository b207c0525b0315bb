-- SUMMARY: The digits and the width of hexadecimal numerals.
import Rtsp.Md5
import Rtsp.Text.Case
import Mathlib.Data.String.Basic

/-!
# Hexadecimal numerals

A hexadecimal numeral that is written has lower-case digits and, for a number that fits, exactly
its width (`length_hex`). So a digest is always a text of 32 such digits, and the numerals of one
width are in the order of their numbers (`hex_lt_hex`). Reading a numeral gives its number, whatever
its width (`readHex_hexUpper`).
-/

namespace Rtsp.Text

/-- A digit of a hexadecimal numeral, as it is written. -/
def IsHexDigit (c : Char) : Prop :=
  c ∈ "0123456789abcdef".toList

instance (c : Char) : Decidable (IsHexDigit c) :=
  inferInstanceAs (Decidable (c ∈ "0123456789abcdef".toList))

theorem isHexDigit_digitChar {n : Nat} (h : n < 16) : IsHexDigit n.digitChar := by
  have hall : ∀ n : Fin 16, IsHexDigit n.val.digitChar := by decide
  exact hall ⟨n, h⟩

theorem isHexDigit_of_mem_toDigits {n : Nat} {c : Char} (h : c ∈ Nat.toDigits 16 n) :
    IsHexDigit c := by
  induction n using Nat.strongRecOn with
  | ind n ih =>
    by_cases hn : n < 16
    · rw [Nat.toDigits_of_lt_base hn, List.mem_singleton] at h
      exact h ▸ isHexDigit_digitChar hn
    · have hbase : 16 ≤ n := Nat.not_lt.1 hn
      rw [Nat.toDigits_of_base_le (by decide) hbase, List.mem_append, List.mem_singleton] at h
      rcases h with h | rfl
      · exact ih (n / 16) (by omega) h
      · exact isHexDigit_digitChar (Nat.mod_lt n (by decide))

theorem isHexDigit_of_mem_hex {width n : Nat} {c : Char} (h : c ∈ (hex width n).toList) :
    IsHexDigit c := by
  unfold hex List.leftpad at h
  rw [String.toList_ofList, List.mem_append] at h
  rcases h with h | h
  · rw [List.eq_of_mem_replicate h]
    decide
  · exact isHexDigit_of_mem_toDigits h

theorem mem_hexUpper {width n : Nat} {c : Char} (h : c ∈ (hexUpper width n).toList) :
    c ∈ "0123456789ABCDEF".toList := by
  have hdigits : (hexUpper width n).toList = (hex width n).toList.map Char.toUpper := by
    simp [hexUpper, hex]
  have hupper : "0123456789abcdef".toList.all
      (fun d => decide (d.toUpper ∈ "0123456789ABCDEF".toList)) = true := by decide
  rw [hdigits] at h
  obtain ⟨d, hd, rfl⟩ := List.mem_map.1 h
  exact of_decide_eq_true (List.all_eq_true.1 hupper d (isHexDigit_of_mem_hex hd))

/-- A number that fits into its width fills it. -/
theorem length_hex {width n : Nat} (hwidth : 0 < width) (h : n < 16 ^ width) :
    (hex width n).toList.length = width := by
  have hdigits : (Nat.toDigits 16 n).length ≤ width :=
    (Nat.length_toDigits_le_iff (by decide) hwidth).2 h
  unfold hex List.leftpad
  rw [String.toList_ofList, List.length_append, List.length_replicate]
  exact Nat.sub_add_cancel hdigits

/-- Hexadecimal digits are lower-case. -/
theorem lower_of_isHexDigit {s : String} (h : ∀ c ∈ s.toList, IsHexDigit c) : lower s = s := by
  have hdigits : "0123456789abcdef".toList.all (fun c => c.toLower == c) = true := by decide
  have hdigit : ∀ c ∈ s.toList, c.toLower = c := by
    intro c hc
    exact beq_iff_eq.1 (List.all_eq_true.1 hdigits c (h c hc))
  have hmap : s.toList.map Char.toLower = s.toList :=
    (List.map_congr_left hdigit).trans (List.map_id _)
  unfold lower
  rw [hmap, String.ofList_toList]

/-! ## Order -/

theorem toList_hex_succ {width : Nat} (hwidth : 0 < width) (n : Nat) :
    (hex (width + 1) n).toList = (hex width (n / 16)).toList ++ [(n % 16).digitChar] := by
  unfold hex List.leftpad
  rw [String.toList_ofList, String.toList_ofList]
  by_cases hn : n < 16
  · have hwhole : List.replicate width '0' = List.replicate (width - 1) '0' ++ ['0'] := by
      rw [← List.replicate_succ', Nat.sub_add_cancel hwidth]
    rw [Nat.toDigits_of_lt_base hn, Nat.mod_eq_of_lt hn, Nat.div_eq_of_lt hn, Nat.toDigits_zero]
    exact congrArg (· ++ [n.digitChar]) hwhole
  · rw [Nat.toDigits_of_base_le (by decide) (Nat.not_lt.1 hn), List.length_append,
      List.length_singleton, Nat.add_sub_add_right, List.append_assoc]

theorem digitChar_lt_digitChar {n m : Nat} (h : n < m) (hm : m < 16) :
    n.digitChar < m.digitChar := by
  have hall : ∀ m : Fin 16, ∀ n : Fin 16, n < m → n.val.digitChar < m.val.digitChar := by decide
  exact hall ⟨m, hm⟩ ⟨n, h.trans hm⟩ h

theorem append_lt_append {a b : List Char} (h : a < b) (hlength : a.length = b.length)
    (c d : List Char) : a ++ c < b ++ d := by
  induction h with
  | nil => cases hlength
  | rel h => exact .rel h
  | cons _ ih => exact .cons (ih (Nat.succ.inj hlength))

/-- Numerals that fill their width are in the order of their numbers. -/
theorem hex_lt_hex {width n m : Nat} (hwidth : 0 < width) (h : n < m) (hm : m < 16 ^ width) :
    hex width n < hex width m := by
  rw [String.lt_iff_toList_lt]
  induction width, hwidth using Nat.le_induction generalizing n m with
  | base =>
    have hdigit : ∀ n < 16, (hex 1 n).toList = [n.digitChar] := by
      intro n hn
      unfold hex List.leftpad
      rw [String.toList_ofList, Nat.toDigits_of_lt_base hn]
      rfl
    rw [hdigit n (h.trans hm), hdigit m hm]
    exact .rel (digitChar_lt_digitChar h hm)
  | succ width hwidth ih =>
    have hm' : m / 16 < 16 ^ width := by
      rw [Nat.pow_succ] at hm
      exact Nat.div_lt_of_lt_mul (by omega)
    have hlength : ∀ n < 16 ^ width, (hex width n).toList.length = width :=
      fun n hn => length_hex hwidth hn
    rw [toList_hex_succ hwidth, toList_hex_succ hwidth]
    rcases Nat.lt_or_ge (n / 16) (m / 16) with hlt | hge
    · refine append_lt_append (ih hlt hm') ?_ _ _
      rw [hlength _ hm', hlength _ (hlt.trans hm')]
    · have heq : n / 16 = m / 16 := Nat.le_antisymm (Nat.div_le_div_right h.le) hge
      have hmod : n % 16 < m % 16 := by omega
      rw [heq]
      exact List.append_left_lt (.rel (digitChar_lt_digitChar hmod (Nat.mod_lt m (by decide))))

/-! ## Reading -/

/-- The digits are there, and are those of the number. -/
def Spells (digits : List Char) (n : Nat) : Prop :=
  ∃ values, values ≠ [] ∧ digits.mapM hexValue? = some values
    ∧ values.foldl (fun n v => 16 * n + v) 0 = n

theorem hexValue?_digitChar {n : Nat} (h : n < 16) : hexValue? n.digitChar.toUpper = some n := by
  have hall : ∀ n : Fin 16, hexValue? n.val.digitChar.toUpper = some n.val := by decide
  exact hall ⟨n, h⟩

theorem spells_toDigits (n : Nat) : Spells ((Nat.toDigits 16 n).map Char.toUpper) n := by
  induction n using Nat.strongRecOn with
  | ind n ih =>
    by_cases hn : n < 16
    · rw [Nat.toDigits_of_lt_base hn]
      exact ⟨[n], List.cons_ne_nil _ _, by simp [hexValue?_digitChar hn], by simp⟩
    · obtain ⟨values, -, hvalues, hfold⟩ := ih (n / 16) (by omega)
      have hdigit := hexValue?_digitChar (Nat.mod_lt n (by decide : 0 < 16))
      rw [Nat.toDigits_of_base_le (by decide) (Nat.not_lt.1 hn)]
      refine ⟨values ++ [n % 16], by simp, ?_, ?_⟩
      · rw [List.map_append, List.mapM_append, hvalues]
        simp [hdigit]
      · rw [List.foldl_append, hfold]
        exact Nat.div_add_mod n 16

theorem Spells.zeros {digits : List Char} {n : Nat} (h : Spells digits n) (k : Nat) :
    Spells (List.replicate k '0' ++ digits) n := by
  induction k with
  | zero => exact h
  | succ k ih =>
    obtain ⟨values, -, hvalues, hfold⟩ := ih
    have hzero : hexValue? '0' = some 0 := by decide
    refine ⟨0 :: values, List.cons_ne_nil _ _, ?_, hfold⟩
    rw [List.replicate_succ, List.cons_append, List.mapM_cons, hzero, hvalues]
    rfl

theorem Spells.readHex {digits : List Char} {n bound : Nat} (h : Spells digits n)
    (hn : n < bound) : readHex bound digits = some n := by
  obtain ⟨values, hne, hvalues, hfold⟩ := h
  have hplus : dropPlus digits = digits := by
    unfold dropPlus
    split
    next => simp [hexValue?] at hvalues
    next => rfl
  unfold Text.readHex
  rw [hplus, hvalues]
  cases values with
  | nil => exact absurd rfl hne
  | cons v vs => simp [hfold, hn]

/-- Reading a number as it is written gives the number back. -/
theorem readHex_hexUpper {bound n : Nat} (width : Nat) (h : n < bound) :
    readHex bound (hexUpper width n).toList = some n := by
  have hdigits : (hexUpper width n).toList
      = List.replicate (width - (Nat.toDigits 16 n).length) '0'
        ++ (Nat.toDigits 16 n).map Char.toUpper := by
    simp [hexUpper, List.leftpad]
  rw [hdigits]
  exact ((spells_toDigits n).zeros _).readHex h

end Rtsp.Text

namespace Rtsp.Md5

open Text

theorem length_littleEndian (n v : Nat) : (littleEndian n v).length = n := by
  induction n generalizing v with
  | zero => rfl
  | succ n ih => exact congrArg (· + 1) (ih _)

theorem length_digest (m : Bytes) : (digest m).length = 16 := by
  unfold digest
  simp [length_littleEndian]

theorem toList_hexDigest (m : Bytes) :
    (hexDigest m).toList = (digest m).flatMap fun b => (hex 2 b.toNat).toList := by
  unfold hexDigest
  rw [String.toList_join, List.flatMap_map]

theorem length_hexDigest (m : Bytes) : (hexDigest m).toList.length = 32 := by
  have hwidth : ∀ b : UInt8, (hex 2 b.toNat).toList.length = 2 := by
    intro b
    exact length_hex (by decide) b.toNat_lt
  rw [toList_hexDigest, List.length_flatMap, List.map_congr_left fun b _ => hwidth b,
    List.map_const', length_digest]
  rfl

theorem isHexDigit_of_mem_hexDigest {m : Bytes} {c : Char} (h : c ∈ (hexDigest m).toList) :
    IsHexDigit c := by
  rw [toList_hexDigest] at h
  obtain ⟨b, -, hc⟩ := List.mem_flatMap.1 h
  exact isHexDigit_of_mem_hex hc

end Rtsp.Md5
