-- SUMMARY: Decoding inverts encoding, and ASCII bytes stand for themselves alone.
import Mathlib
import Rtsp.Text.Utf8

/-!
# UTF-8 round trip

`decodeLossy_encode` says that text is read back as it was written. The scanner is followed through
the four widths of an encoded character: the lead byte announces the width, and each tail byte
appends six bits. A byte below 0x80 occurs in an encoded text only as the character of that number
(`eq_of_mem_utf8EncodeChar`), so bytes can be searched for line ends and markers before decoding;
and it is decoded to that character even where other bytes are malformed
(`mem_of_mem_decodeLossy`), which makes it possible to decode what stands on its two sides
separately (`decodeLossy_append_ascii`). The strict decoder accepts what the encoder writes and
nothing else (`eq_encode_of_decode?`).
-/

namespace Rtsp.Text.Utf8

/-! ## Lead and tail bytes -/

/-- The continuation byte that holds the low six bits of `k`. -/
def tailByte (k : Nat) : UInt8 :=
  UInt8.ofNat (k % 0x40 + 0x80)

theorem toNat_tailByte (k : Nat) : (tailByte k).toNat = k % 64 + 128 := by
  simp [tailByte]; omega

theorem le_tailByte (k : Nat) : 0x80 ≤ tailByte k := by
  simp only [UInt8.le_iff_toNat_le, toNat_tailByte]; simp

theorem tailByte_le (k : Nat) : tailByte k ≤ 0xBF := by
  simp only [UInt8.le_iff_toNat_le, toNat_tailByte]; simp; omega

theorem push_tailByte (bits k : Nat) : push bits (tailByte k) = bits * 64 + k % 64 := by
  simp only [push, toNat_tailByte]; omega

theorem continuation_tailByte (n bits k : Nat) (bs : List UInt8) :
    continuation (n + 1) bits (tailByte k :: bs) = continuation n (bits * 64 + k % 64) bs := by
  rw [continuation, if_pos ⟨le_tailByte k, tailByte_le k⟩, push_tailByte]

theorem leadByte_not_lt {k n : Nat} (h : 0x80 ≤ n) (hk : k + n < 256) :
    ¬ UInt8.ofNat (k + n) < 0x80 := by
  rw [UInt8.lt_iff_toNat_lt, UInt8.toNat_ofNat']
  simp
  omega

theorem lead?_two {k : Nat} (h : 2 ≤ k) (hk : k < 32) :
    lead? (UInt8.ofNat (k + 0xC0)) = some ⟨k, 0x80, 0xBF, 0⟩ := by
  interval_cases k <;> rfl

theorem lead?_three {k : Nat} (hk : k < 16) :
    lead? (UInt8.ofNat (k + 0xE0))
      = some ⟨k, if k = 0 then 0xA0 else 0x80, if k = 13 then 0x9F else 0xBF, 1⟩ := by
  interval_cases k <;> rfl

theorem lead?_four {k : Nat} (hk : k ≤ 4) :
    lead? (UInt8.ofNat (k + 0xF0))
      = some ⟨k, if k = 0 then 0x90 else 0x80, if k = 4 then 0x8F else 0xBF, 2⟩ := by
  interval_cases k <;> rfl

/-! ## One character -/

theorem unit_of_lead {a : UInt8} {l : Lead} {b v : Nat} {bs rest : List UInt8}
    (ha : ¬ a < 0x80) (hl : lead? a = some l)
    (hlow : l.low ≤ tailByte b) (hhigh : tailByte b ≤ l.high)
    (hc : continuation l.more (l.bits * 64 + b % 64) bs = (some v, rest)) :
    unit a (tailByte b :: bs) = (some (Char.ofNat v), rest) := by
  simp only [unit, ha, if_false, hl, hlow, hhigh, and_self, if_true, push_tailByte, hc,
    Option.map_some]

theorem unit_one {v : Nat} (h : v ≤ 0x7f) (rest : List UInt8) :
    unit (UInt8.ofNat v) rest = (some (Char.ofNat v), rest) := by
  have hv : (UInt8.ofNat v).toNat = v := by simp; omega
  have hlt : UInt8.ofNat v < 0x80 := by rw [UInt8.lt_iff_toNat_lt, hv]; simp; omega
  simp only [unit, if_pos hlt, hv]

theorem unit_two {v : Nat} (h : 0x7f < v) (h' : v ≤ 0x7ff) (rest : List UInt8) :
    unit (UInt8.ofNat (v / 64 % 0x20 + 0xC0)) (tailByte v :: rest)
      = (some (Char.ofNat v), rest) := by
  have hk : v / 64 % 0x20 < 32 := Nat.mod_lt _ (by decide)
  refine unit_of_lead (leadByte_not_lt (by decide) (by omega)) (lead?_two (by omega) hk)
    (le_tailByte v) (tailByte_le v) ?_
  rw [continuation, show v / 64 % 0x20 * 64 + v % 64 = v by omega]

theorem unit_three {v : Nat} (h : 0x7ff < v) (h' : v ≤ 0xffff) (hs : v < 0xD800 ∨ 0xDFFF < v)
    (rest : List UInt8) :
    unit (UInt8.ofNat (v / 4096 % 0x10 + 0xE0)) (tailByte (v / 64) :: tailByte v :: rest)
      = (some (Char.ofNat v), rest) := by
  have hk : v / 4096 % 0x10 < 16 := Nat.mod_lt _ (by decide)
  have ht := toNat_tailByte (v / 64)
  refine unit_of_lead (leadByte_not_lt (by decide) (by omega)) (lead?_three hk) ?_ ?_ ?_
  -- the narrowed ranges of the second byte are those of a number above 0x7ff that is no surrogate
  · dsimp only
    split
    · rw [UInt8.le_iff_toNat_le, ht]; simp; omega
    · exact le_tailByte _
  · dsimp only
    split
    · rw [UInt8.le_iff_toNat_le, ht]; simp; omega
    · exact tailByte_le _
  · rw [continuation_tailByte, continuation,
      show (v / 4096 % 0x10 * 64 + v / 64 % 64) * 64 + v % 64 = v by omega]

theorem unit_four {v : Nat} (h : 0xffff < v) (h' : v < 0x110000) (rest : List UInt8) :
    unit (UInt8.ofNat (v / 262144 % 0x08 + 0xF0))
        (tailByte (v / 4096) :: tailByte (v / 64) :: tailByte v :: rest)
      = (some (Char.ofNat v), rest) := by
  have ht := toNat_tailByte (v / 4096)
  refine unit_of_lead (leadByte_not_lt (by decide) (by omega)) (lead?_four (by omega)) ?_ ?_ ?_
  · dsimp only
    split
    · rw [UInt8.le_iff_toNat_le, ht]; simp; omega
    · exact le_tailByte _
  · dsimp only
    split
    · rw [UInt8.le_iff_toNat_le, ht]; simp; omega
    · exact tailByte_le _
  · rw [continuation_tailByte, continuation_tailByte, continuation,
      show ((v / 262144 % 0x08 * 64 + v / 4096 % 64) * 64 + v / 64 % 64) * 64 + v % 64 = v
        by omega]

theorem scan_of_unit {a : UInt8} {bs rest : List UInt8} {u : Option Char}
    (h : unit a bs = (u, rest)) : scan (a :: bs) = u :: scan rest := by
  rw [scan]
  split
  next hu =>
    obtain ⟨rfl, rfl⟩ := Prod.mk.inj (hu.symm.trans h)
    rfl

theorem scan_utf8EncodeChar (c : Char) (rest : List UInt8) :
    scan (String.utf8EncodeChar c ++ rest) = some c :: scan rest := by
  have hc : Char.ofNat c.val.toNat = c := Char.ofNat_toNat c
  have hv : c.val.toNat < 0xD800 ∨ 0xDFFF < c.val.toNat ∧ c.val.toNat < 0x110000 := c.valid
  conv_rhs => rw [← hc]
  rw [String.utf8EncodeChar]
  split
  next h1 => exact scan_of_unit (unit_one h1 rest)
  next h1 =>
    split
    next h2 => exact scan_of_unit (unit_two (by omega) h2 rest)
    next h2 =>
      split
      next h3 => exact scan_of_unit (unit_three (by omega) h3 (by omega) rest)
      next h3 => exact scan_of_unit (unit_four (by omega) (by omega) rest)

/-! ## Texts -/

@[simp] theorem encode_append (s t : String) : encode (s ++ t) = encode s ++ encode t := by
  simp [encode]

theorem length_encode (s : String) : (encode s).length = s.utf8ByteSize := by
  unfold encode
  rw [← String.size_toByteArray, ← String.utf8Encode_toList]
  simp [List.utf8Encode]

/-- No character takes more than four bytes. -/
theorem length_encode_le (s : String) : (encode s).length ≤ 4 * s.length := by
  rw [encode, ← String.length_toList]
  induction s.toList with
  | nil => rfl
  | cons c cs ih =>
    have hc := c.utf8Size_le_four
    rw [List.flatMap_cons, List.length_append, String.length_utf8EncodeChar, List.length_cons]
    omega

theorem length_encode_replicate (n : Nat) (c : Char) :
    (encode (String.ofList (List.replicate n c))).length = n * c.utf8Size := by
  simp [encode, List.length_flatMap]

theorem decodeLossy_nil : decodeLossy [] = [] := by
  rw [decodeLossy, scan]
  rfl

theorem decodeLossy_ne_nil {bs : List UInt8} (h : bs ≠ []) : decodeLossy bs ≠ [] := by
  obtain ⟨a, as, rfl⟩ := List.exists_cons_of_ne_nil h
  rw [decodeLossy, scan_of_unit rfl]
  exact List.cons_ne_nil _ _

theorem scan_encode (s : String) (rest : List UInt8) :
    scan (encode s ++ rest) = s.toList.map some ++ scan rest := by
  rw [encode]
  induction s.toList with
  | nil => rfl
  | cons c cs ih => rw [List.flatMap_cons, List.append_assoc, scan_utf8EncodeChar, ih]; rfl

/-- Decoding inverts encoding. -/
theorem decodeLossy_encode (s : String) : decodeLossy (encode s) = s.toList := by
  have h := scan_encode s []
  rw [List.append_nil, scan, List.append_nil] at h
  rw [decodeLossy, h]
  simp

/-! ## ASCII bytes -/

/-- A byte below 0x80 encodes the character of that number and is part of no other character. -/
theorem eq_of_mem_utf8EncodeChar {c : Char} {b : UInt8} (hb : b < 0x80)
    (h : b ∈ String.utf8EncodeChar c) : c = Char.ofNat b.toNat := by
  have hc : Char.ofNat c.val.toNat = c := Char.ofNat_toNat c
  have hv : c.val.toNat < 0xD800 ∨ 0xDFFF < c.val.toNat ∧ c.val.toNat < 0x110000 := c.valid
  have htail (k : Nat) : b ≠ tailByte k := by
    rintro rfl
    exact absurd hb (UInt8.not_lt.2 (le_tailByte k))
  have hlead {k n : Nat} (hn : 0x80 ≤ n) (hk : k + n < 256) : b ≠ UInt8.ofNat (k + n) := by
    rintro rfl
    exact leadByte_not_lt hn hk hb
  rw [String.utf8EncodeChar] at h
  split at h
  next h1 =>
    rw [List.mem_singleton] at h
    rw [h, UInt8.toNat_ofNat', Nat.mod_eq_of_lt (by omega), hc]
  next h1 =>
    split at h
    next h2 =>
      simp only [List.mem_cons, List.not_mem_nil, or_false] at h
      rcases h with h | h
      · exact absurd h (hlead (by decide) (by omega))
      · exact absurd h (htail _)
    next h2 =>
      split at h
      next h3 =>
        simp only [List.mem_cons, List.not_mem_nil, or_false] at h
        rcases h with h | h | h
        · exact absurd h (hlead (by decide) (by omega))
        · exact absurd h (htail _)
        · exact absurd h (htail _)
      next h3 =>
        simp only [List.mem_cons, List.not_mem_nil, or_false] at h
        rcases h with h | h | h | h
        · exact absurd h (hlead (by decide) (by omega))
        · exact absurd h (htail _)
        · exact absurd h (htail _)
        · exact absurd h (htail _)

theorem mem_toList_of_mem_encode {s : String} {b : UInt8} (hb : b < 0x80) (h : b ∈ encode s) :
    Char.ofNat b.toNat ∈ s.toList := by
  obtain ⟨c, hc, hbc⟩ := List.mem_flatMap.1 h
  exact eq_of_mem_utf8EncodeChar hb hbc ▸ hc

/-- The byte at the front of an encoded text tells the first character, if it is an ASCII byte. -/
theorem head?_of_head?_encode {s : String} {b : UInt8} {rest : List UInt8} (hb : b < 0x80)
    (hs : s.toList ≠ []) (h : (encode s ++ rest).head? = some b) :
    s.toList.head? = some (Char.ofNat b.toNat) := by
  obtain ⟨c, cs, hcs⟩ := List.exists_cons_of_ne_nil hs
  obtain ⟨a, as, ha⟩ := List.exists_cons_of_ne_nil (String.utf8EncodeChar_ne_nil (c := c))
  have hab : a = b := by
    simpa [encode, hcs, ha] using h
  have hmem : b ∈ String.utf8EncodeChar c := by
    rw [ha, hab]
    exact List.mem_cons_self
  rw [hcs, List.head?_cons, eq_of_mem_utf8EncodeChar hb hmem]

/-- So does the byte at the end. -/
theorem getLast?_of_getLast?_encode {s : String} {b : UInt8} (hb : b < 0x80)
    (h : (encode s).getLast? = some b) : s.toList.getLast? = some (Char.ofNat b.toNat) := by
  rcases List.eq_nil_or_concat s.toList with hs | ⟨cs, c, hcs⟩
  · simp [encode, hs] at h
  rw [List.concat_eq_append] at hcs
  have hlast := List.getLast?_eq_some_getLast (String.utf8EncodeChar_ne_nil (c := c))
  rw [encode, hcs, List.flatMap_append, List.flatMap_singleton, List.getLast?_append, hlast,
    Option.some_or, ← hlast] at h
  rw [hcs, List.getLast?_append, List.getLast?_singleton, Option.some_or,
    eq_of_mem_utf8EncodeChar hb (List.mem_of_getLast? h)]

/-! ## Decoded characters -/

theorem continuation_suffix (n bits : Nat) (bs : List UInt8) :
    (continuation n bits bs).2 <:+ bs := by
  fun_induction continuation n bits bs with
  | case1 => exact List.suffix_refl _
  | case2 => exact List.suffix_refl _
  | case3 n bits b bs _ ih => exact ih.trans (List.suffix_cons _ _)
  | case4 => exact List.suffix_refl _

theorem unit_suffix (a : UInt8) (bs : List UInt8) : (unit a bs).2 <:+ bs := by
  fun_cases unit a bs with
  | case1 => exact List.suffix_refl _
  | case2 _ l b rest hl hrange value rest' hc =>
    have hrest := continuation_suffix l.more (push l.bits b) rest
    rw [hc] at hrest
    exact hrest.trans (List.suffix_cons _ _)
  | case3 => exact List.suffix_refl _
  | case4 => exact List.suffix_refl _

theorem le_of_continuation {n bits v : Nat} {bs rest : List UInt8}
    (h : continuation n bits bs = (some v, rest)) : bits * 64 ^ n ≤ v := by
  fun_induction continuation n bits bs with
  | case1 bits bs =>
    obtain ⟨hv, -⟩ := Prod.mk.inj h
    rw [Option.some.inj hv, Nat.pow_zero, Nat.mul_one]
  | case2 => cases (Prod.mk.inj h).1
  | case3 n bits b bs _ ih =>
    have hpush : bits * 64 ≤ push bits b := Nat.le_add_right _ _
    calc bits * 64 ^ (n + 1)
      _ = bits * 64 * 64 ^ n := by rw [Nat.pow_succ', Nat.mul_assoc]
      _ ≤ push bits b * 64 ^ n := Nat.mul_le_mul_right _ hpush
      _ ≤ v := ih h
  | case4 => cases (Prod.mk.inj h).1

/-- A sequence of several bytes stands for no ASCII character. -/
theorem le_of_lead {a b : UInt8} {l : Lead} (hl : lead? a = some l) (hlow : l.low ≤ b)
    (hhigh : b ≤ l.high) : 0x80 ≤ push l.bits b * 64 ^ l.more := by
  rw [UInt8.le_iff_toNat_le] at hlow hhigh
  unfold lead? at hl
  unfold push
  generalize a.toNat = n at hl
  dsimp only at hl
  repeat' split at hl
  all_goals first
    | obtain rfl := Option.some.inj hl
      simp only [UInt8.reduceToNat, Nat.reducePow] at hlow hhigh ⊢
      omega
    | cases hl

theorem toNat_ofNat {n : Nat} (h : n.isValidChar) : (Char.ofNat n).toNat = n := by
  rw [Char.toNat_ofNat, if_pos h]

theorem eq_of_ofNat_eq {m n : Nat} (hn : 0 < n ∧ n < 0x80) (h : Char.ofNat m = Char.ofNat n) :
    m = n := by
  have hm : (Char.ofNat m).toNat = n := h ▸ toNat_ofNat (.inl (by omega))
  rw [Char.toNat_ofNat] at hm
  split at hm
  · exact hm
  · exact absurd hm.symm (Nat.ne_of_gt hn.1)

theorem eq_of_unit {a b : UInt8} (hb : 0 < b.toNat ∧ b.toNat < 0x80) {bs rest : List UInt8}
    {u : Option Char} (hu : unit a bs = (u, rest))
    (hc : Char.ofNat b.toNat = u.getD (Char.ofNat 0xFFFD)) : a = b := by
  have hnone : u ≠ none := by
    rintro rfl
    have hmalformed : 0xFFFD = b.toNat := eq_of_ofNat_eq hb hc.symm
    omega
  unfold unit at hu
  split at hu
  next =>
    obtain ⟨rfl, -⟩ := Prod.mk.inj hu
    exact UInt8.toNat_inj.1 (eq_of_ofNat_eq hb hc.symm)
  next =>
    split at hu
    next l d after hl =>
      split at hu
      next hrange =>
        dsimp only at hu
        obtain ⟨hvalue, -⟩ := Prod.mk.inj hu
        obtain ⟨c, rfl⟩ := Option.ne_none_iff_exists'.1 hnone
        obtain ⟨v, hv, rfl⟩ := Option.map_eq_some_iff.1 hvalue
        have hle := le_of_continuation (Prod.ext hv rfl)
        have hlead := le_of_lead hl hrange.1 hrange.2
        have hvb : v = b.toNat := eq_of_ofNat_eq hb hc.symm
        omega
      next => exact absurd (Prod.mk.inj hu).1.symm hnone
    next => exact absurd (Prod.mk.inj hu).1.symm hnone

/-- An ASCII character other than the null character is decoded from its own byte alone. -/
theorem mem_of_mem_decodeLossy {b : UInt8} (hb : 0 < b.toNat ∧ b.toNat < 0x80) {bs : List UInt8}
    (h : Char.ofNat b.toNat ∈ decodeLossy bs) : b ∈ bs := by
  unfold decodeLossy at h
  fun_induction scan bs with
  | case1 => exact absurd h List.not_mem_nil
  | case2 a bs u rest hu ih =>
    rw [List.map_cons] at h
    rcases List.mem_cons.1 h with hfirst | hrest
    · rw [eq_of_unit hb hu hfirst]
      exact List.mem_cons_self
    · have hsuffix := unit_suffix a bs
      rw [hu] at hsuffix
      exact List.mem_cons_of_mem _ (hsuffix.subset (ih hrest))

/-- So the character at the end tells the byte at the end. -/
theorem getLast?_of_getLast?_decodeLossy {b : UInt8} (hb : 0 < b.toNat ∧ b.toNat < 0x80)
    {bs : List UInt8} (h : (decodeLossy bs).getLast? = some (Char.ofNat b.toNat)) :
    bs.getLast? = some b := by
  unfold decodeLossy at h
  fun_induction scan bs with
  | case1 => cases h
  | case2 a bs u rest hu ih =>
    rw [List.map_cons, List.getLast?_cons] at h
    cases hrest : ((scan rest).map (·.getD (Char.ofNat 0xFFFD))).getLast? with
    | some c =>
      rw [hrest] at h
      have hlast := ih (hrest.trans h)
      obtain ⟨before, hbefore⟩ := unit_suffix a bs
      rw [hu] at hbefore
      rw [← hbefore, List.getLast?_cons, List.getLast?_append, hlast]
      rfl
    | none =>
      rw [hrest] at h
      -- The last unit stands for an ASCII character, so it is that byte alone.
      obtain rfl := eq_of_unit hb hu (Option.some.inj h).symm
      have hascii : unit a bs = (some (Char.ofNat a.toNat), bs) :=
        if_pos (UInt8.lt_iff_toNat_lt.2 hb.2)
      obtain ⟨-, rfl⟩ := Prod.mk.inj (hascii.symm.trans hu)
      cases bs with
      | nil => rfl
      | cons d ds =>
        rw [scan_of_unit rfl] at hrest
        simp at hrest

/-! ## Decoding in parts

An ASCII byte ends whatever sequence stands in front of it, so what stands on its two sides is
decoded separately. -/

theorem le_low_of_lead {a : UInt8} {l : Lead} (h : lead? a = some l) : 0x80 ≤ l.low := by
  unfold lead? at h
  dsimp only at h
  repeat' split at h
  all_goals first
    | obtain rfl := Option.some.inj h
      dsimp only
      decide
    | cases h

theorem continuation_append_ascii {b : UInt8} (hb : b < 0x80) (ys : List UInt8) (n bits : Nat)
    (bs : List UInt8) :
    continuation n bits (bs ++ b :: ys)
      = ((continuation n bits bs).1, (continuation n bits bs).2 ++ b :: ys) := by
  fun_induction continuation n bits bs with
  | case1 bits bs => rw [continuation]
  | case2 n bits =>
    have hrange : ¬(0x80 ≤ b ∧ b ≤ 0xBF) := fun h => absurd hb (UInt8.not_lt.2 h.1)
    rw [List.nil_append, continuation, if_neg hrange]
  | case3 n bits d bs hd ih => rw [List.cons_append, continuation, if_pos hd, ih]
  | case4 n bits d bs hd => rw [List.cons_append, continuation, if_neg hd]

theorem unit_append_ascii {b : UInt8} (hb : b < 0x80) (ys : List UInt8) (a : UInt8)
    (bs : List UInt8) : unit a (bs ++ b :: ys) = ((unit a bs).1, (unit a bs).2 ++ b :: ys) := by
  by_cases ha : a < 0x80
  · simp only [unit, if_pos ha]
  · simp only [unit, if_neg ha]
    cases hl : lead? a with
    | none => rfl
    | some l =>
      cases bs with
      | nil =>
        have hrange : ¬(l.low ≤ b ∧ b ≤ l.high) := fun h =>
          absurd hb (UInt8.not_lt.2 (UInt8.le_trans (le_low_of_lead hl) h.1))
        simp only [List.nil_append, if_neg hrange]
      | cons d bs =>
        simp only [List.cons_append, continuation_append_ascii hb]
        split <;> rfl

theorem scan_append_ascii {b : UInt8} (hb : b < 0x80) (xs ys : List UInt8) :
    scan (xs ++ b :: ys) = scan xs ++ some (Char.ofNat b.toNat) :: scan ys := by
  fun_induction scan xs with
  | case1 => exact scan_of_unit (if_pos hb)
  | case2 a bs u rest hu ih =>
    have hunit := unit_append_ascii hb ys a bs
    rw [hu] at hunit
    rw [List.cons_append, scan_of_unit hunit, ih, List.cons_append]

theorem decodeLossy_append_ascii {b : UInt8} (hb : b < 0x80) (xs ys : List UInt8) :
    decodeLossy (xs ++ b :: ys) = decodeLossy xs ++ Char.ofNat b.toNat :: decodeLossy ys := by
  rw [decodeLossy, scan_append_ascii hb, List.map_append]
  rfl

/-! ## Well-formed bytes

The strict decoder accepts the encodings of texts and no other bytes. -/

theorem utf8EncodeChar_one {v : Nat} (h : v ≤ 0x7f) :
    String.utf8EncodeChar (Char.ofNat v) = [UInt8.ofNat v] := by
  have hv : (Char.ofNat v).val.toNat = v := toNat_ofNat (.inl (by omega))
  rw [String.utf8EncodeChar, hv, if_pos h]

theorem utf8EncodeChar_two {v : Nat} (h : 0x7f < v) (h' : v ≤ 0x7ff) :
    String.utf8EncodeChar (Char.ofNat v) = [UInt8.ofNat (v / 64 % 0x20 + 0xC0), tailByte v] := by
  have hv : (Char.ofNat v).val.toNat = v := toNat_ofNat (.inl (by omega))
  rw [String.utf8EncodeChar, hv, if_neg (by omega), if_pos h']
  rfl

theorem utf8EncodeChar_three {v : Nat} (h : 0x7ff < v) (h' : v ≤ 0xffff)
    (hs : v < 0xD800 ∨ 0xDFFF < v) :
    String.utf8EncodeChar (Char.ofNat v)
      = [UInt8.ofNat (v / 4096 % 0x10 + 0xE0), tailByte (v / 64), tailByte v] := by
  have hvalid : v.isValidChar := hs.imp_right fun hlt => ⟨hlt, by omega⟩
  have hv : (Char.ofNat v).val.toNat = v := toNat_ofNat hvalid
  rw [String.utf8EncodeChar, hv, if_neg (by omega), if_neg (by omega), if_pos h']
  rfl

theorem utf8EncodeChar_four {v : Nat} (h : 0xffff < v) (h' : v < 0x110000) :
    String.utf8EncodeChar (Char.ofNat v)
      = [UInt8.ofNat (v / 262144 % 0x08 + 0xF0), tailByte (v / 4096), tailByte (v / 64),
        tailByte v] := by
  have hv : (Char.ofNat v).val.toNat = v := toNat_ofNat (.inr ⟨by omega, h'⟩)
  rw [String.utf8EncodeChar, hv, if_neg (by omega), if_neg (by omega), if_neg (by omega)]
  rfl

/-- A continuation byte is found again in the bits that it was appended to. -/
theorem tailByte_push {b : UInt8} (h : 0x80 ≤ b ∧ b ≤ 0xBF) (bits : Nat) :
    tailByte (push bits b) = b ∧ push bits b / 64 = bits := by
  simp only [UInt8.le_iff_toNat_le, UInt8.reduceToNat] at h
  constructor
  · apply UInt8.toNat_inj.1
    rw [toNat_tailByte, push]
    omega
  · rw [push]
    omega

theorem bytes_of_continuation {n bits v : Nat} {bs rest : List UInt8}
    (h : continuation n bits bs = (some v, rest)) :
    ∃ tail, tail.length = n ∧ bs = tail ++ rest ∧ (∀ b ∈ tail, 0x80 ≤ b ∧ b ≤ 0xBF)
      ∧ v = tail.foldl push bits := by
  fun_induction continuation n bits bs with
  | case1 bits bs =>
    obtain ⟨hv, rfl⟩ := Prod.mk.inj h
    exact ⟨[], rfl, rfl, by simp, (Option.some.inj hv).symm⟩
  | case2 => cases (Prod.mk.inj h).1
  | case3 n bits b bs hb ih =>
    obtain ⟨tail, rfl, rfl, htail, hv⟩ := ih h
    exact ⟨b :: tail, rfl, rfl, List.forall_mem_cons.2 ⟨hb, htail⟩, hv⟩
  | case4 => cases (Prod.mk.inj h).1

/-- What a lead byte and the byte behind it say together, by the number of bytes that follow. -/
theorem lead_cases {a b : UInt8} {l : Lead} (hl : lead? a = some l) (hlow : l.low ≤ b)
    (hhigh : b ≤ l.high) :
    (0x80 ≤ b ∧ b ≤ 0xBF)
      ∧ (l.more = 0 ∧ a.toNat = l.bits + 0xC0 ∧ 2 ≤ l.bits ∧ l.bits < 32
        ∨ l.more = 1 ∧ a.toNat = l.bits + 0xE0 ∧ l.bits < 16 ∧ 0x20 ≤ push l.bits b
          ∧ (push l.bits b < 0x360 ∨ 0x37F < push l.bits b)
        ∨ l.more = 2 ∧ a.toNat = l.bits + 0xF0 ∧ 0x10 ≤ push l.bits b
          ∧ push l.bits b < 0x110) := by
  simp only [UInt8.le_iff_toNat_le] at hlow hhigh ⊢
  unfold lead? at hl
  unfold push
  generalize a.toNat = n at hl
  dsimp only at hl
  repeat' split at hl
  all_goals first
    | obtain rfl := Option.some.inj hl
      simp only [UInt8.reduceToNat, true_and] at hlow hhigh ⊢
      omega
    | cases hl

/-- The character of a sequence of several bytes is encoded by that sequence. -/
theorem utf8EncodeChar_of_lead {a b : UInt8} {l : Lead} {tail : List UInt8}
    (hb : 0x80 ≤ b ∧ b ≤ 0xBF) (htail : ∀ d ∈ tail, 0x80 ≤ d ∧ d ≤ 0xBF)
    (hlead : tail.length = 0 ∧ a.toNat = l.bits + 0xC0 ∧ 2 ≤ l.bits ∧ l.bits < 32
      ∨ tail.length = 1 ∧ a.toNat = l.bits + 0xE0 ∧ l.bits < 16 ∧ 0x20 ≤ push l.bits b
        ∧ (push l.bits b < 0x360 ∨ 0x37F < push l.bits b)
      ∨ tail.length = 2 ∧ a.toNat = l.bits + 0xF0 ∧ 0x10 ≤ push l.bits b
        ∧ push l.bits b < 0x110) :
    String.utf8EncodeChar (Char.ofNat (tail.foldl push (push l.bits b))) = a :: b :: tail := by
  obtain ⟨htb, hdb⟩ := tailByte_push hb l.bits
  have hfirst : ∀ k, k = a.toNat → UInt8.ofNat k = a := by
    rintro _ rfl
    exact UInt8.ofNat_toNat
  match tail, htail, hlead with
  | [], _, .inl ⟨_, ha, hlow, hhigh⟩ =>
    rw [List.foldl_nil, utf8EncodeChar_two (by omega) (by omega), htb, hfirst _ (by omega)]
  | [d], htail, .inr (.inl ⟨_, ha, hbits, hlow, hsurrogate⟩) =>
    obtain ⟨htd, hdd⟩ := tailByte_push (htail d (by simp)) (push l.bits b)
    rw [List.foldl_cons, List.foldl_nil,
      utf8EncodeChar_three (by omega) (by omega) (by omega), htd, hdd, htb, hfirst _ (by omega)]
  | [d, e], htail, .inr (.inr ⟨_, ha, hlow, hhigh⟩) =>
    obtain ⟨htd, hdd⟩ := tailByte_push (htail d (by simp)) (push l.bits b)
    obtain ⟨hte, hde⟩ := tailByte_push (htail e (by simp)) (push (push l.bits b) d)
    have hdiv : push (push (push l.bits b) d) e / 4096 = push l.bits b := by omega
    rw [List.foldl_cons, List.foldl_cons, List.foldl_nil,
      utf8EncodeChar_four (by omega) (by omega), hte, hde, htd, hdiv, htb, hfirst _ (by omega)]

/-- A character is encoded by the bytes that it was read from. -/
theorem utf8EncodeChar_of_unit {a : UInt8} {bs rest : List UInt8} {c : Char}
    (h : unit a bs = (some c, rest)) : String.utf8EncodeChar c ++ rest = a :: bs := by
  unfold unit at h
  split at h
  next hascii =>
    obtain ⟨hc, rfl⟩ := Prod.mk.inj h
    rw [UInt8.lt_iff_toNat_lt] at hascii
    rw [← Option.some.inj hc, utf8EncodeChar_one (Nat.le_of_lt_succ hascii), UInt8.ofNat_toNat]
    rfl
  next =>
    split at h
    next l b after hl =>
      split at h
      next hrange =>
        dsimp only at h
        obtain ⟨hvalue, rfl⟩ := Prod.mk.inj h
        obtain ⟨v, hv, rfl⟩ := Option.map_eq_some_iff.1 hvalue
        obtain ⟨tail, hlength, hafter, htail, rfl⟩ := bytes_of_continuation (Prod.ext hv rfl)
        obtain ⟨hb, hcases⟩ := lead_cases hl hrange.1 hrange.2
        rw [← hlength] at hcases
        rw [utf8EncodeChar_of_lead hb htail hcases, List.cons_append, List.cons_append, ← hafter]
      next => cases (Prod.mk.inj h).1
    next => cases (Prod.mk.inj h).1

theorem decode?_encode (s : String) : decode? (encode s) = some s.toList := by
  have hscan := scan_encode s []
  rw [List.append_nil, scan, List.append_nil] at hscan
  rw [decode?, hscan, List.mapM_map]
  exact (List.mapM_pure (m := Option) (f := id)).trans (by rw [List.map_id]; rfl)

/-- What is decoded was encoded. -/
theorem eq_encode_of_decode? {bs : List UInt8} {cs : List Char} (h : decode? bs = some cs) :
    bs = encode (String.ofList cs) := by
  unfold decode? at h
  rw [encode, String.toList_ofList]
  fun_induction scan bs generalizing cs with
  | case1 =>
    obtain rfl := Option.some.inj h
    rfl
  | case2 a bs u rest hu ih =>
    rw [List.mapM_cons] at h
    obtain ⟨c, rfl, hrest⟩ := Option.bind_eq_some_iff.1 h
    obtain ⟨later, hlater, hcs⟩ := Option.bind_eq_some_iff.1 hrest
    obtain rfl := Option.some.inj hcs
    rw [List.flatMap_cons, ← ih hlater, utf8EncodeChar_of_unit hu]

end Rtsp.Text.Utf8
