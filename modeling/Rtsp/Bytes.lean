-- SUMMARY: Byte strings and big-endian fields.

/-!
# Byte strings

A byte string is a list of bytes. Fields of two and four bytes are big-endian everywhere in this
library, and reading a field inverts writing it.
-/

namespace Rtsp

abbrev Bytes := List UInt8

/-- The two bytes of `n`, high byte first. -/
def be16 (n : UInt16) : Bytes :=
  [UInt8.ofNat (n.toNat / 256), UInt8.ofNat n.toNat]

/-- The four bytes of `n`, high byte first. -/
def be32 (n : UInt32) : Bytes :=
  [UInt8.ofNat (n.toNat / 16777216), UInt8.ofNat (n.toNat / 65536), UInt8.ofNat (n.toNat / 256),
    UInt8.ofNat n.toNat]

/-- The number that two bytes hold, high byte first. -/
def ofBe16 (hi lo : UInt8) : UInt16 :=
  UInt16.ofNat (hi.toNat * 256 + lo.toNat)

/-- The number that four bytes hold, high byte first. -/
def ofBe32 (a b c d : UInt8) : UInt32 :=
  UInt32.ofNat (((a.toNat * 256 + b.toNat) * 256 + c.toNat) * 256 + d.toNat)

theorem ofBe16_be16 (n : UInt16) :
    ofBe16 (UInt8.ofNat (n.toNat / 256)) (UInt8.ofNat n.toNat) = n := by
  have := n.toNat_lt
  apply UInt16.toNat_inj.1
  simp [ofBe16]
  omega

/-- A size that fits into two bytes is read back. -/
theorem toNat_ofBe16_be16 {n : Nat} (h : n ≤ 65535) :
    (ofBe16 (UInt8.ofNat ((UInt16.ofNat n).toNat / 256)) (UInt8.ofNat (UInt16.ofNat n).toNat)).toNat
      = n := by
  rw [ofBe16_be16, UInt16.toNat_ofNat', Nat.mod_eq_of_lt (Nat.lt_succ_of_le h)]

theorem ofBe32_be32 (n : UInt32) :
    ofBe32 (UInt8.ofNat (n.toNat / 16777216)) (UInt8.ofNat (n.toNat / 65536))
      (UInt8.ofNat (n.toNat / 256)) (UInt8.ofNat n.toNat) = n := by
  have := n.toNat_lt
  apply UInt32.toNat_inj.1
  simp [ofBe32]
  omega

theorem toNat_ofBe16 (hi lo : UInt8) : (ofBe16 hi lo).toNat = hi.toNat * 256 + lo.toNat := by
  have hhi := hi.toNat_lt
  have hlo := lo.toNat_lt
  simp only [ofBe16, UInt16.toNat_ofNat']
  omega

theorem be16_ofBe16 (hi lo : UInt8) : be16 (ofBe16 hi lo) = [hi, lo] := by
  have hhi := hi.toNat_lt
  have hlo := lo.toNat_lt
  have hn := toNat_ofBe16 hi lo
  have hfirst : UInt8.ofNat ((ofBe16 hi lo).toNat / 256) = hi := by
    apply UInt8.toNat_inj.1
    rw [hn, UInt8.toNat_ofNat']
    omega
  have hsecond : UInt8.ofNat (ofBe16 hi lo).toNat = lo := by
    apply UInt8.toNat_inj.1
    rw [hn, UInt8.toNat_ofNat']
    omega
  rw [be16, hfirst, hsecond]

theorem be32_ofBe32 (a b c d : UInt8) : be32 (ofBe32 a b c d) = [a, b, c, d] := by
  have ha := a.toNat_lt
  have hb := b.toNat_lt
  have hc := c.toNat_lt
  have hd := d.toNat_lt
  have hn : (ofBe32 a b c d).toNat
      = ((a.toNat * 256 + b.toNat) * 256 + c.toNat) * 256 + d.toNat := by
    simp only [ofBe32, UInt32.toNat_ofNat']
    omega
  simp only [be32, hn, List.cons.injEq, and_true]
  refine ⟨?_, ?_, ?_, ?_⟩ <;> apply UInt8.toNat_inj.1 <;> rw [UInt8.toNat_ofNat'] <;> omega

end Rtsp
