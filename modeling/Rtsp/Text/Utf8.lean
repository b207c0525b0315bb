-- SUMMARY: UTF-8: encoding, strict decoding, and decoding with replacement characters.

/-!
# UTF-8

`Utf8.scan` reads a byte string as a list of units: a character for each well-formed sequence,
`none` for each maximal piece that begins a sequence but cannot be completed. The strict decoder
refuses a text with such a piece, the lenient one puts U+FFFD in its place.
-/

namespace Rtsp.Text.Utf8

def encode (s : String) : List UInt8 :=
  s.toList.flatMap String.utf8EncodeChar

/-- What a lead byte announces: the value bits it holds itself, the range in which the next byte
must lie, and the number of continuation bytes after that one. -/
structure Lead where
  bits : Nat
  low : UInt8
  high : UInt8
  more : Nat

/-- The lead bytes of sequences of two, three and four bytes. The narrower ranges exclude overlong
forms, surrogates, and values above U+10FFFF. -/
def lead? (a : UInt8) : Option Lead :=
  let n := a.toNat
  if 0xC2 ≤ n ∧ n ≤ 0xDF then some ⟨n - 0xC0, 0x80, 0xBF, 0⟩
  else if n = 0xE0 then some ⟨0, 0xA0, 0xBF, 1⟩
  else if n = 0xED then some ⟨0xD, 0x80, 0x9F, 1⟩
  else if 0xE1 ≤ n ∧ n ≤ 0xEF then some ⟨n - 0xE0, 0x80, 0xBF, 1⟩
  else if n = 0xF0 then some ⟨0, 0x90, 0xBF, 2⟩
  else if 0xF1 ≤ n ∧ n ≤ 0xF3 then some ⟨n - 0xF0, 0x80, 0xBF, 2⟩
  else if n = 0xF4 then some ⟨4, 0x80, 0x8F, 2⟩
  else none

/-- Append the six value bits of a continuation byte. -/
def push (bits : Nat) (b : UInt8) : Nat :=
  bits * 64 + b.toNat % 64

/-- Read `n` continuation bytes, stopping in front of the first byte that is none. -/
def continuation : Nat → Nat → List UInt8 → Option Nat × List UInt8
  | 0, bits, bs => (some bits, bs)
  | _ + 1, _, [] => (none, [])
  | n + 1, bits, b :: bs =>
    if 0x80 ≤ b ∧ b ≤ 0xBF then continuation n (push bits b) bs else (none, b :: bs)

/-- The unit that starts with byte `a`, and the bytes after it. -/
def unit (a : UInt8) (bs : List UInt8) : Option Char × List UInt8 :=
  if a < 0x80 then (some (Char.ofNat a.toNat), bs)
  else
    match lead? a, bs with
    | some l, b :: rest =>
      if l.low ≤ b ∧ b ≤ l.high then
        let (value, rest) := continuation l.more (push l.bits b) rest
        (value.map Char.ofNat, rest)
      else (none, bs)
    | _, _ => (none, bs)

theorem continuation_length_le (n bits : Nat) (bs : List UInt8) :
    (continuation n bits bs).2.length ≤ bs.length := by
  fun_induction continuation n bits bs with
  | case1 => simp
  | case2 => simp
  | case3 n bits b bs _ ih => simp; omega
  | case4 => simp

theorem unit_length_le (a : UInt8) (bs : List UInt8) : (unit a bs).2.length ≤ bs.length := by
  fun_cases unit a bs with
  | case1 => simp
  | case2 h l b rest _ _ value rest' hc =>
    have := continuation_length_le l.more (push l.bits b) rest
    simp_all; omega
  | case3 => simp
  | case4 => simp

/-- The units of a byte string, in order. -/
def scan : List UInt8 → List (Option Char)
  | [] => []
  | a :: bs =>
    match _h : unit a bs with
    | (u, rest) => u :: scan rest
termination_by bs => bs.length
decreasing_by
  have := unit_length_le a bs
  simp [_h] at this
  simp; omega

/-- Decode with one U+FFFD for each malformed unit. -/
def decodeLossy (bs : List UInt8) : List Char :=
  (scan bs).map (·.getD (Char.ofNat 0xFFFD))

/-- Decode a well-formed byte string. -/
def decode? (bs : List UInt8) : Option (List Char) :=
  (scan bs).mapM id

end Rtsp.Text.Utf8
