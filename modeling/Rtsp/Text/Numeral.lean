-- SUMMARY: Reading and writing unsigned numbers.
import Rtsp.Text.Blank

/-!
# Numerals

A numeral is a non-empty run of digits, leading zeros allowed, with at most one plus sign in
front. A reader takes the bound that its field has and refuses anything at or above it.
-/

namespace Rtsp.Text

/-- What follows an optional plus sign. -/
def dropPlus : List Char → List Char
  | '+' :: digits => digits
  | digits => digits

/-- The value of a decimal numeral below `bound`. -/
def readDecimal (bound : Nat) (cs : List Char) : Option Nat :=
  let digits := dropPlus cs
  if digits.isEmpty || !digits.all Char.isDigit then none
  else
    let n := Nat.ofDigitChars 10 digits 0
    if n < bound then some n else none

/-- The value of one hexadecimal digit. -/
def hexValue? (c : Char) : Option Nat :=
  if '0' ≤ c && c ≤ '9' then some (c.toNat - '0'.toNat)
  else if 'a' ≤ c && c ≤ 'f' then some (c.toNat - 'a'.toNat + 10)
  else if 'A' ≤ c && c ≤ 'F' then some (c.toNat - 'A'.toNat + 10)
  else none

/-- The value of a hexadecimal numeral below `bound`. -/
def readHex (bound : Nat) (cs : List Char) : Option Nat :=
  match (dropPlus cs).mapM hexValue? with
  | none | some [] => none
  | some values =>
    let n := values.foldl (fun n v => 16 * n + v) 0
    if n < bound then some n else none

def readUInt8 (cs : List Char) : Option UInt8 :=
  (readDecimal UInt8.size cs).map UInt8.ofNat

def readUInt16 (cs : List Char) : Option UInt16 :=
  (readDecimal UInt16.size cs).map UInt16.ofNat

def readUInt32 (cs : List Char) : Option UInt32 :=
  (readDecimal UInt32.size cs).map UInt32.ofNat

/-- Lower-case hexadecimal, padded with zeros to `width` digits. -/
def hex (width n : Nat) : String :=
  String.ofList ((Nat.toDigits 16 n).leftpad width '0')

/-- Upper-case hexadecimal, padded with zeros to `width` digits. -/
def hexUpper (width n : Nat) : String :=
  String.ofList (((Nat.toDigits 16 n).leftpad width '0').map Char.toUpper)

end Rtsp.Text
