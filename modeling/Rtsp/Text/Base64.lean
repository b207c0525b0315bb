-- SUMMARY: Base64 with the standard alphabet and mandatory padding.
import Rtsp.Bytes

/-!
# Base64

Three bytes are written as four symbols of six bits each; a last group of one or two bytes is
padded with `=`. The decoder is strict: padding must be present and complete, stands only at the
end, and the bits that no byte uses must be zero. So it accepts exactly what the encoder writes.
-/

namespace Rtsp.Text.Base64

/-- The symbol for a value below 64. -/
def symbol (v : Nat) : Char :=
  if v < 26 then Char.ofNat ('A'.toNat + v)
  else if v < 52 then Char.ofNat ('a'.toNat + (v - 26))
  else if v < 62 then Char.ofNat ('0'.toNat + (v - 52))
  else if v = 62 then '+'
  else '/'

/-- The value of a symbol. -/
def value? (c : Char) : Option Nat :=
  if 'A' ≤ c && c ≤ 'Z' then some (c.toNat - 'A'.toNat)
  else if 'a' ≤ c && c ≤ 'z' then some (c.toNat - 'a'.toNat + 26)
  else if '0' ≤ c && c ≤ '9' then some (c.toNat - '0'.toNat + 52)
  else if c == '+' then some 62
  else if c == '/' then some 63
  else none

def encode : Bytes → List Char
  | [] => []
  | [a] =>
    let n := a.toNat * 16
    [symbol (n / 64), symbol (n % 64), '=', '=']
  | [a, b] =>
    let n := (a.toNat * 256 + b.toNat) * 4
    [symbol (n / 4096), symbol (n / 64 % 64), symbol (n % 64), '=']
  | a :: b :: c :: rest =>
    let n := (a.toNat * 256 + b.toNat) * 256 + c.toNat
    symbol (n / 262144) :: symbol (n / 4096 % 64) :: symbol (n / 64 % 64) :: symbol (n % 64)
      :: encode rest

def decode? : List Char → Option Bytes
  | [] => some []
  | [s, t, '=', '='] => do
    let n := (← value? s) * 64 + (← value? t)
    if n % 16 = 0 then some [UInt8.ofNat (n / 16)] else none
  | [s, t, u, '='] => do
    let n := ((← value? s) * 64 + (← value? t)) * 64 + (← value? u)
    if n % 4 = 0 then some [UInt8.ofNat (n / 1024), UInt8.ofNat (n / 4)] else none
  | s :: t :: u :: v :: rest => do
    let n := (((← value? s) * 64 + (← value? t)) * 64 + (← value? u)) * 64 + (← value? v)
    let tail ← decode? rest
    some (UInt8.ofNat (n / 65536) :: UInt8.ofNat (n / 256) :: UInt8.ofNat n :: tail)
  | _ => none

end Rtsp.Text.Base64
