-- SUMMARY: The MD5 message digest.
import Rtsp.Bytes
import Rtsp.Text.Numeral

/-!
# MD5

The digest that Digest authentication hashes with. A message is padded to whole blocks of 64
bytes; each block is folded into a state of four 32-bit words by 64 steps.
-/

namespace Rtsp.Md5

/-- The four chaining words. -/
structure State where
  a : UInt32
  b : UInt32
  c : UInt32
  d : UInt32

def State.start : State :=
  ⟨0x67452301, 0xefcdab89, 0x98badcfe, 0x10325476⟩

/-- The rotation distances: four per group of sixteen steps, used in turn. -/
def rotations : Array UInt32 :=
  #[7, 12, 17, 22, 5, 9, 14, 20, 4, 11, 16, 23, 6, 10, 15, 21]

/-- The additive constants: the integer part of 2^32 times the absolute sine of the step. -/
def sines : Array UInt32 :=
  #[0xd76aa478, 0xe8c7b756, 0x242070db, 0xc1bdceee, 0xf57c0faf, 0x4787c62a, 0xa8304613, 0xfd469501,
    0x698098d8, 0x8b44f7af, 0xffff5bb1, 0x895cd7be, 0x6b901122, 0xfd987193, 0xa679438e, 0x49b40821,
    0xf61e2562, 0xc040b340, 0x265e5a51, 0xe9b6c7aa, 0xd62f105d, 0x02441453, 0xd8a1e681, 0xe7d3fbc8,
    0x21e1cde6, 0xc33707d6, 0xf4d50d87, 0x455a14ed, 0xa9e3e905, 0xfcefa3f8, 0x676f02d9, 0x8d2a4c8a,
    0xfffa3942, 0x8771f681, 0x6d9d6122, 0xfde5380c, 0xa4beea44, 0x4bdecfa9, 0xf6bb4b60, 0xbebfbc70,
    0x289b7ec6, 0xeaa127fa, 0xd4ef3085, 0x04881d05, 0xd9d4d039, 0xe6db99e5, 0x1fa27cf8, 0xc4ac5665,
    0xf4292244, 0x432aff97, 0xab9423a7, 0xfc93a039, 0x655b59c3, 0x8f0ccc92, 0xffeff47d, 0x85845dd1,
    0x6fa87e4f, 0xfe2ce6e0, 0xa3014314, 0x4e0811a1, 0xf7537e82, 0xbd3af235, 0x2ad7d2bb, 0xeb86d391]

def rotateLeft (w n : UInt32) : UInt32 :=
  (w <<< n) ||| (w >>> (32 - n))

/-- The message word that step `i` uses. -/
def wordIndex (i : Nat) : Nat :=
  match i / 16 with
  | 0 => i
  | 1 => (5 * i + 1) % 16
  | 2 => (3 * i + 5) % 16
  | _ => 7 * i % 16

/-- The mixing function of step `i`. -/
def mix (i : Nat) (s : State) : UInt32 :=
  match i / 16 with
  | 0 => (s.b &&& s.c) ||| (~~~s.b &&& s.d)
  | 1 => (s.d &&& s.b) ||| (~~~s.d &&& s.c)
  | 2 => s.b ^^^ s.c ^^^ s.d
  | _ => s.c ^^^ (s.b ||| ~~~s.d)

def step (words : Array UInt32) (s : State) (i : Nat) : State :=
  let sum := s.a + mix i s + sines.getD i 0 + words.getD (wordIndex i) 0
  let turn := rotations.getD (i / 16 * 4 + i % 4) 0
  ⟨s.d, s.b + rotateLeft sum turn, s.b, s.c⟩

/-- The little-endian words of a block. -/
def blockWords : Bytes → List UInt32
  | a :: b :: c :: d :: rest => ofBe32 d c b a :: blockWords rest
  | _ => []

def State.absorb (s : State) (block : Bytes) : State :=
  let t := (List.range 64).foldl (step (blockWords block).toArray) s
  ⟨s.a + t.a, s.b + t.b, s.c + t.c, s.d + t.d⟩

/-- The low `n` bytes of a number, low byte first. -/
def littleEndian : Nat → Nat → Bytes
  | 0, _ => []
  | n + 1, v => UInt8.ofNat v :: littleEndian n (v / 256)

/-- The message with its padding: a one bit, zeros up to eight bytes short of a whole block, and
the length in bits. -/
def pad (m : Bytes) : Bytes :=
  m ++ 0x80 :: List.replicate ((119 - m.length % 64) % 64) 0 ++ littleEndian 8 (8 * m.length)

/-- Absorb `n` blocks. -/
def absorbBlocks : Nat → State → Bytes → State
  | 0, s, _ => s
  | n + 1, s, bs => absorbBlocks n (s.absorb (bs.take 64)) (bs.drop 64)

/-- The sixteen bytes of the digest. -/
def digest (m : Bytes) : Bytes :=
  let padded := pad m
  let s := absorbBlocks (padded.length / 64) .start padded
  [s.a, s.b, s.c, s.d].flatMap fun w => littleEndian 4 w.toNat

/-- The digest as 32 lower-case hexadecimal digits. -/
def hexDigest (m : Bytes) : String :=
  String.join ((digest m).map fun b => Text.hex 2 b.toNat)

end Rtsp.Md5
