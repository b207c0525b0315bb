-- SUMMARY: RTP packets and their wire form.
import Rtsp.Bytes
import Rtsp.Error

/-!
# RTP packets

A datagram is a fixed header of twelve bytes, contributing sources of four bytes each, an optional
header extension of whole words, the payload, and optional padding whose last byte is the number
of padding bytes. A datagram that is too short for what it declares is no packet.
-/

namespace Rtsp

structure RtpPacket where
  marker : Bool
  payloadType : UInt8
  sequence : UInt16
  timestamp : UInt32
  ssrc : UInt32
  /-- The contributing sources, at most fifteen. -/
  csrcs : List UInt32 := []
  /-- The identifier of the header extension and its words. -/
  extension : Option (UInt16 × Bytes) := none
  payload : Bytes
  /-- The padding bytes, if the packet is marked as padded. -/
  padding : Option Bytes := none
  deriving DecidableEq, Repr

namespace RtpPacket

-- ---------------------------------------------------------------------------
-- Reading
-- ---------------------------------------------------------------------------

/-- `n` words, and the bytes after them. -/
def readWords? : Nat → Bytes → Option (List UInt32 × Bytes)
  | 0, bs => some ([], bs)
  | n + 1, a :: b :: c :: d :: bs => do
    let (words, rest) ← readWords? n bs
    some (ofBe32 a b c d :: words, rest)
  | _ + 1, _ => none

/-- Identifier, length in words, and the words themselves. -/
def readExtension? : Bytes → Option ((UInt16 × Bytes) × Bytes)
  | i1 :: i0 :: n1 :: n0 :: bs =>
    let size := 4 * (ofBe16 n1 n0).toNat
    let words := bs.take size
    if words.length = size then some ((ofBe16 i1 i0, words), bs.drop size) else none
  | _ => none

/-- Whether the bit of weight `2 ^ i` is set. -/
def bit (b : UInt8) (i : Nat) : Bool :=
  b.toNat.testBit i

def read? (data : Bytes) : Option RtpPacket :=
  match data with
  | flags :: kind :: s1 :: s0 :: t3 :: t2 :: t1 :: t0 :: r3 :: r2 :: r1 :: r0 :: rest =>
    if flags.toNat / 64 ≠ 2 then none
    else do
      let (csrcs, rest) ← readWords? (flags.toNat % 16) rest
      let (extension, rest) ←
        if bit flags 4 then (readExtension? rest).map fun (e, rest) => (some e, rest)
        else some (none, rest)
      let padding := if bit flags 5 then (data.getLast?.getD 0).toNat else 0
      if rest.length < padding then none
      else
        let size := rest.length - padding
        some
          { marker := bit kind 7
            payloadType := UInt8.ofNat (kind.toNat % 128)
            sequence := ofBe16 s1 s0
            timestamp := ofBe32 t3 t2 t1 t0
            ssrc := ofBe32 r3 r2 r1 r0
            csrcs
            extension
            payload := rest.take size
            padding := if bit flags 5 then some (rest.drop size) else none }
  | _ => none

def parse (data : Bytes) : Except Error RtpPacket :=
  match read? data with
  | some p => .ok p
  | none => .error (.parse .rtpPacket)

-- ---------------------------------------------------------------------------
-- Sizes
-- ---------------------------------------------------------------------------

def headerSize (p : RtpPacket) : Nat :=
  12 + 4 * p.csrcs.length

/-- The size of the extension with its own header. -/
def extensionSize (p : RtpPacket) : Nat :=
  match p.extension with
  | some (_, words) => 4 + words.length
  | none => 0

def paddingSize (p : RtpPacket) : Nat :=
  match p.padding with
  | some bytes => bytes.length
  | none => 0

def size (p : RtpPacket) : Nat :=
  p.headerSize + p.extensionSize + p.payload.length + p.paddingSize

-- ---------------------------------------------------------------------------
-- Writing
-- ---------------------------------------------------------------------------

def encodeExtension : Option (UInt16 × Bytes) → Bytes
  | some (id, words) => be16 id ++ be16 (UInt16.ofNat (words.length / 4)) ++ words
  | none => []

def encode (p : RtpPacket) : Bytes :=
  let flags := 128 + (if p.padding.isSome then 32 else 0) + (if p.extension.isSome then 16 else 0)
    + p.csrcs.length
  let kind := (if p.marker then 128 else 0) + p.payloadType.toNat
  UInt8.ofNat flags :: UInt8.ofNat kind ::
    (be16 p.sequence ++ be32 p.timestamp ++ be32 p.ssrc ++ p.csrcs.flatMap be32
      ++ encodeExtension p.extension ++ p.payload ++ p.padding.getD [])

end RtpPacket
end Rtsp
