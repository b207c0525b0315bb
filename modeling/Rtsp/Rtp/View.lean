-- SUMMARY: A datagram read in place, where every access is checked.
import Rtsp.Rtp.Packet

/-!
# Views

A view leaves the bytes of a datagram where they are and finds each part of the packet by its
offset. Whoever makes a view checks every declared size first. Nothing is checked again afterwards,
so a byte or a range outside the datagram would be a fault, and a size below zero would be one too.
-/

namespace Rtsp

/-- What goes wrong where a part is looked for in the wrong place. -/
inductive Fault where
  | outOfBounds
  | underflow
  deriving DecidableEq, Repr

structure RtpView where
  data : Bytes
  /-- The size of the header extension with its own four bytes, zero if there is none. -/
  extensionSize : Nat
  paddingSize : Nat
  deriving DecidableEq, Repr

namespace RtpView

-- ---------------------------------------------------------------------------
-- Access by offset
-- ---------------------------------------------------------------------------

def byteAt (data : Bytes) (offset : Nat) : Except Fault UInt8 :=
  match data[offset]? with
  | some b => .ok b
  | none => .error .outOfBounds

def word16At (data : Bytes) (offset : Nat) : Except Fault UInt16 := do
  let hi ← byteAt data offset
  let lo ← byteAt data (offset + 1)
  return ofBe16 hi lo

def word32At (data : Bytes) (offset : Nat) : Except Fault UInt32 := do
  let a ← byteAt data offset
  let b ← byteAt data (offset + 1)
  let c ← byteAt data (offset + 2)
  let d ← byteAt data (offset + 3)
  return ofBe32 a b c d

/-- The bytes from `start` up to, but not with, `stop`. -/
def slice (data : Bytes) (start stop : Nat) : Except Fault Bytes :=
  if start ≤ stop ∧ stop ≤ data.length then .ok ((data.take stop).drop start)
  else .error .outOfBounds

def minus (a b : Nat) : Except Fault Nat :=
  if b ≤ a then .ok (a - b) else .error .underflow

-- ---------------------------------------------------------------------------
-- Making a view
-- ---------------------------------------------------------------------------

/-- The size that the header extension declares, `none` if its length is not in the datagram. -/
def declaredExtension (data : Bytes) (flags : UInt8) (headerSize : Nat) :
    Except Fault (Option Nat) :=
  if RtpPacket.bit flags 4 then
    if data.length < headerSize + 4 then .ok none
    else do
      let words ← word16At data (headerSize + 2)
      return some (4 * (words.toNat + 1))
  else .ok (some 0)

/-- The number of padding bytes is the last byte of the datagram. -/
def declaredPadding (data : Bytes) (flags : UInt8) : Except Fault Nat :=
  if RtpPacket.bit flags 5 then do
    let last ← minus data.length 1
    let count ← byteAt data last
    return count.toNat
  else .ok 0

def read? (data : Bytes) : Except Fault (Option RtpView) :=
  if data.length < 12 then .ok none
  else do
    let flags ← byteAt data 0
    let headerSize := 12 + 4 * (flags.toNat % 16)
    if flags.toNat / 64 ≠ 2 ∨ data.length < headerSize then return none
    else match ← declaredExtension data flags headerSize with
      | none => return none
      | some extensionSize =>
        let paddingSize ← declaredPadding data flags
        if data.length < headerSize + extensionSize + paddingSize then return none
        else return some { data, extensionSize, paddingSize }

def parse (data : Bytes) : Except Fault (Except Error RtpView) := do
  match ← read? data with
  | some v => return .ok v
  | none => return .error (.parse .rtpPacket)

-- ---------------------------------------------------------------------------
-- Fields
-- ---------------------------------------------------------------------------

variable (v : RtpView)

def flags : Except Fault UInt8 :=
  byteAt v.data 0

def version : Except Fault Nat :=
  v.flags.map (·.toNat / 64)

def hasPadding : Except Fault Bool :=
  v.flags.map (RtpPacket.bit · 5)

def hasExtension : Except Fault Bool :=
  v.flags.map (RtpPacket.bit · 4)

def csrcCount : Except Fault Nat :=
  v.flags.map (·.toNat % 16)

def marker : Except Fault Bool :=
  (byteAt v.data 1).map (RtpPacket.bit · 7)

def payloadType : Except Fault UInt8 :=
  (byteAt v.data 1).map fun kind => UInt8.ofNat (kind.toNat % 128)

def sequence : Except Fault UInt16 :=
  word16At v.data 2

def timestamp : Except Fault UInt32 :=
  word32At v.data 4

def ssrc : Except Fault UInt32 :=
  word32At v.data 8

/-- The contributing source with this index, if there are that many. -/
def csrc (index : Nat) : Except Fault (Option UInt32) := do
  if (← v.csrcCount) ≤ index then return none
  else
    let source ← word32At v.data (12 + 4 * index)
    return some source

-- ---------------------------------------------------------------------------
-- Parts
-- ---------------------------------------------------------------------------

def headerSize : Except Fault Nat :=
  v.csrcCount.map (12 + 4 * ·)

def payloadSize : Except Fault Nat := do
  let size ← minus v.data.length (← v.headerSize)
  let size ← minus size v.extensionSize
  minus size v.paddingSize

/-- The bytes after the extension and before the padding. -/
def payload : Except Fault Bytes := do
  let start := (← v.headerSize) + v.extensionSize
  let stop ← minus v.data.length v.paddingSize
  slice v.data start stop

/-- The identifier of the header extension and its words. -/
def extension : Except Fault (Option (UInt16 × Bytes)) := do
  if ← v.hasExtension then
    let start ← v.headerSize
    let id ← word16At v.data start
    let words ← slice v.data (start + 4) (start + v.extensionSize)
    return some (id, words)
  else return none

end RtpView
end Rtsp
