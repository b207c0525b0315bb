-- SUMMARY: The AAC payload format.
import Rtsp.Depacketizer.Frame
import Rtsp.Description.Basic
import Rtsp.Rtp.Packet

/-!
# AAC

A payload starts with the total size of its unit headers in bits. Each header holds the size of a
unit and an index; the units follow in the same order. If the sizes do not fit the payload, the
whole packet is dropped.
-/

namespace Rtsp

/-- The widths of the fields of a unit header, in bits. -/
structure AacLayout where
  size : Nat
  /-- The width of the first index. -/
  index : Nat
  /-- The width of every further index. -/
  indexDelta : Nat
  deriving DecidableEq, Repr

namespace AacLayout

/-- The layout of the high bit rate mode. -/
def highRate : AacLayout := ⟨13, 3, 3⟩

/-- The layout that a description announces. Fields wider than 16 bits are not believed. -/
def ofMedia (m : MediaSection) : AacLayout :=
  let width (key : String) (otherwise : Nat) : Nat :=
    ((m.formatNumber? key).map UInt32.toNat).getD otherwise
  let size := width "sizelength" highRate.size
  let index := width "indexlength" highRate.index
  let indexDelta := width "indexdeltalength" index
  if size > 16 || index > 16 || indexDelta > 16 then highRate else ⟨size, index, indexDelta⟩

end AacLayout

structure Aac where
  layout : AacLayout := .highRate
  tally : Tally := {}
  deriving DecidableEq, Repr

namespace Aac

/-- The bits of a byte string, the highest of each byte first. -/
def bits (bs : Bytes) : List Bool :=
  bs.flatMap fun b => [7, 6, 5, 4, 3, 2, 1, 0].map b.toNat.testBit

/-- The number in the first `width` bits, and the bits after it. -/
def readBits? (width : Nat) (bs : List Bool) : Option (Nat × List Bool) :=
  let field := bs.take width
  if field.length = width then
    some (field.foldl (fun n b => 2 * n + b.toNat) 0, bs.drop width)
  else none

/-- Read headers until they fill the declared number of bits, taking the unit of each from the
data. The first index has width `index`. -/
def readUnits? (layout : AacLayout) (hs : 0 < layout.size) (index : Nat) (declared : Nat)
    (headers : List Bool) (data : Bytes) : Option (List Bytes) :=
  if declared = 0 then some []
  else do
    let (size, headers) ← readBits? layout.size headers
    let (_, headers) ← readBits? index headers
    if data.length < size then none
    else
      let rest ← readUnits? layout hs layout.indexDelta (declared - (layout.size + index)) headers
        (data.drop size)
      some (data.take size :: rest)
termination_by declared

/-- The units of a payload, if it is consistent. -/
def split? (layout : AacLayout) (payload : Bytes) : Option (List Bytes) :=
  if hs : layout.size = 0 then some [payload]
  else
    match payload with
    | hi :: lo :: rest =>
      let declared := (ofBe16 hi lo).toNat
      let size := (declared + 7) / 8
      let headers := rest.take size
      if headers.length < size then none
      else
        readUnits? layout (Nat.pos_of_ne_zero hs) layout.index declared (bits headers)
          (rest.drop size)
    | _ => none

def process (a : Aac) (packet : RtpPacket) : Aac × Option MediaFrame :=
  match split? a.layout packet.payload with
  | none => ({ a with tally := a.tally.count .truncated }, none)
  | some [] => (a, none)
  | some units => ({ a with tally := a.tally.count .frame }, some ⟨packet.timestamp, units⟩)

end Aac
end Rtsp
