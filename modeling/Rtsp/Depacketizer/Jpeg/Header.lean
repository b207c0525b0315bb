-- SUMMARY: The JPEG header that is put in front of the received scan.
import Rtsp.Depacketizer.Jpeg.Tables

/-!
# JPEG headers

RTP sends only the scan of an image. The header in front of it is rebuilt from the few parameters
that each packet carries and from a quantization table.
-/

namespace Rtsp.Jpeg

/-- What determines a header, apart from an explicit quantization table. -/
structure Params where
  type : UInt8
  /-- The quality factor; from 128 on the table is sent with the stream. -/
  quality : UInt8
  width : UInt16
  height : UInt16
  restartInterval : UInt16
  deriving DecidableEq, Repr

/-- The quantization tables in force and how wide their entries are: bit 0 of the precision is set
if those of the first table have two bytes, bit 1 for the second. -/
structure Quantization where
  table : Bytes
  precision : UInt8
  deriving DecidableEq, Repr

/-- The percentage by which a quality factor scales the standard tables. -/
def scale (quality : UInt8) : Nat :=
  let factor := min (max quality.toNat 1) 99
  if factor < 50 then 5000 / factor else 200 - factor * 2

/-- The standard tables, scaled for a quality factor. -/
def scaledTables (quality : UInt8) : Quantization where
  table := (lumaQuantizer ++ chromaQuantizer).map fun base =>
    UInt8.ofNat (min (max ((base.toNat * scale quality + 50) / 100) 1) 255)
  precision := 0

/-- A marker segment: its length counts the two bytes of the length itself. -/
def segment (marker : UInt8) (body : Bytes) : Bytes :=
  0xFF :: marker :: (be16 (UInt16.ofNat (body.length + 2)) ++ body)

/-- JFIF 1.1, no density, no thumbnail. -/
def app0 : Bytes :=
  segment 0xE0 [0x4A, 0x46, 0x49, 0x46, 0x00, 0x01, 0x01, 0x00, 0x00, 0x01, 0x00, 0x01, 0x00, 0x00]

def dri (interval : UInt16) : Bytes :=
  if interval = 0 then [] else segment 0xDD (be16 interval)

def dqt (id precision : UInt8) (table : Bytes) : Bytes :=
  segment 0xDB ((precision * 16 ||| id) :: table)

/-- The first table, and what is left for a second one. -/
def Quantization.split (q : Quantization) : Bytes × Bytes :=
  let size := if q.precision.toNat % 2 = 1 then 128 else 64
  (q.table.take size, q.table.drop size)

def Quantization.segments (q : Quantization) : Bytes :=
  let (luma, chroma) := q.split
  dqt 0 (UInt8.ofNat (q.precision.toNat % 2)) luma
    ++ (if chroma.isEmpty then [] else dqt 1 (UInt8.ofNat (q.precision.toNat / 2 % 2)) chroma)

/-- The table that the chroma components use. -/
def Quantization.chromaTable (q : Quantization) : UInt8 :=
  if q.split.2.isEmpty then 0 else 1

/-- Even types sample luma twice as often as chroma across, odd types also down. -/
def lumaSampling (type : UInt8) : UInt8 :=
  if type.toNat % 2 = 0 then 0x21 else 0x22

def sof0 (p : Params) (chromaTable : UInt8) : Bytes :=
  segment 0xC0
    ([0x08] ++ be16 p.height ++ be16 p.width
      ++ [3, 0x01, lumaSampling p.type, 0x00, 0x02, 0x11, chromaTable, 0x03, 0x11, chromaTable])

def dht (id : UInt8) (t : HuffmanTable) : Bytes :=
  segment 0xC4 (id :: (t.lengths ++ t.symbols))

def sos : Bytes :=
  segment 0xDA [0x03, 0x01, 0x00, 0x02, 0x11, 0x03, 0x11, 0x00, 0x3F, 0x00]

def startOfImage : Bytes := [0xFF, 0xD8]

def endOfImage : Bytes := [0xFF, 0xD9]

/-- Everything in front of the scan. -/
def header (p : Params) (q : Quantization) : Bytes :=
  startOfImage ++ app0 ++ dri p.restartInterval ++ q.segments ++ sof0 p q.chromaTable
    ++ dht 0x00 lumaDc ++ dht 0x10 lumaAc ++ dht 0x01 chromaDc ++ dht 0x11 chromaAc ++ sos

/-- The header for the given parameters, where `sent` is the table that the stream has sent. -/
def headerFor (p : Params) (sent : Quantization) : Bytes :=
  header p (if 128 ≤ p.quality.toNat then sent else scaledTables p.quality)

end Rtsp.Jpeg
