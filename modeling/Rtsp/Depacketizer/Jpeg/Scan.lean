-- SUMMARY: The JPEG payload format.
import Rtsp.Depacketizer.Frame
import Rtsp.Depacketizer.Jpeg.Header
import Rtsp.Rtp.Packet

/-!
# JPEG scans

Each packet carries a piece of a scan and its offset. The piece at offset zero opens an image, and
every later piece must begin where the one before it ended; an image with a gap is given up. The
header of an image is kept for the next one as long as nothing that determines it has changed.
-/

namespace Rtsp

/-- An image whose scan is being received. -/
structure JpegImage where
  /-- The header and the scan so far. -/
  bytes : Bytes
  scanSize : Nat
  deriving DecidableEq, Repr

/-- A header and what it was made for. -/
structure JpegHeaderCache where
  params : Jpeg.Params
  header : Bytes
  deriving DecidableEq, Repr

structure Jpeg where
  image : Option JpegImage := none
  timestamp : Option UInt32 := none
  /-- The last quantization table that the stream has sent, empty at first. -/
  sent : Jpeg.Quantization := ⟨[], 0⟩
  cache : Option JpegHeaderCache := none
  /-- How many headers have been made. -/
  built : Nat := 0
  tally : Tally := {}
  deriving DecidableEq, Repr

namespace Jpeg

def count (j : Jpeg) (incident : Incident) : Jpeg :=
  { j with tally := j.tally.count incident }

-- ---------------------------------------------------------------------------
-- Payload headers
-- ---------------------------------------------------------------------------

/-- The main header of a payload, the restart interval that follows it in some types, and the
bytes after both. -/
structure Piece where
  offset : Nat
  type : UInt8
  quality : UInt8
  /-- Width and height in units of eight pixels. -/
  width8 : UInt8
  height8 : UInt8
  restartInterval : UInt16
  data : Bytes
  deriving DecidableEq, Repr

/-- The types that carry a restart header. -/
def hasRestart (type : UInt8) : Bool :=
  64 ≤ type.toNat && type.toNat ≤ 127

def Piece.read? : Bytes → Option Piece
  | _ :: o2 :: o1 :: o0 :: type :: quality :: width8 :: height8 :: data =>
    let offset := (ofBe32 0 o2 o1 o0).toNat
    if hasRestart type then
      match data with
      | i1 :: i0 :: _ :: _ :: data =>
        some ⟨offset, type, quality, width8, height8, ofBe16 i1 i0, data⟩
      | _ => none
    else some ⟨offset, type, quality, width8, height8, 0, data⟩
  | _ => none

/-- What the quantization header in front of the scan says. -/
inductive TableHeader where
  /-- A table, possibly empty, and the bytes after it. -/
  | table (q : Quantization) (rest : Bytes)
  | missing
  /-- The table would run past the end of the packet. -/
  | overrun
  deriving DecidableEq, Repr

def TableHeader.read : Bytes → TableHeader
  | _ :: precision :: n1 :: n0 :: data =>
    let size := (ofBe16 n1 n0).toNat
    if data.length < size then .overrun
    else .table ⟨data.take size, precision⟩ (data.drop size)
  | _ => .missing

/-- The position of a frame header in a list of marker segments, and the dimensions it gives. -/
def frameDimensions? : Bytes → Option (UInt16 × UInt16)
  | 0xFF :: 0xC0 :: rest =>
    match rest with
    | _ :: _ :: _ :: h1 :: h0 :: w1 :: w0 :: _ => some (ofBe16 w1 w0, ofBe16 h1 h0)
    | _ => none
  | _ :: rest => frameDimensions? rest
  | [] => none

/-- Width and height from the header extension that carries them for large images. -/
def extensionDimensions? (packet : RtpPacket) : Option (UInt16 × UInt16) :=
  match packet.extension with
  | some (0xFFD8, segments) => frameDimensions? segments
  | _ => none

/-- The size of the image that a first piece opens. -/
def dimensions (packet : RtpPacket) (piece : Piece) : UInt16 × UInt16 :=
  let own := (UInt16.ofNat (piece.width8.toNat * 8), UInt16.ofNat (piece.height8.toNat * 8))
  if piece.width8 = 0 ∧ piece.height8 = 0 then (extensionDimensions? packet).getD own else own

-- ---------------------------------------------------------------------------
-- Images
-- ---------------------------------------------------------------------------

/-- Keep a table that the stream has sent. An empty one stands for the table before it; a new one
makes the cached header worthless. -/
def keepTable (j : Jpeg) (q : Quantization) : Jpeg :=
  if q.table.isEmpty || q == j.sent then j else { j with sent := q, cache := none }

/-- The header for the given parameters, from the cache if it is there. -/
def cachedHeader (j : Jpeg) (p : Params) : JpegHeaderCache :=
  match j.cache with
  | some c => if c.params = p then c else ⟨p, headerFor p j.sent⟩
  | none => ⟨p, headerFor p j.sent⟩

/-- The header for the given parameters is in the cache. -/
def isCached (j : Jpeg) (p : Params) : Bool :=
  j.cache.any (·.params == p)

/-- Open an image, giving up one that is still open. -/
def openImage (j : Jpeg) (p : Params) : Jpeg :=
  let j := if j.image.isSome then j.count .restarted else j
  let cache := j.cachedHeader p
  { j with
    cache := some cache
    image := some ⟨cache.header, 0⟩
    built := if j.isCached p then j.built else j.built + 1 }

/-- Append the data at an offset, which must be where the scan ends. -/
def append (j : Jpeg) (offset : Nat) (data : Bytes) : Jpeg :=
  match j.image with
  | none => j.count .orphan
  | some image =>
    if offset = image.scanSize then
      { j with image := some ⟨image.bytes ++ data, image.scanSize + data.length⟩ }
    else { j.count .malformed with image := none }

/-- Handle a piece at offset zero, whose table header has been read if it has one. -/
def pushFirst (j : Jpeg) (packet : RtpPacket) (piece : Piece) (data : Bytes) : Jpeg :=
  let (width, height) := dimensions packet piece
  (j.openImage ⟨piece.type, piece.quality, width, height, piece.restartInterval⟩).append 0 data

def pushPiece (j : Jpeg) (packet : RtpPacket) (piece : Piece) : Jpeg :=
  if piece.offset ≠ 0 then j.append piece.offset piece.data
  else if piece.quality.toNat < 128 then j.pushFirst packet piece piece.data
  else
    match TableHeader.read piece.data with
    | .missing => j.count .malformed
    | .overrun => (j.count .truncated).count .malformed
    | .table q rest =>
      let j := j.keepTable q
      if j.sent.table.isEmpty then j.count .malformed else j.pushFirst packet piece rest

def pushPacket (j : Jpeg) (packet : RtpPacket) : Jpeg :=
  match Piece.read? packet.payload with
  | none => j.count .malformed
  | some piece => j.pushPiece packet piece

/-- Note the timestamp of a packet. If it differs from that of an open image, the marked packet of
that image was lost, and the image is given up. -/
def begin (j : Jpeg) (timestamp : UInt32) : Jpeg :=
  let stale := match j.timestamp with
    | some current => current != timestamp && j.image.isSome
    | none => false
  let j := if stale then { j.count .stale with image := none } else j
  { j with timestamp := some timestamp }

/-- The image with its end marker, which some senders leave out. -/
def complete (bytes : Bytes) : Bytes :=
  if endOfImage.isSuffixOf bytes then bytes else bytes ++ endOfImage

/-- End the image and hand it out, if there is one. -/
def finish (j : Jpeg) (timestamp : UInt32) : Jpeg × Option MediaFrame :=
  let j := { j with timestamp := none }
  match j.image with
  | none => (j, none)
  | some image =>
    ({ j.count .frame with image := none }, some ⟨timestamp, [complete image.bytes]⟩)

def process (j : Jpeg) (packet : RtpPacket) : Jpeg × Option MediaFrame :=
  let j := (j.begin packet.timestamp).pushPacket packet
  if packet.marker then j.finish packet.timestamp else (j, none)

end Jpeg
end Rtsp
