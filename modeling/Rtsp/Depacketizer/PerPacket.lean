-- SUMMARY: Payload formats in which every packet is a frame.
import Rtsp.Depacketizer.Frame
import Rtsp.Rtp.Packet

/-!
# Frames in single packets

Formats that need no reassembly: speech whose frames fit into packets, and any encoding whose
payloads are handed on unchanged. Their only state is the tally.
-/

namespace Rtsp

/-- What one payload yields: units, and the incidents to count, a frame apart. -/
structure PayloadUnits where
  units : List Bytes
  incidents : List Incident := []

namespace PayloadUnits

/-- The whole payload, unless it is empty. -/
def unchanged (payload : Bytes) : PayloadUnits where
  units := if payload.isEmpty then [] else [payload]

/-- AMR in octet-aligned mode: what follows the mode request in the first byte. -/
def amr (payload : Bytes) : PayloadUnits :=
  match payload with
  | _ :: first :: rest => ⟨[first :: rest], []⟩
  | _ => ⟨[], [.malformed]⟩

/-- The size of a G.711.1 frame of a mode; its first 40 bytes are the core layer. -/
def g7111FrameSize? : Nat → Option Nat
  | 1 => some 40
  | 2 | 3 => some 50
  | 4 => some 60
  | _ => none

/-- G.711.1: the core layer of every frame. -/
def g7111 (payload : Bytes) : PayloadUnits :=
  match payload with
  | [] => ⟨[], []⟩
  | mode :: data =>
    match g7111FrameSize? (mode.toNat % 8) with
    | none => ⟨[], [.unsupported]⟩
    | some size =>
      { units := (List.range (data.length / size)).map fun i => (data.drop (i * size)).take 40
        incidents := if data.length % size = 0 then [] else [.truncated] }

/-- The frame that the units make, and the tally after it. -/
def emit (p : PayloadUnits) (timestamp : UInt32) (tally : Tally) : Tally × Option MediaFrame :=
  let tally := p.incidents.foldl Tally.count tally
  if p.units.isEmpty then (tally, none) else (tally.count .frame, some ⟨timestamp, p.units⟩)

end PayloadUnits

/-- The formats in which every packet is a frame. -/
inductive PacketFormat where
  | amr
  | amrWideband
  | g7111
  /-- Payloads are handed on unchanged, under the given name. -/
  | unchanged (name : String)
  deriving DecidableEq, Repr

namespace PacketFormat

def name : PacketFormat → String
  | amr => "AMR"
  | amrWideband => "AMR-WB"
  | g7111 => "G7111"
  | unchanged name => name

def read : PacketFormat → Bytes → PayloadUnits
  | amr | amrWideband => .amr
  | g7111 => .g7111
  | unchanged _ => .unchanged

end PacketFormat

structure PerPacket where
  format : PacketFormat
  tally : Tally := {}
  deriving DecidableEq, Repr

def PerPacket.process (p : PerPacket) (packet : RtpPacket) : PerPacket × Option MediaFrame :=
  let (tally, frame) := (p.format.read packet.payload).emit packet.timestamp p.tally
  ({ p with tally }, frame)

end Rtsp
