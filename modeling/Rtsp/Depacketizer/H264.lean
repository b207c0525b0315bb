-- SUMMARY: The H.264 payload format.
import Rtsp.Depacketizer.NalAssembly
import Rtsp.Rtp.Packet

/-!
# H.264

The low five bits of the first byte say what a payload holds: one NAL unit (1 to 23), an aggregate
of units (24), or a fragment of one (28). The structures of interleaved mode are not supported.
-/

namespace Rtsp.H264

/-- The header of a fragmented unit: the upper three bits come from the indicator, the type from the
fragment header. -/
def fragmentHeader (indicator header : UInt8) : UInt8 :=
  UInt8.ofNat (indicator.toNat / 32 * 32 + header.toNat % 32)

def pushPayload (a : NalAssembly) (payload : Bytes) : NalAssembly :=
  match payload with
  | [] => a.count .malformed
  | indicator :: body =>
    let type := indicator.toNat % 32
    if 1 ≤ type ∧ type ≤ 23 then a.pushUnit payload
    else if type = 24 then a.pushAggregate body
    else if type = 28 then
      match body with
      | [] => a.count .malformed
      | header :: data =>
        a.pushFragment (RtpPacket.bit header 7) (RtpPacket.bit header 6)
          [fragmentHeader indicator header] data
    else if type = 0 ∨ 30 ≤ type then a.count .malformed
    else a.count .unsupported

def process (a : NalAssembly) (packet : RtpPacket) : NalAssembly × Option MediaFrame :=
  (pushPayload (a.begin packet.timestamp) packet.payload).finishIf packet.marker

end Rtsp.H264
