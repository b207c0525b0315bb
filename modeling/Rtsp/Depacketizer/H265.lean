-- SUMMARY: The H.265 payload format.
import Rtsp.Depacketizer.NalAssembly
import Rtsp.Description.Basic
import Rtsp.Rtp.Packet

/-!
# H.265

NAL headers have two bytes, with the type in six bits of the first. A payload holds one NAL unit
(up to 47), an aggregate of units (48), or a fragment of one (49). Streams that send decoding order
numbers are not supported.
-/

namespace Rtsp

structure H265 where
  assembly : NalAssembly := {}
  /-- Whether payloads carry decoding order numbers. -/
  orderNumbers : Bool := false
  deriving DecidableEq, Repr

namespace H265

def ofMedia (m : MediaSection) : H265 where
  orderNumbers := (m.formatNumber? "sprop-max-don-diff").getD 0 > 0

/-- The first byte of the header of a fragmented unit: the six bits of the type come from the
fragment header, the bits around them from the payload. -/
def fragmentHeader (first header : UInt8) : UInt8 :=
  UInt8.ofNat (first.toNat / 128 * 128 + header.toNat % 64 * 2 + first.toNat % 2)

def pushPayload (a : NalAssembly) (orderNumbers : Bool) (payload : Bytes) : NalAssembly :=
  match payload with
  | first :: second :: body =>
    let type := first.toNat / 2 % 64
    if orderNumbers then a.count .unsupported
    else if type ≤ 47 then a.pushUnit payload
    else if type = 48 then a.pushAggregate body
    else if type = 49 then
      match body with
      | [] => a.count .malformed
      | header :: data =>
        a.pushFragment (RtpPacket.bit header 7) (RtpPacket.bit header 6)
          [fragmentHeader first header, second] data
    else if type = 50 then a.count .unsupported
    else a.count .malformed
  | _ => a.count .malformed

def process (h : H265) (packet : RtpPacket) : H265 × Option MediaFrame :=
  let a := pushPayload (h.assembly.begin packet.timestamp) h.orderNumbers packet.payload
  let (a, frame) := a.finishIf packet.marker
  ({ h with assembly := a }, frame)

end H265
end Rtsp
