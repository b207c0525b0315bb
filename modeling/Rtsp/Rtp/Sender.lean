-- SUMMARY: The sending side of an RTP stream.
import Rtsp.Draws
import Rtsp.Rtp.Packet

/-!
# Senders

A sender numbers the packets of one stream. The sequence number moves on with each packet and
wraps around; the timestamp moves only when it is told to, so that all packets of a frame share
one.
-/

namespace Rtsp

structure RtpSender where
  /-- Below 128. -/
  payloadType : UInt8
  ssrc : UInt32
  /-- The number of the next packet. -/
  sequence : UInt16 := 0
  timestamp : UInt32 := 0
  deriving DecidableEq, Repr

namespace RtpSender

def create (payloadType : UInt8) (ssrc : UInt32) : RtpSender where
  payloadType := UInt8.ofNat (payloadType.toNat % 128)
  ssrc := ssrc

/-- A sender with a random source, first sequence number and first timestamp. -/
def random (payloadType : UInt8) (draws : Draws) : RtpSender × Draws :=
  let (ssrc, draws) := draws.next UInt32.size
  let (sequence, draws) := draws.next UInt16.size
  let (timestamp, draws) := draws.next UInt32.size
  ({ create payloadType (.ofNat ssrc) with
      sequence := .ofNat sequence
      timestamp := .ofNat timestamp }, draws)

/-- Fill the last word with zeros. -/
def padWords (bytes : Bytes) : Bytes :=
  bytes ++ List.replicate ((4 - bytes.length % 4) % 4) 0

/-- The next packet of the stream, and the sender after it. -/
def send (s : RtpSender) (marker : Bool) (payload : Bytes)
    (extension : Option (UInt16 × Bytes) := none) : RtpPacket × RtpSender :=
  ({ marker
     payloadType := s.payloadType
     sequence := s.sequence
     timestamp := s.timestamp
     ssrc := s.ssrc
     extension := extension.map fun (id, bytes) => (id, padWords bytes)
     payload },
    { s with sequence := s.sequence + 1 })

def advance (s : RtpSender) (ticks : UInt32) : RtpSender :=
  { s with timestamp := s.timestamp + ticks }

end RtpSender
end Rtsp
