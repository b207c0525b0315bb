-- SUMMARY: Feeding packets to a depacketizer, and the packets that carry a frame.
import Rtsp.Depacketizer.Frame
import Rtsp.Rtp.Packet

/-!
# Feeding packets

A depacketizer takes packets one after the other. A frame travels in packets of its timestamp, of
which the last one is marked (`Transmission`); how its units are spread over their payloads is up to
the format.
-/

namespace Rtsp

/-- The state behind some packets, and what each of them led to. -/
def feed {σ : Type} (process : σ → RtpPacket → σ × Option MediaFrame) (s : σ) :
    List RtpPacket → σ × List (Option MediaFrame)
  | [] => (s, [])
  | packet :: packets =>
    let next := process s packet
    let rest := feed process next.1 packets
    (rest.1, next.2 :: rest.2)

theorem feed_append {σ : Type} (process : σ → RtpPacket → σ × Option MediaFrame) (s : σ)
    (first second : List RtpPacket) :
    feed process s (first ++ second)
      = ((feed process (feed process s first).1 second).1,
        (feed process s first).2 ++ (feed process (feed process s first).1 second).2) := by
  induction first generalizing s with
  | nil => rfl
  | cons packet packets ih => simp only [List.cons_append, feed, ih]

/-- Two depacketizers whose states correspond go on alike. -/
theorem feed_map {σ τ : Type} {process : σ → RtpPacket → σ × Option MediaFrame}
    {process' : τ → RtpPacket → τ × Option MediaFrame} (f : σ → τ)
    (hf : ∀ s packet, process' (f s) packet = (f (process s packet).1, (process s packet).2))
    (s : σ) (packets : List RtpPacket) :
    feed process' (f s) packets = (f (feed process s packets).1, (feed process s packets).2) := by
  induction packets generalizing s with
  | nil => rfl
  | cons packet packets ih => simp only [feed, hf, ih]

/-- A frame and the packets it travels in. -/
structure Transmission where
  frame : MediaFrame
  /-- The packets before the one that ends the frame. -/
  before : List RtpPacket
  last : RtpPacket

namespace Transmission

def packets (t : Transmission) : List RtpPacket :=
  t.before ++ [t.last]

/-- The payloads of the packets. -/
def payloads (t : Transmission) : List Bytes :=
  t.packets.map (·.payload)

/-- Nothing until the last packet, and then the frame. -/
def outputs (t : Transmission) : List (Option MediaFrame) :=
  List.replicate t.before.length none ++ [some t.frame]

/-- The packets carry the frame, whose units are spread over payloads as the format allows. -/
structure Carries (format : List Bytes → List Bytes → Prop) (t : Transmission) : Prop where
  units_ne_nil : t.frame.units ≠ []
  timestamp : ∀ packet ∈ t.packets, packet.timestamp = t.frame.timestamp
  unmarked : ∀ packet ∈ t.before, packet.marker = false
  marked : t.last.marker = true
  units : format t.frame.units t.payloads

end Transmission
end Rtsp
