-- SUMMARY: The depacketizer of a stream, chosen by its encoding.
import Rtsp.Depacketizer.Aac
import Rtsp.Depacketizer.H264
import Rtsp.Depacketizer.H265
import Rtsp.Depacketizer.Jpeg.Scan
import Rtsp.Depacketizer.PerPacket

/-!
# Depacketizers

One depacketizer serves one RTP stream. It takes the packets in the order of their arrival and
returns a frame whenever one is complete.
-/

namespace Rtsp

inductive Depacketizer where
  | h264 (assembly : NalAssembly)
  | h265 (state : H265)
  | jpeg (state : Jpeg)
  | aac (state : Aac)
  | perPacket (state : PerPacket)
  deriving DecidableEq, Repr

namespace Depacketizer

/-- A depacketizer that hands payloads on unchanged, under the given name. -/
def unchanged (name : String) : Depacketizer :=
  perPacket ⟨.unchanged name, {}⟩

/-- The depacketizer for a section of a description. An encoding without a format of its own is
handed on unchanged. -/
def ofMedia (m : MediaSection) : Depacketizer :=
  match m.encoding.name with
  | "H264" => h264 {}
  | "H265" => h265 (.ofMedia m)
  | "JPEG" => jpeg {}
  | "MPEG4-GENERIC" => aac { layout := .ofMedia m }
  | "AMR" => perPacket ⟨.amr, {}⟩
  | "AMR-WB" => perPacket ⟨.amrWideband, {}⟩
  | "G7111" => perPacket ⟨.g7111, {}⟩
  | "PCMU" | "PCMA" => unchanged "G711"
  | "MP2T" => unchanged "MP2T"
  | _ => unchanged "RAW"

/-- The name of the payload format. -/
def name : Depacketizer → String
  | h264 _ => "H264"
  | h265 _ => "H265"
  | jpeg _ => "JPEG"
  | aac _ => "MPEG4-GENERIC"
  | perPacket p => p.format.name

def tally : Depacketizer → Tally
  | h264 a => a.tally
  | h265 h => h.assembly.tally
  | jpeg j => j.tally
  | aac a => a.tally
  | perPacket p => p.tally

/-- Take one packet, and return a frame if the packet completes one. -/
def process (d : Depacketizer) (packet : RtpPacket) : Depacketizer × Option MediaFrame :=
  match d with
  | h264 a => let (a, frame) := H264.process a packet; (h264 a, frame)
  | h265 h => let (h, frame) := h.process packet; (h265 h, frame)
  | jpeg j => let (j, frame) := j.process packet; (jpeg j, frame)
  | aac a => let (a, frame) := a.process packet; (aac a, frame)
  | perPacket p => let (p, frame) := p.process packet; (perPacket p, frame)

end Depacketizer
end Rtsp
