-- SUMMARY: Session descriptions and what they say about each medium.
import Rtsp.Text.Base64
import Rtsp.Text.Blank
import Rtsp.Text.Cut
import Rtsp.Text.Numeral
import Rtsp.Text.Params

/-!
# Session descriptions

A description lists the media that a server offers. Of each section only those facts are kept
that choose and configure a depacketizer and tell the address under which it is set up.
-/

namespace Rtsp

/-- How the payload of a section is encoded. -/
structure Encoding where
  /-- Upper-case, empty if unknown. -/
  name : String := ""
  clockRate : UInt32 := 0
  channels : Option UInt16 := none
  deriving DecidableEq, Repr

/-- The encodings that payload types stand for without a mapping. -/
def Encoding.ofPayloadType (payloadType : UInt8) : Encoding :=
  match payloadType.toNat with
  | 0 => ⟨"PCMU", 8000, some 1⟩
  | 8 => ⟨"PCMA", 8000, some 1⟩
  | 26 => ⟨"JPEG", 90000, none⟩
  | 33 => ⟨"MP2T", 90000, none⟩
  | _ => {}

structure MediaSection where
  /-- `video`, `audio`, and so on. -/
  kind : String
  /-- The first payload type that the section lists. -/
  payloadType : UInt8
  encoding : Encoding
  /-- Format parameters, by lower-case name. -/
  format : Text.Params := {}
  control : Option String := none
  deriving DecidableEq, Repr

structure SessionDescription where
  /-- The control attribute in front of all sections. -/
  control : Option String
  media : List MediaSection
  deriving DecidableEq, Repr

namespace MediaSection

/-- Whether a control attribute is an address of its own. -/
def isAbsolute (control : String) : Bool :=
  "rtsp://".toList.isPrefixOf control.toList || "rtsps://".toList.isPrefixOf control.toList

/-- The address that sets up this section, relative to the address of the presentation. -/
def controlUrl (m : MediaSection) (base : String) : String :=
  match m.control with
  | none | some "" | some "*" => base
  | some control =>
    if isAbsolute control then control
    else if base.toList.getLast? = some '/' then base ++ control
    else base ++ "/" ++ control

/-- The H.264 parameter sets that the description carries; malformed ones are left out. -/
def parameterSets (m : MediaSection) : List Bytes :=
  match m.format.get? "sprop-parameter-sets" with
  | none => []
  | some sets => (sets.toList.splitOn ',').filterMap fun set => Text.Base64.decode? (Text.trim set)

/-- The AAC decoder configuration, in hexadecimal. -/
def aacConfig? (m : MediaSection) : Option String :=
  m.format.get? "config"

/-- A format parameter that holds a number. -/
def formatNumber? (m : MediaSection) (key : String) : Option UInt32 :=
  (m.format.get? key).bind fun value => Text.readUInt32 value.toList

end MediaSection
end Rtsp
