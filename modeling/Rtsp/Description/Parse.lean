-- SUMMARY: Reading a session description.
import Rtsp.Description.Basic
import Rtsp.Text.Case

/-!
# Reading descriptions

Each line is `kind=value`. A line of kind `m` opens a section, which lasts to the next such line;
attribute lines before the first section belong to the session. Other lines are skipped, so every
text has a reading.
-/

namespace Rtsp

/-- A line, as far as it matters. -/
inductive DescriptionLine where
  | media (value : List Char)
  | attribute (name : String) (value : List Char)
  | other
  deriving DecidableEq, Repr

namespace DescriptionLine

def read (line : List Char) : DescriptionLine :=
  match Text.cut '=' (Text.trim line) with
  | some (['m'], value) => .media value
  | some (['a'], value) =>
    match Text.cut ':' value with
    | some (name, value) => .attribute (String.ofList name) value
    | none => .attribute (String.ofList value) []
  | _ => .other

def isMedia : DescriptionLine → Bool
  | .media _ => true
  | _ => false

/-- The value of a control attribute. -/
def control? : DescriptionLine → Option String
  | .attribute "control" value => some (String.ofList (Text.trim value))
  | _ => none

end DescriptionLine

namespace MediaSection

/-- The section that a media line opens: the kind is its first word, the payload type its
fourth. -/
def ofMediaLine (value : List Char) : MediaSection :=
  let ws := Text.words value
  let payloadType := (ws[3]?.bind Text.readUInt8).getD 0
  { kind := String.ofList (ws.head?.getD [])
    payloadType
    encoding := .ofPayloadType payloadType }

/-- What follows the payload type in an attribute value, if it is this section's. -/
def ownValue? (m : MediaSection) (value : List Char) : Option (List Char) := do
  let (payloadType, rest) ← Text.cut ' ' (Text.trim value)
  if Text.readUInt8 (Text.trim payloadType) = some m.payloadType then some rest else none

/-- `name/rate/channels`, where all but the name may be missing. -/
def readEncoding (value : List Char) : Encoding :=
  let parts := (Text.trim value).splitOn '/'
  { name := Text.upper (String.ofList (parts.head?.getD []))
    clockRate := (parts[1]?.bind Text.readUInt32).getD 0
    channels := parts[2]?.bind Text.readUInt16 }

/-- Add one `key=value` to the format parameters; a text without a key is skipped. -/
def addFormat (format : Text.Params) (parameter : List Char) : Text.Params :=
  match Text.cut '=' parameter with
  | some (key, value) =>
    format.insert (Text.lower (String.ofList (Text.trim key))) (String.ofList (Text.trim value))
  | none => format

def applyAttribute (m : MediaSection) (name : String) (value : List Char) : MediaSection :=
  match name with
  | "rtpmap" =>
    match m.ownValue? value with
    | some encoding => { m with encoding := readEncoding encoding }
    | none => m
  | "fmtp" =>
    match m.ownValue? value with
    | some parameters => { m with format := (parameters.splitOn ';').foldl addFormat m.format }
    | none => m
  | "control" => { m with control := some (String.ofList (Text.trim value)) }
  | _ => m

def applyLine (m : MediaSection) : DescriptionLine → MediaSection
  | .attribute name value => m.applyAttribute name value
  | _ => m

end MediaSection

namespace SessionDescription

/-- The sections that the lines from the first media line on describe. -/
def sections : List DescriptionLine → List MediaSection
  | .media value :: lines =>
    let own := lines.takeWhile (!·.isMedia)
    let later := lines.dropWhile (!·.isMedia)
    own.foldl MediaSection.applyLine (.ofMediaLine value) :: sections later
  | _ => []
termination_by lines => lines.length
decreasing_by
  have := (List.dropWhile_sublist (!·.isMedia) (l := lines)).length_le
  simp only [List.length_cons]
  omega

def ofLines (lines : List DescriptionLine) : SessionDescription where
  control := ((lines.takeWhile (!·.isMedia)).filterMap DescriptionLine.control?).getLast?
  media := sections (lines.dropWhile (!·.isMedia))

def parse (text : String) : SessionDescription :=
  ofLines ((text.toList.splitOn '\n').map DescriptionLine.read)

end SessionDescription
end Rtsp
