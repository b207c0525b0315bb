-- SUMMARY: Transport specifications, as SETUP negotiates them.
import Rtsp.Error
import Rtsp.Text.Blank
import Rtsp.Text.Case
import Rtsp.Text.Cut
import Rtsp.Text.Numeral

/-!
# Transport header

One specification says how media travels: over which protocol, to whom, and on which ports or
interleaved channels. It is written as `RTP/AVP` and parameters after semicolons. Parameters that
are not known are ignored; a known one with a malformed value makes the whole text invalid.
-/

namespace Rtsp

-- ---------------------------------------------------------------------------
-- Pairs of ports or channels
-- ---------------------------------------------------------------------------

/-- One number, or two with a hyphen between them. -/
structure PortPair where
  first : UInt16
  second : Option UInt16 := none
  deriving DecidableEq, Repr

namespace PortPair

def read? (value : List Char) : Option PortPair :=
  let value := Text.trim value
  match Text.cut '-' value with
  | none => do some ⟨← Text.readUInt16 value, none⟩
  | some (first, second) => do
    let first ← Text.readUInt16 (Text.trim first)
    let second ← Text.readUInt16 (Text.trim second)
    some ⟨first, some second⟩

def parse (value : String) : Except Error PortPair :=
  match read? value.toList with
  | some pair => .ok pair
  | none => .error (.parse .transport)

def text (p : PortPair) : String :=
  match p.second with
  | some second => toString p.first.toNat ++ "-" ++ toString second.toNat
  | none => toString p.first.toNat

end PortPair

-- ---------------------------------------------------------------------------
-- Specifications
-- ---------------------------------------------------------------------------

inductive LowerTransport where
  | udp
  | tcp
  deriving DecidableEq, Repr

structure Transport where
  protocol : String := "RTP"
  profile : String := "AVP"
  lower : LowerTransport := .udp
  multicast : Bool := false
  destination : Option String := none
  source : Option String := none
  /-- The channels of media that is interleaved with the messages. -/
  interleaved : Option PortPair := none
  append : Bool := false
  ttl : Option UInt8 := none
  layers : Option UInt32 := none
  /-- The ports of a multicast group. -/
  port : Option PortPair := none
  clientPort : Option PortPair := none
  serverPort : Option PortPair := none
  ssrc : Option UInt32 := none
  mode : Option String := none
  deriving DecidableEq, Repr

namespace Transport

/-- Unicast datagrams to the given ports. -/
def toPorts (ports : PortPair) : Transport where
  clientPort := some ports

/-- Media interleaved with the messages, on one channel for RTP and one for RTCP. -/
def onChannels (rtp rtcp : UInt8) : Transport where
  lower := .tcp
  interleaved := some ⟨rtp.toUInt16, some rtcp.toUInt16⟩

/-- The channels for RTP and RTCP, as far as they fit into a byte. -/
def channels? (t : Transport) : Option (UInt8 × Option UInt8) := do
  let pair ← t.interleaved
  let byte? (n : UInt16) : Option UInt8 := if n.toNat < 256 then some n.toUInt8 else none
  some (← byte? pair.first, pair.second.bind byte?)

-- ---------------------------------------------------------------------------
-- Reading
-- ---------------------------------------------------------------------------

/-- The part before the parameters: protocol, profile, and optionally the lower transport. -/
def readProfile? (spec : List Char) : Option Transport :=
  match spec.splitOn '/' with
  | protocol :: profile :: more =>
    let base : Transport := { protocol := String.ofList protocol, profile := String.ofList profile }
    match more with
    | [] => some base
    | lower :: _ =>
      let lower := String.ofList lower
      if Text.sameIgnoringCase lower "UDP" then some base
      else if Text.sameIgnoringCase lower "TCP" then some { base with lower := .tcp }
      else none
  | _ => none

/-- Apply a parameter without a value. -/
def applyFlag (t : Transport) (name : String) : Transport :=
  match name with
  | "unicast" => { t with multicast := false }
  | "multicast" => { t with multicast := true }
  | "append" => { t with append := true }
  | _ => t

/-- Apply a parameter with a value. -/
def applyValue? (t : Transport) (name : String) (value : List Char) : Option Transport :=
  match name with
  | "destination" => some { t with destination := some (String.ofList value) }
  | "source" => some { t with source := some (String.ofList value) }
  | "interleaved" => do some { t with interleaved := some (← PortPair.read? value) }
  | "ttl" => do some { t with ttl := some (← Text.readUInt8 value) }
  | "layers" => do some { t with layers := some (← Text.readUInt32 value) }
  | "port" => do some { t with port := some (← PortPair.read? value) }
  | "client_port" => do some { t with clientPort := some (← PortPair.read? value) }
  | "server_port" => do some { t with serverPort := some (← PortPair.read? value) }
  | "ssrc" => do some { t with ssrc := some (.ofNat (← Text.readHex UInt32.size value)) }
  | "mode" => some { t with mode := some (String.ofList (Text.stripChar '"' value)) }
  | _ => some t

def applyParameter? (t : Transport) (parameter : List Char) : Option Transport :=
  match Text.cut '=' parameter with
  | none => some (t.applyFlag (Text.lower (String.ofList parameter)))
  | some (name, value) =>
    t.applyValue? (Text.lower (String.ofList (Text.trim name))) (Text.trim value)

def read? (value : List Char) : Option Transport :=
  match (value.splitOn ';').map Text.trim with
  | [] => none
  | spec :: parameters => do
    (parameters.filter (!·.isEmpty)).foldlM applyParameter? (← readProfile? spec)

/-- Read one specification. -/
def parse (value : String) : Except Error Transport :=
  match read? value.toList with
  | some t => .ok t
  | none => .error (.parse .transport)

/-- Read the specifications between the commas of a header value. -/
def parseAll (value : String) : Except Error (List Transport) :=
  let specs := (value.toList.splitOn ',').filter fun spec => !(Text.trim spec).isEmpty
  specs.mapM fun spec => parse (String.ofList spec)

-- ---------------------------------------------------------------------------
-- Writing
-- ---------------------------------------------------------------------------

/-- A parameter with a value, if there is one. -/
def parameter (name : String) (write : α → String) : Option α → String
  | some value => ";" ++ name ++ "=" ++ write value
  | none => ""

def text (t : Transport) : String :=
  t.protocol ++ "/" ++ t.profile
    ++ (if t.lower = .tcp then "/TCP" else "")
    ++ (if t.multicast then ";multicast" else ";unicast")
    ++ parameter "destination" id t.destination
    ++ parameter "source" id t.source
    ++ parameter "interleaved" PortPair.text t.interleaved
    ++ (if t.append then ";append" else "")
    ++ parameter "ttl" (fun n => toString n.toNat) t.ttl
    ++ parameter "layers" (fun n => toString n.toNat) t.layers
    ++ parameter "port" PortPair.text t.port
    ++ parameter "client_port" PortPair.text t.clientPort
    ++ parameter "server_port" PortPair.text t.serverPort
    ++ parameter "ssrc" (fun n => Text.hexUpper 8 n.toNat) t.ssrc
    ++ parameter "mode" (fun mode => "\"" ++ mode ++ "\"") t.mode

end Transport
end Rtsp
