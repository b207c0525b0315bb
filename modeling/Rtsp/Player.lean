-- SUMMARY: A client that sets up a stream, takes its frames, and tears it down.
import Rtsp.Authorization
import Rtsp.Connection
import Rtsp.Depacketizer
import Rtsp.Description.Parse
import Rtsp.Player.Log
import Rtsp.Player.Options
import Rtsp.Player.Target
import Rtsp.Transport

/-!
# Players

A player asks a server for its options and for a description, sets up every section of it, plays,
and takes frames until it has enough or the stream is over. Then it tears the stream down.

A player acts only when something happens to it: bytes arrive, it takes an event off its queue, or
its timer fires. Each turn writes at most one message, so whoever drives the player can
let the server answer between any two messages.
-/

namespace Rtsp

/-- A section that has been set up. -/
structure Track where
  channel : UInt8
  depacketizer : Depacketizer
  deriving DecidableEq, Repr

/-- The section that is being set up, and those after it. -/
structure SetupPlan where
  /-- The address that control attributes are relative to. -/
  base : String
  /-- The address to play. -/
  playUrl : String
  /-- The session timeout in seconds. -/
  timeout : Nat := SessionField.defaultTimeout
  index : Nat := 0
  current : MediaSection
  later : List MediaSection
  deriving DecidableEq, Repr

/-- How playing ends. -/
abbrev PlayResult := Except PlayError Unit

/-- What a request is for, with what has to be known once it is answered. -/
inductive Purpose where
  | options
  | describe
  | setup (plan : SetupPlan)
  | play (playUrl : String) (timeout : Nat)
  /-- Tear the stream down, after which playing ends with the result. -/
  | teardown (result : PlayResult)

inductive Phase where
  /-- A request was sent, and its response is due. -/
  | waiting (request : Request) (purpose : Purpose)
  /-- Frames are taken. -/
  | streaming (playUrl : String)
  | finished (result : PlayResult)

structure Player where
  connection : Connection := {}
  /-- Events that the connection has delivered and the player has not taken. -/
  queue : List Event := []
  /-- The URL without user information. -/
  url : String
  /-- The number of frames after which to stop, zero for no limit. -/
  limit : Nat := 0
  credentials : Option Credentials := none
  auth : Option Authentication := none
  /-- The identifier of the session, once the server has given one. -/
  session : Option String := none
  tracks : List Track := []
  frames : Nat := 0
  /-- The period of the keepalive timer in seconds, once it runs. -/
  keepalive : Option Nat := none
  draws : Draws := []
  log : List LogLine := []
  phase : Phase := .finished (.ok ())

/-- A player after a turn, and the message that it wrote. -/
structure Turn where
  player : Player
  written : Option Bytes := none

namespace Player

def say (p : Player) (line : LogLine) : Player :=
  { p with log := p.log ++ [line] }

-- ---------------------------------------------------------------------------
-- Ending
-- ---------------------------------------------------------------------------

def finish (p : Player) (result : PlayResult) : Player :=
  { p with phase := .finished result }

def summaries (tracks : List Track) : List LogLine :=
  tracks.map fun t => .trackSummary t.channel t.depacketizer.name t.depacketizer.tally

/-- Close the connection and report on every track. -/
def conclude (p : Player) (result : PlayResult) : Player :=
  { p with connection := p.connection.shut, log := p.log ++ summaries p.tracks }.finish result

/-- Give up the request that was being made. A failed teardown changes nothing in the result. -/
def giveUp (p : Player) (purpose : Purpose) (e : PlayError) : Player :=
  match purpose with
  | .teardown result => (p.say (.teardownFailed e)).conclude result
  | _ => p.finish (.error e)

-- ---------------------------------------------------------------------------
-- Sending
-- ---------------------------------------------------------------------------

/-- Authorize a request and name the session in it. -/
def prepare (p : Player) (r : Request) : Player × Request :=
  let (auth, r) := match p.auth with
    | some a => let (a, r) := a.authorize r; (some a, r)
    | none => (none, r)
  let headers := match p.session with
    | some id => r.headers.setIfAbsent "Session" id
    | none => r.headers
  ({ p with auth }, { r with headers })

/-- Send a message. -/
def transmit (p : Player) (m : Message) : Player × Except Error Bytes :=
  let sent := p.connection.send m
  ({ p with connection := sent.connection }, sent.result.map fun _ => sent.written)

/-- Send a request, and wait for the response. -/
def ask (p : Player) (purpose : Purpose) (r : Request) : Turn :=
  let (p, wire) := p.prepare r
  match p.transmit (.request wire) with
  | (p, .ok bytes) => ⟨{ p with phase := .waiting r purpose }, some bytes⟩
  | (p, .error e) => ⟨p.giveUp purpose (.library e), none⟩

/-- Tear the stream down, unless the connection is closed already. -/
def teardown (p : Player) (playUrl : String) (result : PlayResult) : Turn :=
  if p.connection.closed then ⟨p.conclude result, none⟩
  else p.ask (.teardown result) { method := .teardown, uri := playUrl }

/-- Go on taking frames, unless there are enough. -/
def stream (p : Player) (playUrl : String) : Turn :=
  if p.limit = 0 ∨ p.frames < p.limit then ⟨{ p with phase := .streaming playUrl }, none⟩
  else p.teardown playUrl (.ok ())

-- ---------------------------------------------------------------------------
-- Responses
-- ---------------------------------------------------------------------------

/-- Set up the first of the sections, or play if there is none. Two channels of one byte are
needed for each section. -/
def setUpNext (p : Player) (base playUrl : String) (timeout index : Nat) :
    List MediaSection → Turn
  | [] => p.ask (.play playUrl timeout) { method := .play, uri := playUrl }
  | m :: later =>
    if 255 < 2 * index then
      (p.say (.tooManySections index)).ask (.play playUrl timeout)
        { method := .play, uri := playUrl }
    else
      let channel := UInt8.ofNat (2 * index)
      let transport := Transport.onChannels channel (channel + 1)
      p.ask (.setup { base, playUrl, timeout, index, current := m, later })
        { method := .setup, uri := m.controlUrl base
          headers := ⟨[("Transport", transport.text)]⟩ }

/-- Drop the slashes at the end. -/
def dropSlashes (url : String) : String :=
  String.ofList (url.toList.reverse.dropWhile (· == '/')).reverse

/-- Use the description in a response. -/
def described (p : Player) (r : Response) : Turn :=
  let base := dropSlashes ((r.headers.get? "Content-Base").getD p.url)
  let description := SessionDescription.parse (String.ofList (Text.Utf8.decodeLossy r.body))
  if description.media.isEmpty then ⟨p.finish (.error .noMedia), none⟩
  else
    let playUrl := match description.control with
      | some control => if "rtsp://".toList.isPrefixOf control.toList then control else base
      | none => base
    p.setUpNext base playUrl SessionField.defaultTimeout 0 description.media

/-- The channel that a server assigns to a track, if it names one. -/
def assignedChannel? (r : Response) : Option UInt8 := do
  let value ← r.headers.get? "Transport"
  let transport ← Transport.read? value.toList
  let (rtp, _) ← transport.channels?
  some rtp

/-- Add the track that a response has confirmed. The first response that names a session decides
on its identifier and timeout. -/
def addTrack (p : Player) (plan : SetupPlan) (r : Response) : Turn :=
  let timeout := if p.session.isNone then r.sessionTimeout?.getD plan.timeout else plan.timeout
  let session := p.session <|> r.sessionId?
  let m := plan.current
  let channel := (assignedChannel? r).getD (UInt8.ofNat (2 * plan.index))
  let p := Player.say { p with session } (.trackSetUp m.kind m.encoding.name channel)
  let track : Track := ⟨channel, .ofMedia m⟩
  let p := { p with tracks := p.tracks ++ [track] }
  p.setUpNext plan.base plan.playUrl timeout (plan.index + 1) plan.later

/-- Start to take frames. The keepalive timer fires twice in the session timeout. -/
def startStreaming (p : Player) (playUrl : String) (timeout : Nat) : Turn :=
  let p := p.say (.playing p.session timeout)
  { p with keepalive := some (max (timeout / 2) 1) }.stream playUrl

/-- Go on after a request has succeeded. -/
def succeed (p : Player) (purpose : Purpose) (r : Response) : Turn :=
  match purpose with
  | .options =>
    p.ask .describe
      { method := .describe, uri := p.url, headers := ⟨[("Accept", "application/sdp")]⟩ }
  | .describe => p.described r
  | .setup plan => p.addTrack plan r
  | .play playUrl timeout => p.startStreaming playUrl timeout
  | .teardown result => ⟨p.conclude result, none⟩

def settle (p : Player) (request : Request) (purpose : Purpose) (r : Response) : Turn :=
  if r.isOk then p.succeed purpose r
  else ⟨p.giveUp purpose (.refused request.method r.status r.reason), none⟩

/-- Handle the response to a request. The first one that asks for an authorization leads to one
repetition of its request. -/
def answered (p : Player) (request : Request) (purpose : Purpose) (r : Response) : Turn :=
  if r.status ≠ 401 ∨ p.auth.isSome then p.settle request purpose r
  else
    match p.credentials, r.headers.get? "WWW-Authenticate" with
    | some credentials, some challenge =>
      match Authentication.ofChallenge credentials challenge p.draws with
      | .ok (auth, draws) => { p with auth := some auth, draws }.ask purpose request
      | .error e => ⟨p.giveUp purpose (.library e), none⟩
    | _, _ => p.settle request purpose r

-- ---------------------------------------------------------------------------
-- Media
-- ---------------------------------------------------------------------------

/-- Give a packet to the first track that satisfies a condition. -/
def feedTrack (channel : UInt8) (packet : RtpPacket) :
    List Track → List Track × Option (Track × MediaFrame)
  | [] => ([], none)
  | t :: tracks =>
    if t.channel = channel then
      let (d, frame) := t.depacketizer.process packet
      let t := { t with depacketizer := d }
      (t :: tracks, frame.map fun f => (t, f))
    else
      let (tracks, frame) := feedTrack channel packet tracks
      (t :: tracks, frame)

/-- Take an interleaved frame. Channels without a track are ignored. -/
def receive (p : Player) (data : Interleaved) : Player :=
  if p.tracks.all fun t => t.channel != data.channel then p
  else
    match RtpPacket.parse data.payload with
    | .error e => p.say (.badPacket data.channel e)
    | .ok packet =>
      match feedTrack data.channel packet p.tracks with
      | (tracks, none) => { p with tracks }
      | (tracks, some (t, frame)) =>
        { p with tracks, frames := p.frames + 1 }.say
          (.frame t.channel t.depacketizer.name frame.timestamp frame.units.length frame.size)

-- ---------------------------------------------------------------------------
-- Turns
-- ---------------------------------------------------------------------------

/-- Requests of the server are not supported. -/
def refuse (p : Player) (q : Request) : Player × Except Error Bytes :=
  p.transmit (.response (q.respond 501))

def handleWaiting (p : Player) (request : Request) (purpose : Purpose) : Event → Turn
  | .message (.response r) => p.answered request purpose r
  | .message (.request q) =>
    match p.refuse q with
    | (p, .ok bytes) => ⟨p, some bytes⟩
    | (p, .error e) => ⟨p.giveUp purpose (.library e), none⟩
  | .message (.unknown _) => ⟨p, none⟩
  | .data frame => ⟨p.receive frame, none⟩
  | .closed cause => ⟨p.giveUp purpose (.streamOver cause), none⟩

def handleStreaming (p : Player) (playUrl : String) : Event → Turn
  | .message (.response r) =>
    ⟨if r.isOk then p else p.say (.keepaliveRejected r.status), none⟩
  | .message (.request q) =>
    match p.refuse q with
    | (p, .ok bytes) => ⟨p, some bytes⟩
    | (p, .error e) => p.teardown playUrl (.error (.library e))
  | .message (.unknown _) => ⟨p, none⟩
  | .data frame => (p.receive frame).stream playUrl
  | .closed cause => (p.say (.streamEnded cause)).teardown playUrl (.ok ())

def handle (p : Player) (e : Event) : Turn :=
  match p.phase with
  | .waiting request purpose => p.handleWaiting request purpose e
  | .streaming playUrl => p.handleStreaming playUrl e
  | .finished _ => ⟨p, none⟩

/-- Take the next event off the queue. -/
def takeEvent (p : Player) : Turn :=
  match p.queue with
  | [] => ⟨p, none⟩
  | e :: queue => { p with queue }.handle e

/-- Whether frames are taken. -/
def isStreaming (p : Player) : Bool :=
  match p.phase with
  | .streaming _ => true
  | _ => false

/-- How many seconds a response may take. -/
def responseTimeout : Nat := 10

/-- The seconds after which the timer fires: from the last event on while a response is due, and
again and again while frames are taken. -/
def timerPeriod (p : Player) : Nat :=
  if p.isStreaming then p.keepalive.getD responseTimeout else responseTimeout

/-- The timer fires: a due response is given up, or it is time to keep the session alive. -/
def tick (p : Player) : Turn :=
  match p.phase with
  | .streaming playUrl =>
    let (p, wire) := p.prepare { method := .getParameter, uri := playUrl }
    match p.transmit (.request wire) with
    | (p, .ok bytes) => ⟨p, some bytes⟩
    | (p, .error e) => p.teardown playUrl (.error (.library e))
  | .waiting _ purpose => ⟨p.giveUp purpose (.noResponse responseTimeout), none⟩
  | .finished _ => ⟨p, none⟩

/-- Let the connection take an action of the outside world, and queue what it reports. -/
def observe (p : Player) (action : Connection.Action) : Player :=
  let (connection, effect) := p.connection.step action
  { p with connection, queue := p.queue ++ effect.events }

/-- The player that the given options ask for. Credentials among the options replace those in the
URL. -/
def ofOptions (options : Options) (target : Target) (draws : Draws) : Player :=
  let credentials := match options.user with
    | some user => some ⟨user, options.password⟩
    | none => target.credentials
  { url := target.url, limit := options.frames, credentials, draws }

/-- Start on a fresh connection to an address. -/
def start (p : Player) (address : String) : Turn :=
  ((p.observe .start).say (.connected address)).ask .options { method := .options, uri := p.url }

/-- How playing has ended, if it has. -/
def result? (p : Player) : Option PlayResult :=
  match p.phase with
  | .finished result => some result
  | _ => none

end Player
end Rtsp
