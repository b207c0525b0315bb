-- SUMMARY: What a player does in one turn, and what its turns keep.
import Rtsp.Player
import Rtsp.Proofs.Connection.Written

/-!
# Turns of a player

The server and the timer act on a player through its inputs (`Player.Input`). A turn leaves the
player as it is up to its media, starts to take frames, writes one message, or is the end
(`Player.Moves`); `Player.moves_step` says that these are all turns, and `Player.Prompts` what makes
a player ask for something next. Everything that is shown of players is shown along these cases.
-/

namespace Rtsp

open Text

/-! ## Requests -/

/-- A request as a player drafts it: it has no body, and none of the fields that are added when it
is sent. -/
structure Request.IsDraft (r : Request) : Prop where
  method : r.method ∈ Method.known
  version : r.version = protocolVersion
  body : r.body = []
  headers : r.headers = {} ∨ ∃ name ∈ ["Accept", "Transport"], ∃ value, Headers.IsValue value
    ∧ r.headers = ⟨[(name, value)]⟩

/-- A draft has no fields but these two. -/
theorem Request.IsDraft.get? {r : Request} (h : r.IsDraft) {name : String}
    (hname : ∀ draft ∈ ["Accept", "Transport"], sameIgnoringCase draft name = false) :
    r.headers.get? name = none := by
  rcases h.headers with hnone | ⟨draft, hdraft, value, -, hone⟩
  · rw [hnone]
    rfl
  · rw [hone]
    simp [Headers.get?, hname draft hdraft]

/-- The sections of the description in a response. -/
def Response.sections (r : Response) : List MediaSection :=
  (SessionDescription.parse (String.ofList (Utf8.decodeLossy r.body))).media

/-- The request that sets up a section. -/
def SetupPlan.request (plan : SetupPlan) : Request :=
  let channel := UInt8.ofNat (2 * plan.index)
  { method := .setup, uri := plan.current.controlUrl plan.base
    headers := ⟨[("Transport", (Transport.onChannels channel (channel + 1)).text)]⟩ }

/-- The method of the requests for a purpose. -/
def Purpose.method : Purpose → Method
  | options => .options
  | describe => .describe
  | setup _ => .setup
  | play _ _ => .play
  | teardown _ => .teardown

theorem isDraft_of_no_headers {method : Method} (hmethod : method ∈ Method.known) (uri : String) :
    Request.IsDraft { method, uri } where
  method := hmethod
  version := rfl
  body := rfl
  headers := .inl rfl

theorem isValue_onChannels (rtp rtcp : UInt8) :
    Headers.IsValue (Transport.onChannels rtp rtcp).text := by
  have htext : (Transport.onChannels rtp rtcp).text = "RTP/AVP/TCP;unicast;interleaved="
      ++ (toString rtp.toUInt16.toNat ++ "-" ++ toString rtcp.toUInt16.toNat) := by
    apply String.toList_inj.1
    delta Transport.text Transport.onChannels
    simp [Transport.parameter, PortPair.text]
  have hfixed : ∀ s ∈ ["RTP/AVP/TCP;unicast;interleaved=", "-"], Headers.IsSolid s := by
    decide
  have hfirst := (Headers.isSolid_numeral rtp.toUInt16.toNat).append (hfixed "-" (by decide))
  have hpair := hfirst.append (Headers.isSolid_numeral rtcp.toUInt16.toNat)
  rw [htext]
  exact ((hfixed _ (by decide)).append hpair).isValue

theorem SetupPlan.isDraft_request (plan : SetupPlan) : plan.request.IsDraft where
  method := (by decide : Method.setup ∈ Method.known)
  version := rfl
  body := rfl
  headers := .inr ⟨"Transport", by decide, _, isValue_onChannels _ _, rfl⟩

/-! ## Sends -/

namespace Connection

/-- What is sent is written. -/
def CanSend (c : Connection) : Prop :=
  c.closed = false ∧ c.writable = true

variable {c : Connection}

theorem send_request_of_canSend (h : c.CanSend) (r : Request) :
    c.send (.request r)
      = ⟨{ c with nextCseq := c.nextCseq + 1, pending := c.pending.insert c.nextCseq r },
        (c.wireRequest r).encode, .ok c.nextCseq⟩ :=
  (send_request h.1 r).trans (if_pos h.2)

theorem send_response_of_canSend (h : c.CanSend) (r : Response) :
    c.send (.response r) = ⟨c, r.encode, .ok (r.cseq?.getD 0)⟩ :=
  (send_other h.1 (by simp)).trans (if_pos h.2)

/-- What cannot be sent now cannot be sent the next time either. -/
theorem send_of_not_canSend (h : ¬c.CanSend) (m : Message) :
    ∃ e, (c.send m).result = .error e ∧ ¬(c.send m).connection.CanSend := by
  by_cases hclosed : c.closed = true
  · rw [send_of_closed hclosed]
    exact ⟨_, rfl, h⟩
  · rw [Bool.not_eq_true] at hclosed
    have hwritable : c.writable = false := by
      rw [← Bool.not_eq_true]
      exact fun hw => h ⟨hclosed, hw⟩
    obtain ⟨hresult, n, hconnection⟩ := send_of_not_writable hclosed hwritable m
    rw [hresult, hconnection]
    exact ⟨_, rfl, h⟩

end Connection

namespace Player

/-! ## Inputs -/

/-- What happens to a player: bytes arrive, the stream ends, writing becomes possible or
impossible, the player takes an event, or its timer fires. -/
inductive Input where
  | arrive (bytes : Bytes)
  | finish (how : StreamEnd)
  | setWritable (writable : Bool)
  | take
  | tick
  deriving DecidableEq, Repr

def step (p : Player) : Input → Turn
  | .arrive bytes => ⟨p.observe (.feed bytes), none⟩
  | .finish how => ⟨p.observe (.finish how), none⟩
  | .setWritable writable => ⟨p.observe (.setWritable writable), none⟩
  | .take => p.takeEvent
  | .tick => p.tick

/-- The event that is taken in a turn. A player that is finished takes no notice of its queue. -/
def taken? (p : Player) : Input → Option Event
  | .take => if p.result?.isSome then none else p.queue.head?
  | _ => none

/-- The player without the event that a turn takes off its queue. -/
def dequeue (p : Player) : Input → Player
  | .take => { p with queue := p.queue.tail }
  | _ => p

/-- The event that is taken comes off the queue. -/
theorem dequeue_sublist (p : Player) (i : Input) :
    ((p.taken? i).toList ++ (p.dequeue i).queue).Sublist p.queue := by
  cases i with
  | take =>
    unfold taken? dequeue
    dsimp only
    split
    · exact List.tail_sublist _
    · cases hp : p.queue <;> simp
  | _ => exact List.Sublist.refl _

/-! ## Media -/

/-- The frame that a depacketizer emits on an interleaved frame. -/
def frame? (p : Player) (data : Interleaved) : Option MediaFrame :=
  match RtpPacket.parse data.payload with
  | .ok packet => (feedTrack data.channel packet p.tracks).2.map (·.2)
  | .error _ => none

/-- How many frames an event yields. -/
def yield (p : Player) : Option Event → Nat
  | some (.data data) => (p.frame? data).toList.length
  | _ => 0

theorem length_feedTrack (channel : UInt8) (packet : RtpPacket) (tracks : List Track) :
    (feedTrack channel packet tracks).1.length = tracks.length := by
  induction tracks with
  | nil => rfl
  | cons t tracks ih =>
    unfold feedTrack
    split
    · rfl
    · exact congrArg (· + 1) ih

theorem feedTrack_of_forall_ne {channel : UInt8} {tracks : List Track}
    (h : ∀ t ∈ tracks, t.channel ≠ channel) (packet : RtpPacket) :
    (feedTrack channel packet tracks).2 = none := by
  induction tracks with
  | nil => rfl
  | cons t tracks ih =>
    unfold feedTrack
    rw [if_neg (h t List.mem_cons_self)]
    exact ih fun u hu => h u (List.mem_cons_of_mem _ hu)

/-- Interleaved frames are for the depacketizers, and change nothing else. -/
theorem receive_cases (p : Player) (data : Interleaved) :
    ∃ tracks log, tracks.length = p.tracks.length
      ∧ p.receive data
        = { p with tracks, frames := p.frames + p.yield (some (.data data)), log } := by
  unfold receive yield frame?
  dsimp only
  split
  next hall =>
    have hchannels : ∀ t ∈ p.tracks, t.channel ≠ data.channel := by simpa using hall
    refine ⟨p.tracks, p.log, rfl, ?_⟩
    simp only [feedTrack_of_forall_ne hchannels]
    cases RtpPacket.parse data.payload <;> rfl
  next =>
    cases hparse : RtpPacket.parse data.payload with
    | error e => exact ⟨p.tracks, _, rfl, rfl⟩
    | ok packet =>
      have hlength := length_feedTrack data.channel packet p.tracks
      dsimp only
      cases hfeed : feedTrack data.channel packet p.tracks with
      | mk tracks emitted =>
        rw [hfeed] at hlength
        cases emitted with
        | none => exact ⟨tracks, _, hlength, rfl⟩
        | some emitted => exact ⟨tracks, _, hlength, rfl⟩

/-! ## What a player asks for -/

/-- The player once it has written a request. -/
def sent (p : Player) (r : Request) : Player :=
  let wire := (p.prepare r).2
  { (p.prepare r).1 with
    connection := { p.connection with
      nextCseq := p.connection.nextCseq + 1
      pending := p.connection.pending.insert p.connection.nextCseq wire } }

/-- The player that waits for the response to a request. -/
def awaiting (p : Player) (r : Request) (purpose : Purpose) : Player :=
  { p.sent r with phase := .waiting r purpose }

/-- The request that it has written. -/
def wire (p : Player) (r : Request) : Request :=
  p.connection.wireRequest (p.prepare r).2

theorem method_wire (p : Player) (r : Request) : (p.wire r).method = r.method := by
  unfold wire prepare
  cases p.auth <;> rfl

theorem auth_sent (p : Player) (r : Request) :
    (p.sent r).auth = p.auth.map fun a => (a.authorize r).1 := by
  unfold sent prepare
  cases p.auth <;> rfl

/-- The request that keeps a session alive. -/
def aliveRequest (url : String) : Request :=
  { method := .getParameter, uri := url }

/-- The player takes frames, or starts to with this event. -/
inductive Streams (p : Player) (url : String) : Option Event → Prop where
  | streaming {e : Option Event} (phase : p.phase = .streaming url) : Streams p url e
  | playing {request : Request} {timeout : Nat} {response : Response}
    (phase : p.phase = .waiting request (.play url timeout)) (ok : response.isOk) :
    Streams p url (some (.message (.response response)))

/-- `Prompts p e q purpose r`: on the event the player asks for `r`, for this purpose, where `q` is
what has become of it until then. -/
inductive Prompts (p : Player) : Option Event → Player → Purpose → Request → Prop where
  /-- A challenge is accepted, and the request repeated. -/
  | again {request : Request} {purpose : Purpose} {response : Response} {credentials : Credentials}
    {challenge : String} {auth : Authentication} {draws : Draws}
    (phase : p.phase = .waiting request purpose) (status : response.status = 401)
    (fresh : p.auth = none) (known : p.credentials = some credentials)
    (carried : response.headers.get? "WWW-Authenticate" = some challenge)
    (accepted : Authentication.ofChallenge credentials challenge p.draws = .ok (auth, draws)) :
    Prompts p (some (.message (.response response))) { p with auth := some auth, draws }
      purpose request
  | describe {request : Request} {response : Response} (phase : p.phase = .waiting request .options)
    (ok : response.isOk) :
    Prompts p (some (.message (.response response))) p .describe
      { method := .describe, uri := p.url, headers := ⟨[("Accept", "application/sdp")]⟩ }
  | setUp {request : Request} {response : Response} {plan : SetupPlan}
    (phase : p.phase = .waiting request .describe) (ok : response.isOk) (first : plan.index = 0)
    (sections : response.sections = plan.current :: plan.later) :
    Prompts p (some (.message (.response response))) p (.setup plan) plan.request
  | setUpNext {request : Request} {response : Response} {plan next : SetupPlan} {track : Track}
    {log : List LogLine} (phase : p.phase = .waiting request (.setup plan)) (ok : response.isOk)
    (index : next.index = plan.index + 1) (later : plan.later = next.current :: next.later)
    (room : 2 * next.index ≤ 255) :
    Prompts p (some (.message (.response response)))
      { p with session := p.session <|> response.sessionId?, tracks := p.tracks ++ [track], log }
      (.setup next) next.request
  | play {request : Request} {response : Response} {plan : SetupPlan} {track : Track}
    {log : List LogLine} {timeout : Nat} (phase : p.phase = .waiting request (.setup plan))
    (ok : response.isOk) (last : plan.later = [] ∨ 255 < 2 * (plan.index + 1)) :
    Prompts p (some (.message (.response response)))
      { p with session := p.session <|> response.sessionId?, tracks := p.tracks ++ [track], log }
      (.play plan.playUrl timeout) { method := .play, uri := plan.playUrl }
  | teardown {e : Option Event} {url : String} {tracks : List Track} {keepalive : Option Nat}
    {log : List LogLine} (streams : p.Streams url e) (limited : p.limit ≠ 0)
    (enough : p.limit ≤ p.frames + p.yield e) :
    Prompts p e { p with tracks, frames := p.frames + p.yield e, keepalive, log }
      (.teardown (.ok ())) { method := .teardown, uri := url }

/-- What is asked for fits its purpose. -/
theorem Prompts.draft {p q : Player} {e : Option Event} {purpose : Purpose} {r : Request}
    (h : p.Prompts e q purpose r)
    (hp : ∀ request purpose, p.phase = .waiting request purpose →
      request.IsDraft ∧ request.method = purpose.method) :
    r.IsDraft ∧ r.method = purpose.method := by
  cases h with
  | again phase => exact hp _ _ phase
  | describe =>
    have hdraft : Request.IsDraft
        { method := .describe, uri := p.url, headers := ⟨[("Accept", "application/sdp")]⟩ } := {
      method := (by decide : Method.describe ∈ Method.known)
      version := rfl
      body := rfl
      headers := .inr ⟨"Accept", by decide, "application/sdp", by decide, rfl⟩ }
    exact ⟨hdraft, rfl⟩
  | setUp => exact ⟨SetupPlan.isDraft_request _, rfl⟩
  | setUpNext => exact ⟨SetupPlan.isDraft_request _, rfl⟩
  | play | teardown => exact ⟨isDraft_of_no_headers (by decide) _, rfl⟩

theorem Prompts.connection {p q : Player} {e : Option Event} {purpose : Purpose} {r : Request}
    (h : p.Prompts e q purpose r) : q.connection = p.connection := by
  cases h <;> rfl

theorem Prompts.auth {p q : Player} {e : Option Event} {purpose : Purpose} {r : Request}
    (h : p.Prompts e q purpose r) (hq : q.auth = none) : p.auth = none := by
  cases h with
  | again _ _ fresh => exact fresh
  | _ => exact hq

theorem Prompts.limit {p q : Player} {e : Option Event} {purpose : Purpose} {r : Request}
    (h : p.Prompts e q purpose r) : q.limit = p.limit := by
  cases h <;> rfl

theorem Prompts.frames {p q : Player} {e : Option Event} {purpose : Purpose} {r : Request}
    (h : p.Prompts e q purpose r) : q.frames = p.frames + p.yield e := by
  cases h <;> rfl

theorem Prompts.queue {p q : Player} {e : Option Event} {purpose : Purpose} {r : Request}
    (h : p.Prompts e q purpose r) : q.queue = p.queue := by
  cases h <;> rfl

/-! ## What a player does -/

end Player

/-- Nothing was written, playing has ended, and these events are left. -/
structure Turn.IsOver (t : Turn) (queue : List Event) : Prop where
  written : t.written = none
  ended : t.player.result?.isSome
  queue : t.player.queue = queue

namespace Player

/-- `Moves p e t`: in turn `t` the player does something on an event, or because its timer fires
where there is no event. -/
inductive Moves (p : Player) : Option Event → Turn → Prop where
  | ends {e : Option Event} {t : Turn} (isOver : t.IsOver p.queue) : Moves p e t
  | stays {e : Option Event} {tracks : List Track} {log : List LogLine}
    (length : tracks.length = p.tracks.length)
    (unanswered : ∀ response, e = some (.message (.response response)) → p.isStreaming) :
    Moves p e ⟨{ p with tracks, frames := p.frames + p.yield e, log }, none⟩
  | plays {request : Request} {url : String} {timeout : Nat} {response : Response}
    {keepalive : Option Nat} {log : List LogLine}
    (phase : p.phase = .waiting request (.play url timeout)) (ok : response.isOk) :
    Moves p (some (.message (.response response)))
      ⟨{ p with keepalive, log, phase := .streaming url }, none⟩
  | refuses {q : Request} (running : p.result? = none) (opened : p.connection.CanSend) :
    Moves p (some (.message (.request q))) ⟨p, some (q.respond 501).encode⟩
  | lives {url : String} (phase : p.phase = .streaming url) (opened : p.connection.CanSend) :
    Moves p none ⟨p.sent (aliveRequest url), some (p.wire (aliveRequest url)).encode⟩
  | asks {e : Option Event} {q : Player} {purpose : Purpose} {r : Request}
    (prompt : p.Prompts e q purpose r) (opened : q.connection.CanSend) :
    Moves p e ⟨q.awaiting r purpose, some (q.wire r).encode⟩


/-! ### Preparing -/

section

variable (p : Player) (r : Request)

/-- The request with an authorization, if the server has asked for one. -/
def authorized : Request :=
  match p.auth with
  | some a => (a.authorize r).2
  | none => r

/-- Only the fields of a request are prepared. -/
theorem prepare_eq : (p.prepare r).2 = { r with headers := (p.prepare r).2.headers } := by
  unfold prepare
  cases p.auth <;> rfl

theorem headers_prepare : (p.prepare r).2.headers
    = match p.session with
      | some id => (p.authorized r).headers.setIfAbsent "Session" id
      | none => (p.authorized r).headers := by
  unfold prepare authorized
  cases p.auth <;> rfl

/-- A request is prepared with the authorization and the session alone. -/
theorem prepare_congr {p q : Player} (hauth : q.auth = p.auth) (hsession : q.session = p.session)
    (r : Request) : (q.prepare r).2 = (p.prepare r).2 := by
  unfold prepare
  rw [hauth, hsession]

theorem get?_authorized_of_ne {name : String}
    (hne : sameIgnoringCase "Authorization" name = false) :
    (p.authorized r).headers.get? name = r.headers.get? name := by
  unfold authorized
  cases p.auth with
  | none => rfl
  | some a => exact Headers.get?_set_of_ne hne r.headers _

theorem get?_prepare_of_ne {name : String}
    (hauth : sameIgnoringCase "Authorization" name = false)
    (hsession : sameIgnoringCase "Session" name = false) :
    (p.prepare r).2.headers.get? name = r.headers.get? name := by
  rw [headers_prepare]
  cases p.session with
  | none => exact p.get?_authorized_of_ne r hauth
  | some id =>
    exact (Headers.get?_setIfAbsent_of_ne hsession _ id).trans (p.get?_authorized_of_ne r hauth)

/-- A prepared request names the session. -/
theorem get?_prepare_session (h : r.headers.get? "Session" = none) :
    (p.prepare r).2.headers.get? "Session" = p.session := by
  have hnone : (p.authorized r).headers.get? "Session" = none :=
    (p.get?_authorized_of_ne r (by decide)).trans h
  rw [headers_prepare]
  cases p.session with
  | none => exact hnone
  | some id => rw [Headers.get?_setIfAbsent_self, hnone, Option.getD_none]

theorem get?_wire_session (h : r.headers.get? "Session" = none) :
    (p.wire r).headers.get? "Session" = p.session := by
  have hwire : (p.wire r).headers.get? "Session" = (p.prepare r).2.headers.get? "Session" :=
    p.connection.get?_wireRequest (p.prepare r).2 (by decide) (by decide)
  exact hwire.trans (p.get?_prepare_session r h)

theorem filter_prepare {names : List String} (hauth : "Authorization" ∈ names)
    (hsession : "Session" ∈ names) :
    (p.prepare r).2.headers.entries.filter (Headers.isOther names)
      = r.headers.entries.filter (Headers.isOther names) := by
  have hauthorized : (p.authorized r).headers.entries.filter (Headers.isOther names)
      = r.headers.entries.filter (Headers.isOther names) := by
    unfold authorized
    cases p.auth with
    | none => rfl
    | some a => exact Headers.filter_set hauth r.headers _
  rw [headers_prepare]
  cases p.session with
  | none => exact hauthorized
  | some id => exact (Headers.filter_setIfAbsent hsession _ id).trans hauthorized

end

/-! ### Asking -/

section

variable {p : Player}

theorem isSome_result?_iff : p.result?.isSome ↔ ∃ result, p.phase = .finished result := by
  unfold result?
  cases p.phase <;> simp

theorem result?_congr {q : Player} (h : q.phase = p.phase) : q.result? = p.result? := by
  unfold result?
  rw [h]

theorem result?_of_waiting {request : Request} {purpose : Purpose}
    (phase : p.phase = .waiting request purpose) : p.result? = none := by
  unfold result?
  rw [phase]

theorem result?_of_streaming {url : String} (phase : p.phase = .streaming url) :
    p.result? = none := by
  unfold result?
  rw [phase]

theorem isOver_giveUp (p : Player) (purpose : Purpose) (e : PlayError) :
    Turn.IsOver ⟨p.giveUp purpose e, none⟩ p.queue := by
  cases purpose <;> exact ⟨rfl, rfl, rfl⟩

theorem transmit_of_not_canSend (h : ¬p.connection.CanSend) (m : Message) :
    ∃ c e, p.transmit m = ({ p with connection := c }, .error e) ∧ ¬c.CanSend := by
  obtain ⟨e, hresult, hconnection⟩ := Connection.send_of_not_canSend h m
  refine ⟨_, e, ?_, hconnection⟩
  unfold transmit
  dsimp only
  rw [hresult]
  rfl

theorem transmit_prepared (h : p.connection.CanSend) (r : Request) :
    (p.prepare r).1.transmit (.request (p.prepare r).2) = (p.sent r, .ok (p.wire r).encode) := by
  have hsend := Connection.send_request_of_canSend h (p.prepare r).2
  have hconnection : (p.prepare r).1.connection = p.connection := rfl
  unfold transmit
  rw [hconnection, hsend]
  rfl

theorem ask_of_canSend (h : p.connection.CanSend) (purpose : Purpose) (r : Request) :
    p.ask purpose r = ⟨p.awaiting r purpose, some (p.wire r).encode⟩ := by
  unfold ask
  dsimp only
  rw [transmit_prepared h]
  rfl

theorem isOver_ask (h : ¬p.connection.CanSend) (purpose : Purpose) (r : Request) :
    (p.ask purpose r).IsOver p.queue := by
  have hprepared : ¬(p.prepare r).1.connection.CanSend := h
  obtain ⟨c, e, htransmit, -⟩ := transmit_of_not_canSend hprepared (.request (p.prepare r).2)
  unfold ask
  dsimp only
  rw [htransmit]
  exact isOver_giveUp _ _ _

theorem isOver_teardown (h : ¬p.connection.CanSend) (url : String) (result : PlayResult) :
    (p.teardown url result).IsOver p.queue := by
  unfold teardown
  split
  · exact ⟨rfl, rfl, rfl⟩
  · exact isOver_ask h _ _

/-- What is prompted is asked for, or that is the end. -/
theorem Prompts.moves {q : Player} {e : Option Event} {purpose : Purpose} {r : Request}
    (h : p.Prompts e q purpose r) : p.Moves e (q.ask purpose r) := by
  by_cases hopen : q.connection.CanSend
  · rw [ask_of_canSend hopen]
    exact .asks h hopen
  · have hover := isOver_ask hopen purpose r
    rw [h.queue] at hover
    exact .ends hover

/-! ### Streaming -/

/-- With enough frames the stream is torn down. -/
theorem Streams.moves_teardown {e : Option Event} {url : String} (h : p.Streams url e)
    (limited : p.limit ≠ 0) (enough : p.limit ≤ p.frames + p.yield e) (tracks : List Track)
    (keepalive : Option Nat) (log : List LogLine) :
    p.Moves e (Player.teardown { p with tracks, frames := p.frames + p.yield e, keepalive, log }
      url (.ok ())) := by
  unfold teardown
  split
  · exact .ends ⟨rfl, rfl, rfl⟩
  · exact (Prompts.teardown h limited enough).moves

theorem moves_startStreaming {request : Request} {url : String} {timeout : Nat}
    {response : Response} (phase : p.phase = .waiting request (.play url timeout))
    (ok : response.isOk) :
    p.Moves (some (.message (.response response))) (p.startStreaming url timeout) := by
  unfold startStreaming stream
  dsimp only
  split
  next => exact .plays phase ok
  next henough =>
    obtain ⟨hlimited, hframes⟩ := not_or.1 henough
    exact (Streams.playing phase ok).moves_teardown hlimited (Nat.le_of_not_lt hframes) _ _ _

theorem moves_receive {url : String} (phase : p.phase = .streaming url) (data : Interleaved) :
    p.Moves (some (.data data)) ((p.receive data).stream url) := by
  obtain ⟨tracks, log, hlength, hreceive⟩ := p.receive_cases data
  rw [hreceive]
  unfold stream
  split
  next =>
    have hsame : ({ p with tracks, frames := p.frames + p.yield (some (.data data)), log
                           phase := .streaming url } : Player)
        = { p with tracks, frames := p.frames + p.yield (some (.data data)), log } := by
      rw [← phase]
    rw [hsame]
    exact .stays hlength nofun
  next henough =>
    obtain ⟨hlimited, hframes⟩ := not_or.1 henough
    exact (Streams.streaming phase).moves_teardown hlimited (Nat.le_of_not_lt hframes) _ _ _

/-! ### Setting up -/

theorem setUpNext_cons {index : Nat} (h : 2 * index ≤ 255) (base playUrl : String) (timeout : Nat)
    (current : MediaSection) (later : List MediaSection) :
    p.setUpNext base playUrl timeout index (current :: later)
      = let plan := { base, playUrl, timeout, index, current, later }
        p.ask (.setup plan) plan.request :=
  if_neg (Nat.not_lt.2 h)

theorem setUpNext_last {index : Nat} {later : List MediaSection}
    (h : later = [] ∨ 255 < 2 * index) (base playUrl : String) (timeout : Nat) :
    ∃ log, p.setUpNext base playUrl timeout index later
      = Player.ask { p with log } (.play playUrl timeout) { method := .play, uri := playUrl } := by
  cases later with
  | nil => exact ⟨p.log, rfl⟩
  | cons m later => exact ⟨_, if_pos (h.resolve_left (List.cons_ne_nil m later))⟩

theorem moves_described {request : Request} {response : Response}
    (phase : p.phase = .waiting request .describe) (ok : response.isOk) :
    p.Moves (some (.message (.response response))) (p.described response) := by
  unfold described
  dsimp only
  split
  next => exact .ends ⟨rfl, rfl, rfl⟩
  next hsections =>
    cases hmedia : response.sections with
    | nil =>
      unfold Response.sections at hmedia
      exact absurd (by rw [hmedia]; rfl) hsections
    | cons current later =>
      have hparsed : (SessionDescription.parse
          (String.ofList (Utf8.decodeLossy response.body))).media = current :: later := hmedia
      rw [hparsed, setUpNext_cons (by decide)]
      exact (Prompts.setUp phase ok rfl hmedia).moves

theorem moves_addTrack {request : Request} {plan : SetupPlan} {response : Response}
    (phase : p.phase = .waiting request (.setup plan)) (ok : response.isOk) :
    p.Moves (some (.message (.response response))) (p.addTrack plan response) := by
  unfold addTrack say
  dsimp only
  by_cases hlast : plan.later = [] ∨ 255 < 2 * (plan.index + 1)
  · obtain ⟨log, hask⟩ := setUpNext_last hlast plan.base plan.playUrl _
    rw [hask]
    exact (Prompts.play phase ok hlast).moves
  · obtain ⟨hlater, hroom⟩ := not_or.1 hlast
    obtain ⟨current, later, hcons⟩ := List.exists_cons_of_ne_nil hlater
    rw [hcons, setUpNext_cons (Nat.le_of_not_lt hroom)]
    exact (Prompts.setUpNext phase ok rfl hcons (Nat.le_of_not_lt hroom)).moves

/-! ### Responses -/

theorem moves_succeed {request : Request} {purpose : Purpose} {response : Response}
    (phase : p.phase = .waiting request purpose) (ok : response.isOk) :
    p.Moves (some (.message (.response response))) (p.succeed purpose response) := by
  cases purpose with
  | options => exact (Prompts.describe phase ok).moves
  | describe => exact moves_described phase ok
  | setup plan => exact moves_addTrack phase ok
  | play url timeout => exact moves_startStreaming phase ok
  | teardown result => exact .ends ⟨rfl, rfl, rfl⟩

theorem moves_settle {request : Request} {purpose : Purpose}
    (phase : p.phase = .waiting request purpose) (response : Response) :
    p.Moves (some (.message (.response response))) (p.settle request purpose response) := by
  unfold settle
  split
  next ok => exact moves_succeed phase ok
  next => exact .ends (isOver_giveUp p _ _)

theorem moves_answered {request : Request} {purpose : Purpose}
    (phase : p.phase = .waiting request purpose) (response : Response) :
    p.Moves (some (.message (.response response))) (p.answered request purpose response) := by
  unfold answered
  split
  next => exact moves_settle phase response
  next hfirst =>
    obtain ⟨hstatus, hauth⟩ := not_or.1 hfirst
    split
    next credentials challenge hknown hcarried =>
      split
      next auth draws haccepted =>
        have hfresh : p.auth = none := by simpa using hauth
        exact (Prompts.again phase (not_not.1 hstatus) hfresh hknown hcarried haccepted).moves
      next => exact .ends (isOver_giveUp p _ _)
    next => exact moves_settle phase response

/-! ### Events -/

theorem moves_unchanged (p : Player) {e : Option Event} (h : p.yield e = 0)
    (unanswered : ∀ response, e = some (.message (.response response)) → p.isStreaming) :
    p.Moves e ⟨p, none⟩ := by
  have hmoves := @Moves.stays p e p.tracks p.log rfl unanswered
  rwa [h] at hmoves

/-- A request of the server is refused, or the connection takes nothing. -/
theorem refuse_cases (running : p.result? = none) (q : Request) :
    (∃ bytes, p.refuse q = (p, .ok bytes)
        ∧ p.Moves (some (.message (.request q))) ⟨p, some bytes⟩)
      ∨ ∃ c e, p.refuse q = ({ p with connection := c }, .error e) ∧ ¬c.CanSend := by
  by_cases hopen : p.connection.CanSend
  · left
    refine ⟨(q.respond 501).encode, ?_, .refuses running hopen⟩
    unfold refuse transmit
    rw [Connection.send_response_of_canSend hopen]
    rfl
  · exact .inr (transmit_of_not_canSend hopen _)

theorem moves_handleWaiting {request : Request} {purpose : Purpose}
    (phase : p.phase = .waiting request purpose) (e : Event) :
    p.Moves (some e) (p.handleWaiting request purpose e) := by
  have hrunning := result?_of_waiting phase
  unfold handleWaiting
  split
  next response => exact moves_answered phase response
  next q =>
    rcases refuse_cases hrunning q with ⟨bytes, hrefuse, hmoves⟩ | ⟨c, e, hrefuse, -⟩
    · rw [hrefuse]
      exact hmoves
    · rw [hrefuse]
      exact .ends (isOver_giveUp _ _ _)
  next => exact moves_unchanged p rfl nofun
  next data =>
    obtain ⟨tracks, log, hlength, hreceive⟩ := p.receive_cases data
    rw [hreceive]
    exact .stays hlength nofun
  next => exact .ends (isOver_giveUp p _ _)

theorem moves_handleStreaming {url : String} (phase : p.phase = .streaming url) {e : Event}
    (hclosed : ∀ cause, e = .closed cause → p.connection.closed = true) :
    p.Moves (some e) (p.handleStreaming url e) := by
  have hrunning := result?_of_streaming phase
  unfold handleStreaming
  split
  next response =>
    have hstreaming : p.isStreaming := by
      unfold isStreaming
      rw [phase]
    split
    next => exact moves_unchanged p rfl fun _ _ => hstreaming
    next => exact @Moves.stays p _ p.tracks _ rfl fun _ _ => hstreaming
  next q =>
    rcases refuse_cases hrunning q with ⟨bytes, hrefuse, hmoves⟩ | ⟨c, e, hrefuse, hshut⟩
    · rw [hrefuse]
      exact hmoves
    · rw [hrefuse]
      exact .ends (isOver_teardown hshut _ _)
  next => exact moves_unchanged p rfl nofun
  next data => exact moves_receive phase data
  next cause =>
    have hshut : ¬(p.say (.streamEnded cause)).connection.CanSend := fun h => by
      cases h.1.symm.trans (hclosed cause rfl)
    exact .ends (isOver_teardown hshut _ _)

/-- A player that is finished does nothing more. -/
theorem handle_of_ended (h : p.result?.isSome) (e : Event) : p.handle e = ⟨p, none⟩ := by
  obtain ⟨result, phase⟩ := isSome_result?_iff.1 h
  unfold handle
  rw [phase]

theorem moves_handle {e : Event}
    (hclosed : ∀ cause, e = .closed cause → p.connection.closed = true) :
    p.Moves (some e) (p.handle e) := by
  unfold handle
  split
  next request purpose phase => exact moves_handleWaiting phase e
  next url phase => exact moves_handleStreaming phase hclosed
  next result phase => exact .ends ⟨rfl, isSome_result?_iff.2 ⟨result, phase⟩, rfl⟩

theorem moves_tick (p : Player) : p.Moves none p.tick := by
  unfold tick
  split
  next url phase =>
    dsimp only
    by_cases hopen : p.connection.CanSend
    · rw [transmit_prepared hopen]
      exact .lives phase hopen
    · have hprepared : ¬(p.prepare (aliveRequest url)).1.connection.CanSend := hopen
      obtain ⟨c, e, htransmit, hshut⟩ := transmit_of_not_canSend hprepared
        (.request (p.prepare (aliveRequest url)).2)
      unfold aliveRequest at htransmit
      rw [htransmit]
      exact .ends (isOver_teardown hshut _ _)
  next => exact .ends (isOver_giveUp p _ _)
  next result phase => exact .ends ⟨rfl, isSome_result?_iff.2 ⟨result, phase⟩, rfl⟩

/-! ## Steps -/

/-- What an input does to the connection, if it acts on that. -/
def Input.action? : Input → Option Connection.Action
  | .arrive bytes => some (.feed bytes)
  | .finish how => some (.finish how)
  | .setWritable writable => some (.setWritable writable)
  | .take | .tick => none

theorem step_of_action {i : Input} {action : Connection.Action} (h : i.action? = some action)
    (p : Player) : p.step i = ⟨p.observe action, none⟩ := by
  cases i <;> cases h <;> rfl

theorem connection_dequeue (p : Player) (i : Input) : (p.dequeue i).connection = p.connection := by
  cases i <;> rfl

theorem dequeue_of_action {i : Input} {action : Connection.Action} (h : i.action? = some action)
    (p : Player) : p.dequeue i = p := by
  cases i <;> cases h <;> rfl

theorem taken?_of_action {i : Input} {action : Connection.Action} (h : i.action? = some action)
    (p : Player) : p.taken? i = none := by
  cases i <;> cases h <;> rfl

/-- What holds of a player between two turns: until playing ends it names itself in its requests,
and once its queue says that the stream is over, the connection is closed. What it waits for is a
response to a draft of its own. -/
structure Valid (p : Player) : Prop where
  agent : p.result? = none → p.connection.userAgent = some productName
  closed : p.result? = none → ∀ e ∈ p.queue, e.isClosed = true → p.connection.closed = true
  draft : ∀ request purpose, p.phase = .waiting request purpose →
    request.IsDraft ∧ request.method = purpose.method

theorem isOver_takeEvent (h : p.result?.isSome) : p.takeEvent.IsOver p.queue.tail := by
  unfold takeEvent
  split
  next hqueue => exact ⟨rfl, h, by rw [hqueue, List.tail_nil]⟩
  next e queue hqueue =>
    have hended : (Player.result? { p with queue }).isSome := h
    rw [handle_of_ended hended]
    exact ⟨rfl, hended, by rw [hqueue, List.tail_cons]⟩

/-- Where nothing acts on the connection, the player moves. -/
theorem Valid.moves_step (h : p.Valid) {i : Input} (hi : i.action? = none) :
    (p.dequeue i).Moves (p.taken? i) (p.step i) := by
  cases i with
  | tick => exact moves_tick p
  | take =>
    by_cases hended : p.result?.isSome
    · exact .ends (isOver_takeEvent hended)
    · have hresult : p.result? = none := Option.not_isSome_iff_eq_none.1 hended
      unfold dequeue taken? step takeEvent
      simp only [hended]
      cases hqueue : p.queue with
      | nil => 
        have hsame : ({ p with queue := [].tail } : Player) = p := by rw [List.tail_nil, ← hqueue]
        rw [hsame]
        exact moves_unchanged p rfl nofun
      | cons e queue =>
        refine moves_handle ?_
        intro cause he
        exact h.closed hresult e (by simp [hqueue]) (by rw [he]; rfl)
  | _ => cases hi

/-- A request of the server is refused wherever something can be sent. -/
theorem step_of_taken?_request {i : Input} {q : Request}
    (h : p.taken? i = some (.message (.request q))) (hopen : p.connection.CanSend) :
    p.step i = ⟨p.dequeue i, some (q.respond 501).encode⟩ := by
  cases i with
  | take =>
    unfold taken? at h
    dsimp only at h
    split at h
    next => cases h
    next hrunning =>
      obtain ⟨queue, hqueue⟩ := List.head?_eq_some_iff.1 h
      have hrefuse : Player.refuse { p with queue } q
          = ({ p with queue }, .ok (q.respond 501).encode) := by
        have hsend := Connection.send_response_of_canSend hopen (q.respond 501)
        unfold refuse transmit
        dsimp only
        rw [hsend]
        rfl
      change p.takeEvent = ⟨{ p with queue := p.queue.tail }, _⟩
      unfold takeEvent handle
      rw [hqueue]
      dsimp only [List.tail_cons]
      cases hphase : p.phase with
      | finished result => exact absurd (isSome_result?_iff.2 ⟨result, hphase⟩) hrunning
      | waiting draft purpose =>
        rw [hphase] at hrefuse
        unfold handleWaiting
        simp only [hrefuse]
      | streaming url =>
        rw [hphase] at hrefuse
        unfold handleStreaming
        simp only [hrefuse]
  | _ => cases h

/-! ### What steps keep -/

theorem Streams.running {e : Option Event} {url : String} (h : p.Streams url e) :
    p.result? = none := by
  cases h with
  | streaming phase => exact result?_of_streaming phase
  | playing phase => exact result?_of_waiting phase

theorem Prompts.running {q : Player} {e : Option Event} {purpose : Purpose} {r : Request}
    (h : p.Prompts e q purpose r) : p.result? = none := by
  cases h with
  | teardown streams => exact streams.running
  | again phase | describe phase | setUp phase | setUpNext phase | play phase =>
    exact result?_of_waiting phase

theorem Moves.queue {e : Option Event} {t : Turn} (h : p.Moves e t) :
    t.player.queue = p.queue := by
  cases h with
  | ends isOver => exact isOver.queue
  | stays | plays | refuses | lives => rfl
  | asks prompt => exact prompt.queue

theorem Valid.observe (h : p.Valid) (action : Connection.Action) : (p.observe action).Valid where
  agent hrunning := (Connection.userAgent_step _ _).trans (h.agent hrunning)
  closed hrunning e he hclosed := by
    rcases List.mem_append.1 he with hold | hnew
    · have hstep := h.closed hrunning e hold hclosed
      exact Connection.closed_step_of_closed hstep action
    · exact Connection.closed_step_of_mem_events hnew hclosed
  draft := h.draft

theorem Valid.dequeue (h : p.Valid) (i : Input) : (p.dequeue i).Valid := by
  cases i with
  | take =>
    exact ⟨h.agent, fun hrunning e he => h.closed hrunning e (List.mem_of_mem_tail he), h.draft⟩
  | _ => exact h

theorem valid_of_ended {p : Player} (h : p.result?.isSome) : p.Valid := by
  obtain ⟨result, phase⟩ := isSome_result?_iff.1 h
  have hended : p.result? ≠ none := fun hrunning => by
    rw [hrunning] at h
    cases h
  exact ⟨fun hrunning => absurd hrunning hended, fun hrunning => absurd hrunning hended,
    fun request purpose hwaiting => nomatch phase.symm.trans hwaiting⟩

theorem Moves.valid {e : Option Event} {t : Turn} (hmoves : p.Moves e t) (h : p.Valid) :
    t.player.Valid := by
  cases hmoves with
  | ends isOver => exact valid_of_ended isOver.ended
  | stays | refuses => exact ⟨h.agent, h.closed, h.draft⟩
  | lives phase =>
    have hrunning := result?_of_streaming phase
    exact ⟨fun _ => h.agent hrunning, fun _ => h.closed hrunning, h.draft⟩
  | plays phase ok =>
    have hrunning := result?_of_waiting phase
    exact ⟨fun _ => h.agent hrunning, fun _ => h.closed hrunning,
      fun _ _ hwaiting => nomatch hwaiting⟩
  | @asks _ q _ r prompt opened =>
    have hrunning := prompt.running
    have hconnection := prompt.connection
    refine ⟨fun _ => ?_, fun _ e he hclosed => ?_, fun request purpose hwaiting => ?_⟩
    · exact (congrArg Connection.userAgent hconnection).trans (h.agent hrunning)
    · have hp := h.closed hrunning e (prompt.queue ▸ he) hclosed
      exact (congrArg Connection.closed hconnection).trans hp
    · obtain ⟨rfl, rfl⟩ := Phase.waiting.inj hwaiting
      exact prompt.draft h.draft

theorem Valid.step (h : p.Valid) (i : Input) : (p.step i).player.Valid := by
  cases hi : i.action? with
  | some action =>
    rw [step_of_action hi]
    exact h.observe action
  | none => exact (h.moves_step hi).valid (h.dequeue i)

end

end Player
end Rtsp
