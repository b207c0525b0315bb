-- SUMMARY: A server accepts what a player writes once it has answered the server's challenge.
import Rtsp.Proofs.Authorization.Answer
import Rtsp.Proofs.Connection.Values
import Rtsp.Proofs.Framing.Delivery
import Rtsp.Proofs.Player.Record

/-!
# Authorized runs

Every message that a player writes is one unit for the server, so the server finds each request in
its place. Once the player has accepted the challenge of a server that has its credentials, it
writes an answer into each request, one for each count from one on (`Player.Counts`). The answer
goes through the numbering, the headers and the framing as it is, so the server finds the request
valid (`Player.transcript_authorized`).
-/

namespace Rtsp

open Text Authorization

/-! ## Drafts -/

namespace Request.IsDraft

variable {r : Request}

theorem readable (h : r.IsDraft) : r.headers.Readable := by
  rcases h.headers with hnone | ⟨name, hname, value, hvalue, hone⟩
  · rw [hnone]
    exact Headers.readable_empty
  · have hfield : ∀ name ∈ ["Accept", "Transport"], Headers.IsField (name, "") := by decide
    rw [hone]
    exact Headers.readable_empty.set ((hfield name hname).with_value hvalue)

theorem wellFormed_startLine (h : r.IsDraft) (huri : IsWord r.uri.toList) :
    r.startLine.WellFormed := by
  have htoken : ∀ m ∈ Method.known, IsWord m.token.toList ∧ m.token.toList.head? ≠ some '$' := by
    decide
  obtain ⟨hword, hdollar⟩ := htoken r.method h.method
  refine ⟨hword, hdollar, huri, ?_⟩
  rw [h.version]
  decide

/-- All methods are short. -/
theorem length_startLine_le (h : r.IsDraft) :
    (Utf8.encode (r.startLine.text ++ "\r\n")).length ≤ (Utf8.encode r.uri).length + 25 := by
  have htoken : ∀ m ∈ Method.known, (Utf8.encode m.token).length ≤ 13 := by decide
  have hmethod := htoken r.method h.method
  have hfixed : (Utf8.encode " ").length = 1 ∧ (Utf8.encode "\r\n").length = 2
      ∧ (Utf8.encode protocolVersion).length = 8 := by decide
  unfold startLine StartLine.text
  rw [h.version]
  simp only [Utf8.encode_append, List.length_append]
  omega

end Request.IsDraft

namespace Player

/-! ## Messages on the wire -/

section

variable {p : Player} {r : Request}

theorem wire_eq (p : Player) (r : Request) :
    p.wire r = { r with headers := (p.wire r).headers } := by
  unfold wire prepare Connection.wireRequest
  cases p.auth <;> rfl

theorem get?_wire_authorization :
    (p.wire r).headers.get? "Authorization" = (p.authorized r).headers.get? "Authorization" := by
  refine (p.connection.get?_wireRequest _ (by decide) (by decide)).trans ?_
  rw [headers_prepare]
  cases p.session with
  | none => rfl
  | some id => exact Headers.get?_setIfAbsent_of_ne (by decide) _ id

theorem readable_wire (hagent : p.connection.userAgent = some productName)
    (hsession : ∀ id, p.session = some id → Headers.IsValue id)
    (h : (p.authorized r).headers.Readable) : (p.wire r).headers.Readable := by
  have hname : Headers.IsField ("Session", "") := by decide
  have hprepared : (p.prepare r).2.headers.Readable := by
    rw [headers_prepare]
    cases hid : p.session with
    | none => exact h
    | some id => exact h.setIfAbsent (hname.with_value (hsession id hid))
  refine p.connection.readable_wireRequest _ ?_ hprepared
  rw [hagent]
  decide

/-- A request is one unit. With an answer in it, it is read as itself, because then its start line
is not the longest. -/
theorem exists_isWire_wire (hdraft : r.IsDraft) (huri : IsWord r.uri.toList)
    (hreadable : (p.wire r).headers.Readable)
    (hlines : ∀ e ∈ (p.wire r).headers.written, (Headers.encodeEntry e).length ≤ Line.limit) :
    ∃ unit, Chunk.IsWire (p.wire r).encode unit
      ∧ ∀ (d : DigestAuth) (count : UInt32), (p.wire r).headers.get? "Authorization"
          = some (d.answer count r.method.token r.uri r.body) →
        unit = .message (Message.request (p.wire r)).received := by
  have hwire := p.wire_eq r
  have hstart : (p.wire r).startLine = r.startLine := by rw [hwire]; rfl
  have hbody : (p.wire r).body = [] := by rw [hwire]; exact hdraft.body
  have hnumbered := p.connection.get?_wireRequest_cseq (p.prepare r).2
  obtain ⟨e, he, -⟩ := Headers.exists_mem_written_of_get? (by decide) hnumbered
  obtain ⟨unit, hunit, hfits⟩ := Chunk.exists_isWire_request
    (hstart ▸ hdraft.wellFormed_startLine huri) ⟨hreadable.fields, hreadable.distinct, hlines⟩
    hbody (List.ne_nil_of_mem he)
  refine ⟨unit, hunit, fun d count hcarried => hfits ?_⟩
  obtain ⟨e, he, hvalue⟩ := Headers.exists_mem_written_of_get? (by decide) hcarried
  have hline := hlines e he
  have hentry := Headers.length_value_add_le e
  have hanswer : (Utf8.encode r.uri).length + 21 ≤ (Utf8.encode e.2).length := by
    rw [hvalue]
    exact DigestAuth.length_uri_add_le_length_answer
  have hlength := hdraft.length_startLine_le
  rw [hstart]
  omega

/-- A refusal is one unit. -/
theorem isWire_respond {q : Request} (h : q.headers.Tidy)
    (hlines : ∀ e ∈ (q.respond 501).headers.written,
      (Headers.encodeEntry e).length ≤ Line.limit) :
    Chunk.IsWire (q.respond 501).encode (.message (Message.response (q.respond 501)).received) := by
  have hreason : StartLine.IsReason (Status.reason 501) :=
    ⟨["Not".toList, "Implemented".toList], by decide, by decide, by decide⟩
  have hreadable := q.readable_respond h 501
  have hwell : (Message.response (q.respond 501)).WellFormed := {
    startLine := ⟨(by decide : StartLine.isVersion protocolVersion.toList),
      (by decide : Status.isValid 501), hreason⟩
    headers := ⟨hreadable.fields, hreadable.distinct, hlines⟩
    fits := (by decide : (Utf8.encode ((StartLine.response protocolVersion 501
      (Status.reason 501)).text ++ "\r\n")).length ≤ Line.limit)
    body_le := Nat.zero_le _ }
  exact Chunk.read_encode_message hwell true

end

end Player

/-! ## Answers -/

namespace Record

/-- The request that was written, if a challenge was accepted by then. -/
def authorized? (r : Record) : Option Request :=
  if r.turn.player.auth.isSome then r.request? else none

/-- In this turn the player meets the server, and writes what can be read: a request names its
resource by a word without quotes, and the lines of all headers fit. -/
structure IsFair (r : Record) (server : DigestAuth) : Prop where
  challenge : ∀ response ∈ r.returned?, response.status = 401 →
    response.headers.get? "WWW-Authenticate" = some server.challenge
  uri : ∀ w ∈ r.request?, IsWord w.uri.toList ∧ '"' ∉ w.uri.toList
  lines : ∀ m ∈ r.message?, ∀ e ∈ m.headers.written,
    (Headers.encodeEntry e).length ≤ Line.limit

-- The size of a line is computed without its bytes.
instance (r : Record) (server : DigestAuth) : Decidable (r.IsFair server) :=
  decidable_of_iff ((∀ response ∈ r.returned?, response.status = 401 →
      response.headers.get? "WWW-Authenticate" = some server.challenge)
    ∧ (∀ w ∈ r.request?, IsWord w.uri.toList ∧ '"' ∉ w.uri.toList)
    ∧ ∀ m ∈ r.message?, ∀ e ∈ m.headers.written,
      (Headers.fieldLine e ++ "\r\n").utf8ByteSize ≤ Line.limit) <| by
    simp only [← Utf8.length_encode, ← Headers.encodeEntry_eq]
    exact ⟨fun ⟨challenge, uri, lines⟩ => ⟨challenge, uri, lines⟩,
      fun h => ⟨h.challenge, h.uri, h.lines⟩⟩

end Record

namespace Player

/-- The requests that were written after a challenge was accepted. -/
def authorizedRequests (rs : List Record) : List Request :=
  rs.filterMap Record.authorized?

/-- What was written is one unit, and a request with an answer is accepted under its number. -/
def Delivers (server client : DigestAuth) (rs : List Record) (r : Record) : Prop :=
  ∀ bytes, r.turn.written = some bytes → ∃ unit, Chunk.IsWire bytes unit
    ∧ ∀ w, r.authorized? = some w → (authorizedRequests rs).length + 1 < 2 ^ 32 →
      ∃ q, unit = .message (.request q) ∧ (Message.request w).received = .request q
        ∧ q.IsAccepted server client ((authorizedRequests rs).length + 1)

/-- The authorization of a player after these turns: none yet, or that of the client, which has
counted all requests since it was made. -/
inductive Counts (client : DigestAuth) (draws : Draws) (rs : List Record) (p : Player) : Prop where
  | unauthorized (auth : p.auth = none) (unused : p.draws = draws)
    (nothing : authorizedRequests rs = [])
  | authorized {earlier : List Request}
    (auth : p.auth = some ((Authentication.digest client).after earlier))
    (count : earlier.length = (authorizedRequests rs).length)

section

variable {server client : DigestAuth} {draws : Draws} {rs : List Record} {r : Record}
  {p q : Player} {e : Option Event} {draft : Request}

theorem authorizedRequests_concat (rs : List Record) (r : Record) :
    authorizedRequests (rs ++ [r]) = authorizedRequests rs ++ r.authorized?.toList := by
  unfold authorizedRequests
  rw [List.filterMap_append]
  cases hr : r.authorized? <;> simp [hr]

theorem authorized?_of_request?_eq_none (h : r.request? = none) : r.authorized? = none := by
  unfold Record.authorized?
  rw [h, ite_self]

/-- Requests get no answer, or the one for the next number. -/
theorem Counts.authorized_eq (h : Counts client draws rs p)
    (hclient : client.IsClientOf server draws) (r : Request) :
    (p.auth = none ∧ p.authorized r = r) ∨ (p.auth.isSome ∧ p.authorized r
      = r.setHeader "Authorization" (client.answer
        (UInt32.ofNat ((authorizedRequests rs).length + 1)) r.method.token r.uri r.body)) := by
  unfold Player.authorized
  cases h with
  | unauthorized auth => exact .inl ⟨auth, by rw [auth]⟩
  | @authorized earlier auth count =>
    right
    rw [auth]
    refine ⟨rfl, ?_⟩
    dsimp only
    rw [Authentication.authorize_after, hclient.unused, UInt32.zero_add, count]

theorem Counts.get?_wire (h : Counts client draws rs p) (hclient : client.IsClientOf server draws)
    (hauth : p.auth.isSome) (r : Request) :
    (p.wire r).headers.get? "Authorization" = some (client.answer
      (UInt32.ofNat ((authorizedRequests rs).length + 1)) r.method.token r.uri r.body) := by
  rw [get?_wire_authorization]
  rcases h.authorized_eq hclient r with ⟨hnone, -⟩ | ⟨-, heq⟩
  · rw [hnone] at hauth
    cases hauth
  · rw [heq]
    exact Headers.get?_set_self _ _ _

theorem Counts.readable_authorized (h : Counts client draws rs p)
    (hclient : client.IsClientOf server draws) (hdraft : draft.IsDraft)
    (huri : IsQuotable draft.uri) : (p.authorized draft).headers.Readable := by
  rcases h.authorized_eq hclient draft with ⟨-, heq⟩ | ⟨-, heq⟩
  · rw [heq]
    exact hdraft.readable
  · have hname : Headers.IsField ("Authorization", "") := by decide
    rw [heq]
    exact hdraft.readable.set
      (hname.with_value (DigestAuth.isValue_answer hclient.presentable huri))

/-- A request that is written is delivered, and accepted if it has an answer. -/
theorem Counts.delivers (h : Counts client draws rs p) (hclient : client.IsClientOf server draws)
    (hagent : p.connection.userAgent = some productName)
    (hsession : ∀ id, p.session = some id → Headers.IsValue id) (hdraft : draft.IsDraft)
    (hrequest : r.request? = some (p.wire draft))
    (hwritten : r.turn.written = some (p.wire draft).encode)
    (hauth : r.turn.player.auth = (p.sent draft).auth) (hfair : r.IsFair server) :
    Delivers server client rs r := by
  have hwire := p.wire_eq draft
  have hsame : (p.wire draft).uri = draft.uri := by rw [hwire]
  have huri := hfair.uri _ hrequest
  have hlines := hfair.lines _ (Record.message?_of_request? hrequest)
  rw [hsame] at huri
  obtain ⟨hword, hquote⟩ := huri
  have hquotable : IsQuotable draft.uri :=
    ⟨hquote, fun hfeed => absurd (hword.2 _ hfeed) (by decide)⟩
  have hreadable := readable_wire hagent hsession (h.readable_authorized hclient hdraft hquotable)
  obtain ⟨unit, hunit, hself⟩ := exists_isWire_wire hdraft hword hreadable hlines
  intro bytes hbytes
  obtain rfl := Option.some.inj (hwritten.symm.trans hbytes)
  refine ⟨unit, hunit, fun w hw hfew => ?_⟩
  unfold Record.authorized? at hw
  split at hw
  next hsome =>
    obtain rfl := Option.some.inj (hrequest.symm.trans hw)
    rw [hauth, auth_sent, Option.isSome_map] at hsome
    have hcarried := h.get?_wire hclient hsome draft
    have hreceived : ((p.wire draft).headers.received (p.wire draft).body).get? "Authorization"
        = (p.wire draft).headers.get? "Authorization" := Headers.get?_received (by decide) _ _
    have hmethod : (Method.ofToken (p.wire draft).method.token).token = draft.method.token := by
      rw [Method.token_ofToken, method_wire]
    have hbody : (p.wire draft).body = draft.body := by rw [hwire]
    exact ⟨_, hself _ _ hcarried, rfl, hclient.isAccepted hfew hquote (hreceived.trans hcarried)
      hmethod hsame hbody⟩
  next => cases hw

/-! ## Turns -/

theorem Counts.of_eq {rs' : List Record} (h : Counts client draws rs p)
    (hrs : authorizedRequests rs' = authorizedRequests rs) (hauth : q.auth = p.auth)
    (hdraws : q.draws = p.draws) : Counts client draws rs' q := by
  cases h with
  | unauthorized auth unused nothing =>
    exact .unauthorized (hauth.trans auth) (hdraws.trans unused) (hrs.trans nothing)
  | authorized auth count =>
    exact .authorized (hauth.trans auth) (count.trans (congrArg List.length hrs.symm))

/-- The challenge that is accepted is that of the server. -/
theorem Counts.prompts (h : Counts client draws rs p) (hclient : client.IsClientOf server draws)
    (hknown : p.credentials = some client.credentials) {purpose : Purpose}
    (prompt : p.Prompts e q purpose draft) {input : Option Input} {t : Turn}
    (hfair : Record.IsFair ⟨p, input, e, t⟩ server) : Counts client draws rs q := by
  cases prompt with
  | again phase status fresh known carried accepted =>
    cases h with
    | unauthorized auth unused nothing =>
      have hcarried := hfair.challenge _ (by unfold Record.returned?; simp only [phase]; rfl) status
      obtain rfl := Option.some.inj (carried.symm.trans hcarried)
      obtain rfl := Option.some.inj (known.symm.trans hknown)
      obtain ⟨rest, haccepted⟩ := hclient.accepted
      rw [unused, haccepted] at accepted
      obtain ⟨rfl, -⟩ := Prod.mk.inj (Except.ok.inj accepted)
      exact @Counts.authorized _ _ _ _ [] rfl (by rw [nothing])
    | authorized auth =>
      rw [auth] at fresh
      cases fresh
  | describe | setUp => exact h
  | setUpNext | play | teardown => exact h.of_eq rfl rfl rfl

/-- A request that is written counts if it has an answer. -/
theorem Counts.sent (h : Counts client draws rs p) (hrequest : r.request? = some (p.wire draft))
    (hauth : r.turn.player.auth = (p.sent draft).auth) (hdraws : r.turn.player.draws = p.draws) :
    Counts client draws (rs ++ [r]) r.turn.player := by
  rw [auth_sent] at hauth
  cases h with
  | unauthorized auth unused nothing =>
    rw [auth] at hauth
    have hnone : r.authorized? = none := by
      unfold Record.authorized?
      rw [hauth]
      rfl
    refine .unauthorized hauth (hdraws.trans unused) ?_
    rw [authorizedRequests_concat, hnone, nothing]
    rfl
  | @authorized earlier auth count =>
    rw [auth] at hauth
    have hsome : r.authorized? = some (p.wire draft) := by
      unfold Record.authorized?
      rw [hauth, hrequest]
      rfl
    have hafter : r.turn.player.auth
        = some ((Authentication.digest client).after (earlier ++ [draft])) := by
      unfold Authentication.after
      rw [List.foldl_append]
      exact hauth
    refine .authorized hafter ?_
    rw [authorizedRequests_concat, hsome, List.length_append, List.length_append, count]
    rfl

/-- What a player has to hold so that its next request can be read. -/
structure Ready (client : DigestAuth) (draws : Draws) (rs : List Record) (p : Player) : Prop where
  session : ∀ id, p.session = some id → Headers.IsValue id
  known : p.credentials = some client.credentials
  counts : Counts client draws rs p

theorem Ready.of_eq {rs' : List Record} (h : Ready client draws rs p)
    (hrs : authorizedRequests rs' = authorizedRequests rs) (hsession : q.session = p.session)
    (hknown : q.credentials = p.credentials) (hauth : q.auth = p.auth)
    (hdraws : q.draws = p.draws) : Ready client draws rs' q where
  session id hid := h.session id (hsession.symm.trans hid)
  known := hknown.trans h.known
  counts := h.counts.of_eq hrs hauth hdraws

theorem Ready.prompts (h : Ready client draws rs p) (hclient : client.IsClientOf server draws)
    (htidy : ∀ event ∈ e, event.IsTidy) {purpose : Purpose} (prompt : p.Prompts e q purpose draft)
    {input : Option Input} {t : Turn} (hfair : Record.IsFair ⟨p, input, e, t⟩ server) :
    Ready client draws rs q where
  session id hid := by
    have hgiven : ∀ response, e = some (.message (.response response)) →
        (p.session <|> response.sessionId?) = some id → Headers.IsValue id := by
      rintro response rfl hid
      cases hold : p.session with
      | some old =>
        rw [hold] at hid
        exact h.session id (hold.trans hid)
      | none =>
        rw [hold] at hid
        exact (htidy _ rfl).isValue_sessionId hid
    cases prompt with
    | again | describe | setUp | teardown => exact h.session id hid
    | setUpNext | play => exact hgiven _ rfl hid
  known := by cases prompt <;> exact h.known
  counts := h.counts.prompts hclient h.known prompt hfair

/-- What holds of a run and of the player that it has led to, where this event was taken already. -/
structure Answers (server client : DigestAuth) (draws : Draws) (rs : List Record)
    (e : Option Event) (p : Player) : Prop where
  valid : p.Valid
  tidy : ∀ event ∈ e.toList ++ p.queue, event.IsTidy
  ready : p.result? = none → (∀ s ∈ rs, s.IsFair server) → Ready client draws rs p

theorem Answers.dequeue (h : Answers server client draws rs none p) (i : Input) :
    Answers server client draws rs (p.taken? i) (p.dequeue i) := by
  have hphase : (p.dequeue i).phase = p.phase := by cases i <;> rfl
  refine ⟨h.valid.dequeue i, fun event he => ?_, fun hrunning hrs => ?_⟩
  · exact h.tidy event ((p.dequeue_sublist i).subset he)
  · have hready := h.ready ((result?_congr hphase) ▸ hrunning) hrs
    exact hready.of_eq rfl (by cases i <;> rfl) (by cases i <;> rfl) (by cases i <;> rfl)
      (by cases i <;> rfl)

theorem delivers_of_written_eq_none (h : r.turn.written = none) : Delivers server client rs r := by
  intro bytes hbytes
  rw [h] at hbytes
  cases hbytes

/-- A turn in which no request is written. -/
theorem Answers.silent (h : Answers server client draws rs e p) (hvalid : q.Valid)
    (hrunning : q.result? = none → p.result? = none) (htidy : ∀ event ∈ q.queue, event.IsTidy)
    (hsession : q.session = p.session) (hknown : q.credentials = p.credentials)
    (hauth : q.auth = p.auth) (hdraws : q.draws = p.draws) (hrequest : r.request? = none) :
    Answers server client draws (rs ++ [r]) none q := by
  have hrs : authorizedRequests (rs ++ [r]) = authorizedRequests rs := by
    rw [authorizedRequests_concat, authorized?_of_request?_eq_none hrequest]
    exact List.append_nil _
  refine ⟨hvalid, htidy, fun hq hfair => ?_⟩
  have hready := h.ready (hrunning hq) fun s hs => hfair s (List.mem_append_left _ hs)
  exact hready.of_eq hrs hsession hknown hauth hdraws

/-- A request is written. -/
theorem answers_of_sent (hclient : client.IsClientOf server draws)
    (hready : (∀ s ∈ rs ++ [r], s.IsFair server) → Ready client draws rs q)
    (hagent : q.connection.userAgent = some productName) (hdraft : draft.IsDraft)
    (hrequest : r.request? = some (q.wire draft))
    (hwritten : r.turn.written = some (q.wire draft).encode) (hvalid : r.turn.player.Valid)
    (htidy : ∀ event ∈ r.turn.player.queue, event.IsTidy)
    (hsession : r.turn.player.session = q.session)
    (hknown : r.turn.player.credentials = q.credentials)
    (hauth : r.turn.player.auth = (q.sent draft).auth) (hdraws : r.turn.player.draws = q.draws) :
    Answers server client draws (rs ++ [r]) none r.turn.player
      ∧ ((∀ s ∈ rs ++ [r], s.IsFair server) → Delivers server client rs r) := by
  refine ⟨⟨hvalid, htidy, fun _ hfair => ?_⟩, fun hfair => ?_⟩
  · obtain ⟨hvalue, hcredentials, hcounts⟩ := hready hfair
    exact ⟨fun id hid => hvalue id (hsession.symm.trans hid), hknown.trans hcredentials,
      hcounts.sent hrequest hauth hdraws⟩
  · obtain ⟨hvalue, -, hcounts⟩ := hready hfair
    exact hcounts.delivers hclient hagent hvalue hdraft hrequest hwritten hauth
      (hfair r (List.mem_append_right _ List.mem_cons_self))

/-- What holds of the turns so far holds with the next one, and that delivers what it writes. -/
theorem Answers.moves (h : Answers server client draws rs e p)
    (hclient : client.IsClientOf server draws) {t : Turn} (hmoves : p.Moves e t)
    (input : Option Input) :
    Answers server client draws (rs ++ [⟨p, input, e, t⟩]) none t.player
      ∧ ((∀ s ∈ rs ++ [⟨p, input, e, t⟩], s.IsFair server) →
        Delivers server client rs ⟨p, input, e, t⟩) := by
  have hvalid := hmoves.valid h.valid
  have htidy : ∀ event ∈ t.player.queue, event.IsTidy := by
    rw [hmoves.queue]
    exact fun event he => h.tidy event (List.mem_append_right _ he)
  have hlast : (∀ s ∈ rs ++ [⟨p, input, e, t⟩], s.IsFair server) →
      (∀ s ∈ rs, s.IsFair server) ∧ Record.IsFair ⟨p, input, e, t⟩ server := by
    intro hall
    exact ⟨fun s hs => hall s (List.mem_append_left _ hs),
      hall _ (List.mem_append_right _ List.mem_cons_self)⟩
  cases hmoves with
  | ends isOver =>
    refine ⟨⟨hvalid, htidy, fun hrunning => ?_⟩,
      fun _ => delivers_of_written_eq_none isOver.written⟩
    have hended := isOver.ended
    rw [hrunning] at hended
    cases hended
  | stays =>
    exact ⟨h.silent hvalid id htidy rfl rfl rfl rfl (Record.request?_of_written_eq_none rfl),
      fun _ => delivers_of_written_eq_none rfl⟩
  | plays phase =>
    have hrunning := result?_of_waiting phase
    exact ⟨h.silent hvalid (fun _ => hrunning) htidy rfl rfl rfl rfl
      (Record.request?_of_written_eq_none rfl), fun _ => delivers_of_written_eq_none rfl⟩
  | @refuses q running opened =>
    have hnone := Record.request?_of_nextCseq_eq
      (r := ⟨p, input, some (.message (.request q)), ⟨p, some (q.respond 501).encode⟩⟩) rfl
    refine ⟨h.silent hvalid id htidy rfl rfl rfl rfl hnone, fun hfair bytes hbytes => ?_⟩
    obtain rfl := Option.some.inj hbytes
    have hq : q.headers.Tidy := h.tidy (.message (.request q)) List.mem_cons_self
    have hlines := (hlast hfair).2.lines _ (Record.message?_of_refused q input)
    refine ⟨_, isWire_respond hq hlines, fun w hw => ?_⟩
    rw [authorized?_of_request?_eq_none hnone] at hw
    cases hw
  | @lives url phase opened =>
    have hrunning := result?_of_streaming phase
    exact answers_of_sent hclient (fun hfair => h.ready hrunning (hlast hfair).1)
      (h.valid.agent hrunning) (isDraft_of_no_headers (by decide) url)
      (Record.request?_of_alive _ none input) rfl hvalid htidy rfl rfl rfl rfl
  | @asks _ q purpose request prompt opened =>
    have hrunning := prompt.running
    have hagent := (congrArg Connection.userAgent prompt.connection).trans (h.valid.agent hrunning)
    have htaken : ∀ event ∈ e, event.IsTidy := fun event he =>
      h.tidy event (List.mem_append_left _ (Option.mem_toList.2 he))
    refine answers_of_sent hclient (fun hfair => ?_) hagent (prompt.draft h.valid.draft).1
      (Record.request?_of_prompts prompt input) rfl hvalid htidy rfl rfl rfl rfl
    obtain ⟨hrs, hturn⟩ := hlast hfair
    exact (h.ready hrunning hrs).prompts hclient htaken prompt hturn

theorem Answers.step (h : Answers server client draws rs none p)
    (hclient : client.IsClientOf server draws) (i : Input) :
    Answers server client draws (rs ++ [⟨p.dequeue i, some i, p.taken? i, p.step i⟩]) none
        (p.step i).player
      ∧ ((∀ s ∈ rs ++ [⟨p.dequeue i, some i, p.taken? i, p.step i⟩], s.IsFair server) →
        Delivers server client rs ⟨p.dequeue i, some i, p.taken? i, p.step i⟩) := by
  cases hi : i.action? with
  | none => exact (h.dequeue i).moves hclient (h.valid.moves_step hi) (some i)
  | some action =>
    rw [dequeue_of_action hi, taken?_of_action hi, step_of_action hi]
    have htidy : ∀ event ∈ (p.observe action).queue, event.IsTidy := by
      intro event he
      rcases List.mem_append.1 he with hold | hnew
      · exact h.tidy event hold
      · exact Connection.isTidy_of_mem_events hnew
    exact ⟨h.silent (h.valid.observe action) id htidy rfl rfl rfl rfl
      (Record.request?_of_written_eq_none rfl), fun _ => delivers_of_written_eq_none rfl⟩

theorem IsFresh.answers_start (h : p.IsFresh) (hclient : client.IsClientOf server p.draws)
    (hknown : p.credentials = some client.credentials) (address : String) :
    let r : Record := { before := p, turn := p.start address }
    Answers server client p.draws ([] ++ [r]) none (p.start address).player
      ∧ ((∀ s ∈ [] ++ [r], s.IsFair server) → Delivers server client [] r) := by
  have hstart := h.start_eq address
  have hready : Ready client p.draws [] (p.begun address) := {
    session := fun id hid => absurd (h.session.symm.trans hid) nofun
    known := hknown
    counts := .unauthorized h.auth rfl rfl }
  have hqueue : (p.start address).player.queue = [] := by
    rw [hstart]
    exact h.queue
  exact answers_of_sent hclient (fun _ => hready) rfl (isDraft_of_no_headers (by decide) p.url)
    (h.request?_start address) (by rw [hstart]) (h.valid_start address)
    (by rw [hqueue]; exact fun _ he => absurd he List.not_mem_nil) (by rw [hstart]; rfl)
    (by rw [hstart]; rfl) (by rw [hstart]; rfl) (by rw [hstart]; rfl)

/-! ## Runs -/

/-- The messages that were written. -/
def written (rs : List Record) : List Bytes :=
  rs.filterMap (·.turn.written)

theorem written_append_cons {before after : List Record} {bytes : Bytes}
    (h : r.turn.written = some bytes) :
    written (before ++ r :: after) = written before ++ bytes :: written after := by
  simp [written, h]

theorem IsFresh.delivers (h : p.IsFresh) (hclient : client.IsClientOf server p.draws)
    (hknown : p.credentials = some client.credentials) {address : String} {inputs : List Input}
    {before after : List Record} (hrs : p.transcript address inputs = before ++ r :: after)
    (hfair : ∀ s ∈ p.transcript address inputs, s.IsFair server) :
    Delivers server client before r := by
  obtain ⟨hanswers, hdelivers⟩ := h.answers_start hclient hknown address
  refine transcript_forall (motive := fun rs q => Answers server client p.draws rs none q)
    (fun before r => (∀ s ∈ before ++ [r], s.IsFair server) → Delivers server client before r)
    hanswers hdelivers (fun _ _ i h => h.step hclient i) inputs before r after hrs
    fun s hs => hfair s ?_
  rw [hrs, List.append_cons]
  exact List.mem_append_left _ hs

theorem exists_isWire_of_delivers (h : ∀ before r after, rs = before ++ r :: after →
    Delivers server client before r) : ∀ wire ∈ written rs, ∃ unit, Chunk.IsWire wire unit := by
  intro wire hwire
  obtain ⟨r, hr, hwritten⟩ := List.mem_filterMap.1 hwire
  obtain ⟨before, after, hrs⟩ := List.append_of_mem hr
  obtain ⟨unit, hunit, -⟩ := h before r after hrs wire hwritten
  exact ⟨unit, hunit⟩

theorem length_authorizedRequests_lt {w : Request} (hw : r.authorized? = some w)
    (before after : List Record) :
    (authorizedRequests before).length < (authorizedRequests (before ++ r :: after)).length := by
  unfold authorizedRequests
  rw [List.filterMap_append, List.filterMap_cons_some hw, List.length_append, List.length_cons]
  omega

end

/-- A player meets a server that has its credentials, and gets its challenge wherever it is asked
for an authorization. Then the server finds one unit on the stream for each message that the player
writes. Where that is a request written after the challenge was accepted, the server finds the
request there and accepts it; under a protection it reads the numbers of these requests, from one
on, with one nonce of the client. The numerals of such numbers are in their order. -/
theorem transcript_authorized (options : Options) (target : Target) (draws : Draws)
    (address : String) (inputs : List Input) {credentials : Credentials} {realm : String}
    (qop : Option Qop) (drawn : Draws)
    (hknown : (ofOptions options target draws).credentials = some credentials)
    (hname : IsQuotable credentials.username) (hrealm : IsQuotable realm) :
    let server := (DigestAuth.server credentials realm qop drawn).1
    let rs := (ofOptions options target draws).transcript address inputs
    (∀ r ∈ rs, r.IsFair server) → (authorizedRequests rs).length < 2 ^ 32 →
    ∃ units clientNonce, Chunk.run true (written rs).flatten = ⟨units, .finished, []⟩
      ∧ units.length = (written rs).length
      ∧ (∀ before r after w, rs = before ++ r :: after → r.authorized? = some w →
        ∃ q, units[(written before).length]? = some (.message (.request q))
          ∧ (Message.request w).received = .request q ∧ server.isValid q = true
          ∧ (qop.isSome → q.authorizationField? "nc"
              = some (hex 8 ((authorizedRequests before).length + 1))
            ∧ q.authorizationField? "cnonce" = some clientNonce))
      ∧ ∀ m n, m < n → n ≤ (authorizedRequests rs).length → hex 8 m < hex 8 n := by
  intro server rs hfair hfew
  have hclient : (server.client credentials draws).IsClientOf server draws :=
    DigestAuth.isClientOf_server hname hrealm qop drawn draws
  have hturn : ∀ before r after, rs = before ++ r :: after →
      Delivers server (server.client credentials draws) before r := by
    intro before r after hrs
    exact (isFresh_ofOptions options target draws).delivers hclient hknown hrs hfair
  obtain ⟨units, hrun, hlength, hplace⟩ :=
    Chunk.exists_run_flatten (exists_isWire_of_delivers hturn)
  refine ⟨units, (server.client credentials draws).clientNonce, hrun, hlength,
    fun before r after w hrs hw => ?_, fun m n hlt hle => ?_⟩
  · obtain ⟨bytes, hwritten⟩ : ∃ bytes, r.turn.written = some bytes := by
      refine Option.ne_none_iff_exists'.1 fun hnone => ?_
      rw [authorized?_of_request?_eq_none (Record.request?_of_written_eq_none hnone)] at hw
      cases hw
    obtain ⟨unit, hunit, haccepted⟩ := hturn before r after hrs bytes hwritten
    have hcount := length_authorizedRequests_lt hw before after
    rw [← hrs] at hcount
    obtain ⟨q, rfl, hreceived, hvalid, hcounted⟩ := haccepted w hw (by omega)
    have hsplit : written rs = written before ++ bytes :: written after := by
      rw [hrs]
      exact written_append_cons hwritten
    exact ⟨q, hplace _ _ _ _ hsplit hunit, hreceived, hvalid, hcounted⟩
  · exact hex_lt_hex (by decide) hlt (Nat.lt_of_le_of_lt hle hfew)

/-- The first request is repeated on a challenge. -/
theorem transcript_authorized_options :
    let options : Options := { url := "rtsp://c/", user := some "u" }
    let target : Target := ⟨"c:554", none, "rtsp://c/"⟩
    let server := (DigestAuth.server ⟨"u", ""⟩ "r" (some .auth) [5]).1
    let p := ofOptions options target [7]
    let challenge : Input := .arrive (Utf8.encode
      ("RTSP/1.0 401 \r\nWWW-Authenticate: " ++ server.challenge ++ "\r\n\r\n"))
    let before := p.transcript "c:554" [challenge]
    let q := (p.start "c:554").player.after [challenge]
    let r : Record := ⟨q.dequeue .take, some .take, q.taken? .take, q.step .take⟩
    p.transcript "c:554" [challenge, .take] = before ++ [r]
      ∧ p.credentials = some ⟨"u", ""⟩ ∧ IsQuotable "u" ∧ IsQuotable "r"
      ∧ (∀ s ∈ before ++ [r], s.IsFair server)
      ∧ ∃ units clientNonce q,
        Chunk.run true (written (before ++ [r])).flatten = ⟨units, .finished, []⟩
        ∧ units[1]? = some (.message (.request q)) ∧ server.isValid q = true
        ∧ q.authorizationField? "nc" = some "00000001"
        ∧ q.authorizationField? "cnonce" = some clientNonce := by
  intro options target server p challenge before q r
  have hrs : p.transcript "c:554" [challenge, .take] = before ++ r :: [] := rfl
  have hquotable : IsQuotable "u" ∧ IsQuotable "r" := by decide
  obtain ⟨hfair, hauthorized, hfirst, hlast, hplace⟩ : (∀ s ∈ before ++ [r], s.IsFair server)
      ∧ (authorizedRequests (before ++ [r])).length = 1 ∧ (authorizedRequests before).length = 0
      ∧ r.authorized?.isSome ∧ (written before).length = 1 := by
    decide +kernel
  obtain ⟨w, hw⟩ := Option.isSome_iff_exists.1 hlast
  obtain ⟨units, clientNonce, hrun, -, haccepted, -⟩ := transcript_authorized options target [7]
    "c:554" [challenge, .take] (some .auth) [5] rfl hquotable.1 hquotable.2 hfair
    (hauthorized.trans_lt (by decide))
  obtain ⟨request, hunit, -, hvalid, hcounted⟩ := haccepted before r [] w hrs hw
  rw [hplace] at hunit
  rw [hfirst] at hcounted
  exact ⟨hrs, rfl, hquotable.1, hquotable.2, hfair, units, clientNonce, request, hrun, hunit,
    hvalid, hcounted rfl⟩

end Player
end Rtsp
