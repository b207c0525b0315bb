-- SUMMARY: The requests of a player come in a fixed order, and carry what they should.
import Rtsp.Proofs.Player.Record

/-!
# The client side of the protocol

Whatever the server does, a player asks for options and a description, sets up the sections, plays,
keeps the session alive, and tears it down, in this order; it may stop anywhere, and it may repeat
one request when it is asked for an authorization (`Player.transcript_ordered`). The order is kept
as an invariant: what a player waits for tells how far it has come (`Player.Stage`).
-/

namespace Rtsp

open Text

/-- The same request once more, under another number and with another authorization. -/
structure Request.Repeats (again first : Request) : Prop where
  method : again.method = first.method
  uri : again.uri = first.uri
  version : again.version = first.version
  body : again.body = first.body
  session : again.headers.get? "Session" = first.headers.get? "Session"
  userAgent : again.headers.get? "User-Agent" = first.headers.get? "User-Agent"
  others : again.headers.entries.filter
      (Headers.isOther ["CSeq", "Authorization", "Session", "User-Agent"])
    = first.headers.entries.filter
      (Headers.isOther ["CSeq", "Authorization", "Session", "User-Agent"])

/-- The turn repeats a request, on a response that asks for an authorization: the first one, and
credentials are known. -/
structure Record.IsRepetition (r : Record) (first : Request) : Prop where
  request : ∃ again, r.request? = some again ∧ again.Repeats first
  method : first.method ≠ .getParameter
  challenged : ∃ response, r.returned? = some response ∧ response.status = 401
    ∧ response.headers.contains "WWW-Authenticate" = true
  known : r.before.credentials.isSome
  fresh : r.before.auth = none

/-- A turn in which frames are taken, and a message is due that cannot be sent. -/
def Record.Fails (r : Record) : Prop :=
  r.before.isStreaming ∧ ¬r.before.connection.CanSend
    ∧ (r.input = some .tick ∨ ∃ q, r.taken? = some (.message (.request q)))

namespace Player

/-! ## Transcripts -/

/-- The requests that were written. -/
def asked (rs : List Record) : List Request :=
  rs.filterMap Record.request?

/-- The number of sections, once they are described. -/
def described? (rs : List Record) : Option Nat :=
  rs.findSome? Record.sections?

/-- The identifier of the session, once it is known. -/
def learned? (rs : List Record) : Option String :=
  rs.findSome? Record.sessionId?

/-- How many frames the depacketizers have emitted. -/
def emitted (rs : List Record) : Nat :=
  (rs.map Record.frames).sum

theorem asked_concat (rs : List Record) (r : Record) :
    asked (rs ++ [r]) = asked rs ++ r.request?.toList := by
  unfold asked
  rw [List.filterMap_append]
  cases hr : r.request? <;> simp [hr]

theorem described?_concat (rs : List Record) (r : Record) :
    described? (rs ++ [r]) = (described? rs).or r.sections? := by
  unfold described?
  rw [List.findSome?_append]
  simp

theorem learned?_concat (rs : List Record) (r : Record) :
    learned? (rs ++ [r]) = (learned? rs).or r.sessionId? := by
  unfold learned?
  rw [List.findSome?_append]
  simp

theorem emitted_concat (rs : List Record) (r : Record) :
    emitted (rs ++ [r]) = emitted rs + r.frames := by
  unfold emitted
  simp

/-- The requests without the repetition, if there is one. -/
inductive Base : List Record → List Request → Prop where
  | plain (rs : List Record) : Base rs (asked rs)
  | repeated {before after : List Record} {r : Record} {first : Request}
    (last : (asked before).getLast? = some first) (again : r.IsRepetition first) :
    Base (before ++ r :: after) (asked before ++ asked after)

theorem Base.concat {rs : List Record} {base : List Request} (h : Base rs base) (r : Record) :
    Base (rs ++ [r]) (base ++ r.request?.toList) := by
  cases h with
  | plain =>
    rw [← asked_concat]
    exact .plain _
  | repeated last again =>
    rw [List.append_assoc, List.append_assoc, ← asked_concat]
    exact .repeated last again

/-! ## Stages -/

/-- The first methods, where this many sections are set up. -/
def opening (sections : Nat) : List Method :=
  .options :: .describe :: List.replicate sections .setup

/-- The methods of a whole run. Two channels of one byte are needed for each section. -/
def course (sections keepalives : Nat) : List Method :=
  opening (min sections 128) ++ .play :: List.replicate keepalives .getParameter ++ [.teardown]

/-- The methods are those of a run that has come this far. -/
def Ordered (described : Option Nat) (methods : List Method) : Prop :=
  methods <+: [.options, .describe]
    ∨ ∃ sections keepalives, described = some sections ∧ 1 ≤ sections
      ∧ methods <+: course sections keepalives

/-- How far a run has come, given what the player waits for. -/
def Stage (described : Option Nat) (methods : List Method) : Phase → Prop
  | .waiting _ .options => described = none ∧ methods = [.options]
  | .waiting _ .describe => described = none ∧ methods = [.options, .describe]
  | .waiting _ (.setup plan) =>
    described = some (plan.index + 1 + plan.later.length) ∧ plan.index < 128
      ∧ methods = opening (plan.index + 1)
  | .waiting _ (.play _ _) => ∃ sections, described = some sections ∧ 1 ≤ sections
    ∧ methods = opening (min sections 128) ++ [.play]
  | .streaming _ => ∃ sections keepalives, described = some sections ∧ 1 ≤ sections
    ∧ methods = opening (min sections 128) ++ .play :: List.replicate keepalives .getParameter
  | .waiting _ (.teardown _) => ∃ sections keepalives, described = some sections ∧ 1 ≤ sections
    ∧ methods = course sections keepalives
  | .finished _ => Ordered described methods

theorem opening_prefix {sections more : Nat} (h : sections ≤ more) (rest : List Method) :
    opening sections <+: opening more ++ rest := by
  obtain ⟨later, rfl⟩ := Nat.exists_eq_add_of_le h
  unfold opening
  rw [List.replicate_add]
  exact ⟨List.replicate later .setup ++ rest, by simp only [List.cons_append, List.append_assoc]⟩

theorem opening_succ (sections : Nat) : opening (sections + 1) = opening sections ++ [.setup] := by
  unfold opening
  rw [List.replicate_succ']
  rfl

theorem Ordered.or {described more : Option Nat} {methods : List Method}
    (h : Ordered described methods) : Ordered (described.or more) methods := by
  rcases h with hstart | ⟨sections, keepalives, rfl, hcourse⟩
  · exact .inl hstart
  · exact .inr ⟨sections, keepalives, rfl, hcourse⟩

theorem Stage.ordered {described : Option Nat} {methods : List Method} {phase : Phase}
    (h : Stage described methods phase) : Ordered described methods := by
  match phase with
  | .waiting _ .options =>
    obtain ⟨-, rfl⟩ := h
    exact .inl (by decide)
  | .waiting _ .describe =>
    obtain ⟨-, rfl⟩ := h
    exact .inl (List.prefix_refl _)
  | .waiting _ (.setup plan) =>
    obtain ⟨hdescribed, hindex, rfl⟩ := h
    have hle : plan.index + 1 ≤ min (plan.index + 1 + plan.later.length) 128 := by omega
    refine .inr ⟨_, 0, hdescribed, by omega, ?_⟩
    unfold course
    rw [List.append_assoc]
    exact opening_prefix hle _
  | .waiting _ (.play _ _) =>
    obtain ⟨sections, hdescribed, hsections, rfl⟩ := h
    exact .inr ⟨sections, 0, hdescribed, hsections, by simp [course]⟩
  | .streaming _ =>
    obtain ⟨sections, keepalives, hdescribed, hsections, rfl⟩ := h
    exact .inr ⟨sections, keepalives, hdescribed, hsections, by simp [course]⟩
  | .waiting _ (.teardown _) =>
    obtain ⟨sections, keepalives, hdescribed, hsections, rfl⟩ := h
    exact .inr ⟨sections, keepalives, hdescribed, hsections, List.prefix_refl _⟩
  | .finished _ => exact h

/-! ### Turns between stages -/

section

variable {p q : Player} {t : Turn} {described : Option Nat} {methods : List Method}

theorem accepted?_of_ok {draft : Request} {purpose : Purpose} {response : Response}
    (phase : p.phase = .waiting draft purpose) (ok : response.isOk) (input : Option Input) :
    Record.accepted? ⟨p, input, some (.message (.response response)), t⟩
      = some (purpose, response) := by
  unfold Record.accepted?
  simp only [phase, ok, if_true]

theorem accepted?_of_unanswered {e : Option Event}
    (h : ∀ response, e = some (.message (.response response)) → p.isStreaming)
    (input : Option Input) : Record.accepted? ⟨p, input, e, t⟩ = none := by
  unfold Record.accepted?
  split
  next response phase htaken =>
    have hstreaming := h response htaken
    unfold isStreaming at hstreaming
    rw [phase] at hstreaming
    cases hstreaming
  next => rfl

theorem accepted?_of_none (input : Option Input) :
    Record.accepted? ⟨p, input, none, t⟩ = none :=
  accepted?_of_unanswered (by nofun) input

theorem accepted?_of_request (request : Request) (input : Option Input) :
    Record.accepted? ⟨p, input, some (.message (.request request)), t⟩ = none :=
  accepted?_of_unanswered (by nofun) input

theorem accepted?_of_refused {response : Response} (h : response.isOk = false)
    (input : Option Input) :
    Record.accepted? ⟨p, input, some (.message (.response response)), t⟩ = none := by
  unfold Record.accepted?
  split
  next htaken =>
    cases htaken
    rw [h]
    rfl
  next => rfl

theorem sections?_of_accepted? {r : Record} {purpose : Purpose} {response : Response}
    (h : r.accepted? = some (purpose, response)) (hpurpose : purpose.method ≠ .describe) :
    r.sections? = none := by
  unfold Record.sections?
  rw [h]
  cases purpose with
  | describe => exact absurd rfl hpurpose
  | _ => rfl

theorem sections?_of_unaccepted {r : Record} (h : r.accepted? = none) : r.sections? = none := by
  unfold Record.sections?
  rw [h]

theorem sessionId?_of_accepted? {r : Record} {purpose : Purpose} {response : Response}
    (h : r.accepted? = some (purpose, response)) (hpurpose : purpose.method ≠ .setup) :
    r.sessionId? = none := by
  unfold Record.sessionId?
  rw [h]
  cases purpose with
  | setup => exact absurd rfl hpurpose
  | _ => rfl

theorem sessionId?_of_unaccepted {r : Record} (h : r.accepted? = none) : r.sessionId? = none := by
  unfold Record.sessionId?
  rw [h]

/-- The draft that is waited for is sent again, with an authorization. -/
structure Retries (p : Player) (e : Option Event) (q : Player) (purpose : Purpose)
    (draft : Request) : Prop where
  phase : p.phase = .waiting draft purpose
  challenged : ∃ response, e = some (.message (.response response)) ∧ response.status = 401
    ∧ response.headers.contains "WWW-Authenticate" = true
  known : p.credentials.isSome
  fresh : p.auth = none
  authorized : q.auth.isSome
  session : q.session = p.session

/-- What is asked for next in a run is what comes next in the course, if it is not asked again. -/
theorem Stage.asks {e : Option Event} {purpose : Purpose} {request : Request}
    (h : Stage described methods p.phase) (prompt : p.Prompts e q purpose request)
    (input : Option Input) :
    p.Retries e q purpose request
      ∨ Stage (described.or (Record.sections? ⟨p, input, e, t⟩)) (methods ++ [purpose.method])
        (.waiting request purpose) := by
  cases prompt with
  | again phase status fresh known carried accepted =>
    left
    have hcontains : Headers.contains _ "WWW-Authenticate" = true :=
      Option.isSome_of_eq_some carried
    exact ⟨phase, ⟨_, rfl, status, hcontains⟩, Option.isSome_of_eq_some known, fresh, rfl, rfl⟩
  | describe phase ok =>
    right
    rw [phase] at h
    obtain ⟨rfl, rfl⟩ := h
    rw [sections?_of_accepted? (accepted?_of_ok phase ok input) (by decide)]
    exact ⟨rfl, rfl⟩
  | @setUp draft response plan phase ok first sections =>
    right
    rw [phase] at h
    obtain ⟨rfl, rfl⟩ := h
    have hsections : Record.sections? ⟨p, input, some (.message (.response response)), t⟩
        = some response.sections.length := by
      unfold Record.sections?
      rw [accepted?_of_ok phase ok]
    rw [hsections, sections]
    refine ⟨?_, ?_, ?_⟩
    · rw [first, Option.none_or, List.length_cons, Nat.zero_add, Nat.add_comm]
    · rw [first]
      decide
    · rw [first]
      rfl
  | @setUpNext draft response plan next track log phase ok index later room =>
    right
    rw [phase] at h
    obtain ⟨rfl, -, rfl⟩ := h
    refine ⟨?_, ?_, ?_⟩
    · rw [later, List.length_cons, Option.some_or]
      congr 1
      omega
    · omega
    · rw [index]
      exact (opening_succ _).symm
  | @play draft response plan track log timeout phase ok last =>
    right
    rw [phase] at h
    obtain ⟨rfl, hindex, rfl⟩ := h
    -- Either all sections are set up, or as many as there are channels for.
    have hall : plan.index + 1 = min (plan.index + 1 + plan.later.length) 128 := by
      rcases last with hnil | hfull
      · rw [hnil, List.length_nil]
        omega
      · omega
    refine ⟨_, Option.some_or, by omega, ?_⟩
    rw [← hall]
    rfl
  | @teardown e url tracks keepalive log streams limited enough =>
    right
    cases streams with
    | streaming phase =>
      rw [phase] at h
      obtain ⟨sections, keepalives, rfl, hsections, rfl⟩ := h
      exact ⟨sections, keepalives, Option.some_or, hsections, rfl⟩
    | playing phase ok =>
      rw [phase] at h
      obtain ⟨sections, rfl, hsections, rfl⟩ := h
      refine ⟨sections, 0, Option.some_or, hsections, ?_⟩
      unfold course
      rfl

end

/-! ## Repetitions -/

/-- A draft that is sent twice is repeated, whatever its authorization. -/
theorem repeats_wireRequest {draft : Request} (hdraft : draft.IsDraft) {p q : Player}
    (hsession : q.session = p.session) {c c' : Connection} (hagent : c'.userAgent = c.userAgent) :
    (c'.wireRequest (q.prepare draft).2).Repeats (c.wireRequest (p.prepare draft).2) := by
  have hnone : draft.headers.get? "Session" = none := hdraft.get? (by decide)
  have hother : ∀ (c : Connection) (p : Player),
      (c.wireRequest (p.prepare draft).2).headers.get? "Session" = p.session := by
    intro c p
    rw [Connection.get?_wireRequest c _ (by decide) (by decide)]
    exact p.get?_prepare_session draft hnone
  have hnamed : ∀ (c : Connection) (p : Player),
      (c.wireRequest (p.prepare draft).2).headers.get? "User-Agent"
        = (draft.headers.get? "User-Agent").or c.userAgent := by
    intro c p
    rw [Connection.get?_wireRequest_userAgent, get?_prepare_of_ne p draft (by decide) (by decide)]
  have hkept : ∀ (c : Connection) (p : Player),
      (c.wireRequest (p.prepare draft).2).headers.entries.filter
          (Headers.isOther ["CSeq", "Authorization", "Session", "User-Agent"])
        = draft.headers.entries.filter
          (Headers.isOther ["CSeq", "Authorization", "Session", "User-Agent"]) := by
    intro c p
    rw [Connection.filter_wireRequest c _ (by decide) (by decide)]
    exact p.filter_prepare draft (by decide) (by decide)
  have hp := p.prepare_eq draft
  have hq := q.prepare_eq draft
  refine ⟨?_, ?_, ?_, ?_, ?_, ?_, ?_⟩
  · exact (congrArg Request.method hq).trans (congrArg Request.method hp).symm
  · exact (congrArg Request.uri hq).trans (congrArg Request.uri hp).symm
  · exact (congrArg Request.version hq).trans (congrArg Request.version hp).symm
  · exact (congrArg Request.body hq).trans (congrArg Request.body hp).symm
  · rw [hother, hother, hsession]
  · rw [hnamed, hnamed, hagent]
  · rw [hkept, hkept]

/-! ## Runs -/

/-- What holds of a run and of the player that it has led to. -/
structure Reached (limit : Nat) (rs : List Record) (p : Player) : Prop where
  valid : p.Valid
  order : ∃ base, Base rs base ∧ (p.result? = none → p.auth = none → base = asked rs)
    ∧ Stage (described? rs) (base.map (·.method)) p.phase
  /-- What is waited for is the response to what was written last. -/
  last : ∀ draft purpose, p.phase = .waiting draft purpose → p.auth = none →
    ∃ c : Connection, c.userAgent = some productName
      ∧ (asked rs).getLast? = some (c.wireRequest (p.prepare draft).2)
  limited : p.result? = none → p.limit = limit
  session : p.result? = none → p.session = learned? rs
  frames : p.result? = none → p.frames = emitted rs
  enough : ∀ draft result, p.phase = .waiting draft (.teardown result) → limit ≠ 0 →
    limit ≤ p.frames

section

variable {limit : Nat} {rs : List Record} {p q : Player}

theorem Reached.dequeue (h : Reached limit rs p) (i : Input) : Reached limit rs (p.dequeue i) := by
  obtain ⟨hvalid, horder, hlast, hlimit, hsession, hframes, henough⟩ := h
  have hleft := hvalid.dequeue i
  cases i <;> exact ⟨hleft, horder, hlast, hlimit, hsession, hframes, henough⟩

/-- The invariant after a turn: session and frames are counted in the same way everywhere. -/
theorem Reached.next (h : Reached limit rs p) {r : Record} (hvalid : q.Valid)
    (hrunning : q.result? = none → p.result? = none) (hlimit : q.limit = p.limit)
    (hsession : q.session = p.session.or r.sessionId?) (hframes : q.frames = p.frames + r.frames)
    (horder : ∃ base, Base (rs ++ [r]) base
      ∧ (q.result? = none → q.auth = none → base = asked (rs ++ [r]))
      ∧ Stage (described? (rs ++ [r])) (base.map (·.method)) q.phase)
    (hlast : ∀ draft purpose, q.phase = .waiting draft purpose → q.auth = none →
      ∃ c : Connection, c.userAgent = some productName
        ∧ (asked (rs ++ [r])).getLast? = some (c.wireRequest (q.prepare draft).2))
    (henough : ∀ draft result, q.phase = .waiting draft (.teardown result) → limit ≠ 0 →
      limit ≤ q.frames) : Reached limit (rs ++ [r]) q where
  valid := hvalid
  order := horder
  last := hlast
  limited hq := hlimit.trans (h.limited (hrunning hq))
  session hq := by rw [hsession, learned?_concat, h.session (hrunning hq)]
  frames hq := by rw [hframes, emitted_concat, h.frames (hrunning hq)]
  enough := henough

theorem Base.silent {base : List Request} (h : Base rs base) {r : Record}
    (hr : r.request? = none) : Base (rs ++ [r]) base ∧ asked (rs ++ [r]) = asked rs := by
  have hconcat := h.concat r
  rw [hr] at hconcat
  rw [asked_concat, hr]
  exact ⟨(List.append_nil base) ▸ hconcat, List.append_nil _⟩

/-- A turn in which nothing is asked for, and no response accepted. -/
theorem Reached.silent (h : Reached limit rs p) {r : Record} (hvalid : q.Valid)
    (hphase : q.phase = p.phase) (hauth : q.auth = p.auth) (hsession : q.session = p.session)
    (hlimit : q.limit = p.limit) (hframes : q.frames = p.frames + r.frames)
    (hrequest : r.request? = none) (haccepted : r.accepted? = none) :
    Reached limit (rs ++ [r]) q := by
  have hresult := result?_congr hphase
  obtain ⟨base, hbase, hplain, hstage⟩ := h.order
  obtain ⟨hbase', hasked⟩ := hbase.silent hrequest
  refine h.next hvalid (hresult ▸ id) hlimit ?_ hframes ⟨base, hbase', ?_, ?_⟩ ?_ ?_
  · rw [hsession, sessionId?_of_unaccepted haccepted, Option.or_none]
  · rw [hresult, hauth, hasked]
    exact hplain
  · rw [described?_concat, sections?_of_unaccepted haccepted, Option.or_none, hphase]
    exact hstage
  · intro draft purpose hwaiting hnone
    rw [hasked, prepare_congr hauth hsession]
    exact h.last draft purpose (hphase.symm.trans hwaiting) (hauth.symm.trans hnone)
  · intro draft result hwaiting hlimited
    have hle := h.enough draft result (hphase.symm.trans hwaiting) hlimited
    rw [hframes]
    exact Nat.le_add_right_of_le hle

/-- The last turn. -/
theorem Reached.ended (h : Reached limit rs p) {r : Record} (hrequest : r.request? = none)
    (hended : q.result?.isSome) : Reached limit (rs ++ [r]) q := by
  obtain ⟨result, hphase⟩ := isSome_result?_iff.1 hended
  have hne : q.result? ≠ none := Option.isSome_iff_ne_none.1 hended
  obtain ⟨base, hbase, hplain, hstage⟩ := h.order
  refine ⟨valid_of_ended hended,
    ⟨base, (hbase.silent hrequest).1, fun hrunning => absurd hrunning hne, ?_⟩, ?_,
    fun hrunning => absurd hrunning hne, fun hrunning => absurd hrunning hne,
    fun hrunning => absurd hrunning hne, ?_⟩
  · rw [hphase, described?_concat]
    exact hstage.ordered.or
  · intro draft purpose hwaiting
    cases hphase.symm.trans hwaiting
  · intro draft result hwaiting
    cases hphase.symm.trans hwaiting

/-- Playing begins. -/
theorem Reached.plays (h : Reached limit rs p) {r : Record} (hvalid : q.Valid) {draft : Request}
    {url : String} {timeout : Nat} {response : Response}
    (phase : p.phase = .waiting draft (.play url timeout)) (hphase : q.phase = .streaming url)
    (hauth : q.auth = p.auth) (hsession : q.session = p.session) (hlimit : q.limit = p.limit)
    (hframes : q.frames = p.frames + r.frames) (hrequest : r.request? = none)
    (haccepted : r.accepted? = some (.play url timeout, response)) :
    Reached limit (rs ++ [r]) q := by
  have hrunning := result?_of_waiting phase
  obtain ⟨base, hbase, hplain, hstage⟩ := h.order
  obtain ⟨hbase', hasked⟩ := hbase.silent hrequest
  rw [phase] at hstage
  refine h.next hvalid (fun _ => hrunning) hlimit ?_ hframes ⟨base, hbase', ?_, ?_⟩ ?_ ?_
  · rw [hsession, sessionId?_of_accepted? haccepted nofun, Option.or_none]
  · rw [hauth, hasked]
    exact fun _ => hplain hrunning
  · rw [described?_concat, sections?_of_accepted? haccepted nofun, Option.or_none, hphase]
    obtain ⟨sections, hdescribed, hsections, hmethods⟩ := hstage
    exact ⟨sections, 0, hdescribed, hsections, hmethods⟩
  · intro draft purpose hwaiting
    cases hphase.symm.trans hwaiting
  · intro draft result hwaiting
    cases hphase.symm.trans hwaiting

/-- The session is kept alive. -/
theorem Reached.lives (h : Reached limit rs p) {r : Record} {url : String}
    (phase : p.phase = .streaming url) (hrequest : r.request? = some (p.wire (aliveRequest url)))
    (haccepted : r.accepted? = none) (hframes : r.frames = 0)
    (hvalid : (p.sent (aliveRequest url)).Valid) :
    Reached limit (rs ++ [r]) (p.sent (aliveRequest url)) := by
  have hrunning := result?_of_streaming phase
  obtain ⟨base, hbase, hplain, hstage⟩ := h.order
  have hbase' := hbase.concat r
  rw [hrequest] at hbase'
  rw [phase] at hstage
  refine h.next hvalid (fun _ => hrunning) rfl ?_ ?_ ⟨_, hbase', ?_, ?_⟩ ?_ ?_
  · rw [sessionId?_of_unaccepted haccepted, Option.or_none]
    rfl
  · rw [hframes]
    rfl
  · intro _ hnone
    rw [auth_sent, Option.map_eq_none_iff] at hnone
    rw [hplain hrunning hnone, asked_concat, hrequest]
  · rw [described?_concat, sections?_of_unaccepted haccepted, Option.or_none]
    obtain ⟨sections, keepalives, hdescribed, hsections, hmethods⟩ := hstage
    have hphase : (p.sent (aliveRequest url)).phase = .streaming url := phase
    rw [hphase]
    refine ⟨sections, keepalives + 1, hdescribed, hsections, ?_⟩
    rw [List.map_append, hmethods, List.replicate_succ', Option.toList_some, List.map_singleton,
      method_wire]
    simp [aliveRequest]
  · intro draft purpose hwaiting
    cases phase.symm.trans hwaiting
  · intro draft result hwaiting
    cases phase.symm.trans hwaiting

/-- The session is learned from the response that confirms a section. -/
theorem Prompts.session {e : Option Event} {purpose : Purpose} {request : Request}
    (h : p.Prompts e q purpose request) (input : Option Input) (t : Turn) :
    q.session = p.session.or (Record.sessionId? ⟨p, input, e, t⟩) := by
  cases h with
  | again phase status =>
    have hrefused := accepted?_of_refused (p := p) (t := t)
      (by rw [Response.isOk, status]; rfl) input
    rw [sessionId?_of_unaccepted hrefused, Option.or_none]
  | describe phase ok | setUp phase ok =>
    have haccepted := accepted?_of_ok (t := t) phase ok input
    rw [sessionId?_of_accepted? haccepted nofun, Option.or_none]
  | setUpNext phase ok | play phase ok =>
    unfold Record.sessionId?
    rw [accepted?_of_ok phase ok]
    exact Option.orElse_eq_or
  | teardown streams =>
    have hnone : Record.sessionId? ⟨p, input, e, t⟩ = none := by
      cases streams with
      | streaming phase =>
        have hstreaming : p.isStreaming := by
          unfold isStreaming
          rw [phase]
        exact sessionId?_of_unaccepted (accepted?_of_unanswered (fun _ _ => hstreaming) input)
      | playing phase ok => exact sessionId?_of_accepted? (accepted?_of_ok phase ok input) nofun
    rw [hnone, Option.or_none]

/-- A turn that sends a draft again is a repetition. -/
theorem Retries.isRepetition {e : Option Event} {purpose : Purpose} {draft : Request} {r : Record}
    (h : p.Retries e q purpose draft) (hp : r.before = p) (he : r.taken? = e)
    (hrequest : r.request? = some (q.wire draft)) (hdraft : draft.IsDraft)
    (hmethod : draft.method = purpose.method) {c : Connection}
    (hagent : q.connection.userAgent = c.userAgent) :
    r.IsRepetition (c.wireRequest (p.prepare draft).2) where
  request := ⟨_, hrequest, repeats_wireRequest hdraft h.session hagent⟩
  method := by
    have hfirst : (c.wireRequest (p.prepare draft).2).method = purpose.method :=
      (congrArg Request.method (p.prepare_eq draft)).trans hmethod
    rw [hfirst]
    cases purpose <;> nofun
  challenged := by
    obtain ⟨response, hresponse, hchallenge⟩ := h.challenged
    refine ⟨response, ?_, hchallenge⟩
    unfold Record.returned?
    rw [hp, he, h.phase, hresponse]
  known := hp ▸ h.known
  fresh := hp ▸ h.fresh

/-- Something is asked for. -/
theorem Reached.asks (h : Reached limit rs p) {e : Option Event} {purpose : Purpose}
    {request : Request} (prompt : p.Prompts e q purpose request) {input : Option Input} {t : Turn}
    (hrequest : Record.request? ⟨p, input, e, t⟩ = some (q.wire request))
    (hvalid : (q.awaiting request purpose).Valid) :
    Reached limit (rs ++ [⟨p, input, e, t⟩]) (q.awaiting request purpose) := by
  have hrunning := prompt.running
  obtain ⟨hdraft, hmethod⟩ := prompt.draft h.valid.draft
  have hagent := (congrArg Connection.userAgent prompt.connection).trans (h.valid.agent hrunning)
  have hauth : (q.awaiting request purpose).auth = none → q.auth = none := by
    intro hnone
    rwa [awaiting, auth_sent, Option.map_eq_none_iff] at hnone
  obtain ⟨base, hbase, hplain, hstage⟩ := h.order
  refine h.next hvalid (fun _ => hrunning) prompt.limit (prompt.session input t) prompt.frames
    ?_ ?_ ?_
  · rw [described?_concat]
    rcases hstage.asks prompt input with hagain | hnext
    · obtain ⟨c, hc, hlast⟩ := h.last request purpose hagain.phase hagain.fresh
      have hrepeats := hagain.isRepetition rfl rfl hrequest hdraft hmethod (hagent.trans hc.symm)
      have hbase' : Base (rs ++ [⟨p, input, e, t⟩]) (asked rs ++ []) :=
        Base.repeated hlast hrepeats
      have haccepted : Record.accepted? ⟨p, input, e, t⟩ = none := by
        obtain ⟨response, rfl, hstatus, -⟩ := hagain.challenged
        exact accepted?_of_refused (by rw [Response.isOk, hstatus]; rfl) input
      rw [List.append_nil] at hbase'
      rw [hplain hrunning hagain.fresh, hagain.phase] at hstage
      refine ⟨asked rs, hbase', fun _ hnone => ?_, ?_⟩
      · have hauthorized := hagain.authorized
        rw [hauth hnone] at hauthorized
        cases hauthorized
      · rw [sections?_of_unaccepted haccepted, Option.or_none]
        exact hstage
    · have hbase' := hbase.concat ⟨p, input, e, t⟩
      rw [hrequest] at hbase'
      refine ⟨_, hbase', fun _ hnone => ?_, ?_⟩
      · rw [hplain hrunning (prompt.auth (hauth hnone)), asked_concat, hrequest]
      · rw [List.map_append, Option.toList_some, List.map_singleton, method_wire, hmethod]
        exact hnext
  · intro draft purpose' hwaiting hnone
    obtain ⟨rfl, -⟩ := Phase.waiting.inj hwaiting
    refine ⟨q.connection, hagent, ?_⟩
    have hprepare : ((q.awaiting request purpose).prepare request).2 = (q.prepare request).2 :=
      prepare_congr (hnone.trans (hauth hnone).symm) rfl request
    rw [asked_concat, hrequest, Option.toList_some, List.getLast?_concat, hprepare]
    rfl
  · intro draft result hwaiting hlimited
    obtain ⟨rfl, rfl⟩ := Phase.waiting.inj hwaiting
    cases prompt with
    | again phase => exact h.enough _ _ phase hlimited
    | teardown streams limited enough =>
      rw [← h.limited hrunning]
      exact enough

theorem Reached.moves (h : Reached limit rs p) {e : Option Event} {t : Turn}
    (hmoves : p.Moves e t) (input : Option Input) :
    Reached limit (rs ++ [⟨p, input, e, t⟩]) t.player := by
  have hvalid := hmoves.valid h.valid
  cases hmoves with
  | ends isOver => exact h.ended (Record.request?_of_written_eq_none isOver.written) isOver.ended
  | stays length unanswered =>
    exact h.silent hvalid rfl rfl rfl rfl rfl (Record.request?_of_written_eq_none rfl)
      (accepted?_of_unanswered unanswered input)
  | plays phase ok =>
    exact h.plays hvalid phase rfl rfl rfl rfl rfl (Record.request?_of_written_eq_none rfl)
      (accepted?_of_ok phase ok input)
  | refuses running opened =>
    exact h.silent hvalid rfl rfl rfl rfl rfl (Record.request?_of_nextCseq_eq rfl)
      (accepted?_of_request _ input)
  | lives phase opened =>
    exact h.lives phase (Record.request?_of_alive _ none input) (accepted?_of_none input) rfl hvalid
  | asks prompt opened => exact h.asks prompt (Record.request?_of_prompts prompt input) hvalid

theorem Reached.step (h : Reached limit rs p) (i : Input) :
    Reached limit (rs ++ [⟨p.dequeue i, some i, p.taken? i, p.step i⟩]) (p.step i).player := by
  cases hi : i.action? with
  | none => exact (h.dequeue i).moves (h.valid.moves_step hi) (some i)
  | some action =>
    rw [dequeue_of_action hi, taken?_of_action hi, step_of_action hi]
    exact h.silent (h.valid.observe action) rfl rfl rfl rfl rfl
      (Record.request?_of_written_eq_none rfl) (accepted?_of_none (some i))

theorem IsFresh.reached_start (h : p.IsFresh) (address : String) :
    Reached p.limit [{ before := p, turn := p.start address }] (p.start address).player := by
  have hrequest := h.request?_start address
  have hvalid := h.valid_start address
  have haccepted : Record.accepted? { before := p, turn := p.start address } = none :=
    accepted?_of_none none
  have hasked : asked [{ before := p, turn := p.start address }]
      = [(p.begun address).wire { method := .options, uri := p.url }] := by
    unfold asked
    rw [List.filterMap_cons_some hrequest]
    rfl
  have hdescribed : described? [{ before := p, turn := p.start address }] = none := by
    rw [← List.nil_append [_], described?_concat, sections?_of_unaccepted haccepted]
    rfl
  have hlearned : learned? [{ before := p, turn := p.start address }] = none := by
    rw [← List.nil_append [_], learned?_concat, sessionId?_of_unaccepted haccepted]
    rfl
  have hauth : (p.start address).player.auth = none := by
    rw [h.start_eq]
    exact (auth_sent _ _).trans (congrArg (Option.map _) h.auth)
  have hphase : (p.start address).player.phase
      = .waiting { method := .options, uri := p.url } .options := by
    rw [h.start_eq]
    rfl
  refine ⟨hvalid, ⟨_, .plain _, fun _ _ => rfl, ?_⟩, ?_, ?_, ?_, ?_, ?_⟩
  · rw [hphase, hdescribed, hasked, List.map_singleton, method_wire]
    exact ⟨rfl, rfl⟩
  · intro draft purpose hwaiting _
    obtain ⟨rfl, rfl⟩ := Phase.waiting.inj (hphase.symm.trans hwaiting)
    have hprepare := prepare_congr (q := (p.start address).player) (p := p.begun address)
      (hauth.trans h.auth.symm) (by rw [h.start_eq]; rfl) { method := .options, uri := p.url }
    rw [hasked, hprepare]
    exact ⟨(p.begun address).connection, rfl, rfl⟩
  · intro _
    rw [h.start_eq]
    rfl
  · intro _
    rw [hlearned, h.start_eq]
    exact h.session
  · intro _
    rw [h.start_eq]
    exact h.frames
  · intro draft result hwaiting
    cases hphase.symm.trans hwaiting

/-! ## Each turn -/

/-- What is asked for names the session, and a stream is torn down for this purpose only. -/
theorem Moves.carries (hvalid : p.Valid) {e : Option Event} {t : Turn} (hmoves : p.Moves e t)
    {input : Option Input} {w : Request} (hw : Record.request? ⟨p, input, e, t⟩ = some w) :
    t.player.result? = none ∧ w.headers.get? "Session" = t.player.session
      ∧ (w.method = .teardown →
        ∃ draft result, t.player.phase = .waiting draft (.teardown result)) := by
  cases hmoves with
  | ends isOver =>
    rw [Record.request?_of_written_eq_none isOver.written] at hw
    cases hw
  | stays | plays =>
    rw [Record.request?_of_written_eq_none rfl] at hw
    cases hw
  | refuses =>
    rw [Record.request?_of_nextCseq_eq rfl] at hw
    cases hw
  | @lives url phase opened =>
    rw [Record.request?_of_alive] at hw
    obtain rfl := Option.some.inj hw
    refine ⟨result?_of_streaming phase, p.get?_wire_session _ rfl, ?_⟩
    rw [method_wire]
    nofun
  | @asks _ q purpose request prompt opened =>
    obtain ⟨hdraft, hmethod⟩ := prompt.draft hvalid.draft
    rw [Record.request?_of_prompts prompt] at hw
    obtain rfl := Option.some.inj hw
    refine ⟨rfl, q.get?_wire_session _ (hdraft.get? (by decide)), ?_⟩
    rw [method_wire, hmethod]
    intro hteardown
    cases purpose with
    | teardown result => exact ⟨request, result, rfl⟩
    | _ => cases hteardown

end

end Player

/-- What holds of one turn of a run, given the turns before it: the bytes are those of its message.
A session that is known is named in every request. Under a limit the stream is torn down once there
are enough frames, or when a message cannot be sent while frames are taken. Requests of the server
are refused, under the number that they came with, and nothing else is responded to. -/
structure Record.Lawful (limit : Nat) (before : List Record) (r : Record) : Prop where
  bytes : r.turn.written = r.message?.map Message.encode
  session : ∀ w id, r.request? = some w → Player.learned? (before ++ [r]) = some id →
    w.headers.get? "Session" = some id
  enough : ∀ w, r.request? = some w → w.method = .teardown → limit ≠ 0 →
    limit ≤ Player.emitted (before ++ [r]) ∨ ∃ s ∈ before ++ [r], s.Fails
  refusal : ∀ q, r.taken? = some (.message (.request q)) → r.before.connection.CanSend →
    r.message? = some (.response (q.respond 501)) ∧ (q.respond 501).status = 501
      ∧ (q.respond 501).headers.get? "CSeq" = q.headers.get? "CSeq"
  refused : ∀ response, r.message? = some (.response response) →
    ∃ q, r.taken? = some (.message (.request q)) ∧ response = q.respond 501

/-- A response carries the number of its request, if that has one. -/
theorem Request.get?_respond_cseq (q : Request) (status : Nat) :
    (q.respond status).headers.get? "CSeq" = q.headers.get? "CSeq" := by
  have hcreated : (Response.create status (Status.reason status)).headers.get? "CSeq" = none :=
    (by decide : Headers.get? ⟨[("Server", productName)]⟩ "CSeq" = none)
  have hcopied : ((Response.create status (Status.reason status)).headers.copyFrom q.headers
      "CSeq").get? "CSeq" = q.headers.get? "CSeq" := by
    unfold Headers.copyFrom
    cases q.headers.get? "CSeq" with
    | none => exact hcreated
    | some value => exact Headers.get?_set_self _ _ _
  unfold respond
  dsimp only
  rw [Headers.copyFrom]
  split
  · exact (Headers.get?_set_of_ne (by decide) _ _).trans hcopied
  · exact hcopied

namespace Player

section

variable {limit : Nat} {rs : List Record} {p : Player}

theorem Reached.lawful {r : Record} (h : Reached limit (rs ++ [r]) r.turn.player)
    (bytes : r.turn.written = r.message?.map Message.encode)
    (carries : ∀ w, r.request? = some w → r.turn.player.result? = none
      ∧ w.headers.get? "Session" = r.turn.player.session
      ∧ (w.method = .teardown →
        ∃ draft result, r.turn.player.phase = .waiting draft (.teardown result)))
    (refusal : ∀ q, r.taken? = some (.message (.request q)) → r.before.connection.CanSend →
      r.message? = some (.response (q.respond 501))) : r.Lawful limit rs where
  bytes := bytes
  session w id hw hid := by
    obtain ⟨hrunning, hsession, -⟩ := carries w hw
    rw [hsession, h.session hrunning, hid]
  enough w hw hmethod hlimited := by
    obtain ⟨hrunning, -, hteardown⟩ := carries w hw
    obtain ⟨draft, result, hphase⟩ := hteardown hmethod
    left
    rw [← h.frames hrunning]
    exact h.enough draft result hphase hlimited
  refusal q hq hopen := ⟨refusal q hq hopen, rfl, q.get?_respond_cseq 501⟩
  refused _ := Record.taken?_of_message?_response

theorem Reached.lawful_step (h : Reached limit rs p) (i : Input) :
    Record.Lawful limit rs ⟨p.dequeue i, some i, p.taken? i, p.step i⟩ := by
  have hnext := h.step i
  cases hi : i.action? with
  | none =>
    have hmoves := h.valid.moves_step hi
    refine hnext.lawful (Record.written_of_moves hmoves _) ?_ ?_
    · exact fun w => hmoves.carries (h.valid.dequeue i)
    · intro q hq hopen
      have htaken : p.taken? i = some (.message (.request q)) := hq
      rw [htaken, step_of_taken?_request htaken (p.connection_dequeue i ▸ hopen)]
      exact Record.message?_of_refused q (some i)
  | some action =>
    rw [step_of_action hi] at hnext ⊢
    refine hnext.lawful ?_ ?_ ?_
    · rw [Record.message?_of_written_eq_none rfl]
      rfl
    · intro w hw
      rw [Record.request?_of_written_eq_none rfl] at hw
      cases hw
    · intro q hq
      cases (taken?_of_action hi p).symm.trans hq

theorem IsFresh.lawful_start (h : p.IsFresh) (address : String) :
    Record.Lawful p.limit [] { before := p, turn := p.start address } := by
  have hrequest := h.request?_start address
  have hreached := h.reached_start address
  refine hreached.lawful ?_ ?_ nofun
  · rw [Record.message?_of_request? hrequest, h.start_eq]
    rfl
  · intro w hw
    obtain rfl := Option.some.inj (hrequest.symm.trans hw)
    rw [h.start_eq]
    refine ⟨rfl, (p.begun address).get?_wire_session _ rfl, ?_⟩
    rw [method_wire]
    nofun

end

/-! ## Whole runs -/

/-- Whatever the server does, the requests of a run are a beginning of the course, up to one that
is repeated, and every turn is lawful. -/
theorem transcript_ordered (options : Options) (target : Target) (draws : Draws) (address : String)
    (inputs : List Input) :
    let rs := (ofOptions options target draws).transcript address inputs
    (∃ base, Base rs base ∧ Ordered (described? rs) (base.map (·.method)))
      ∧ ∀ before r after, rs = before ++ r :: after → r.Lawful options.frames before := by
  intro rs
  have hfresh := isFresh_ofOptions options target draws
  have hstart := hfresh.reached_start address
  obtain ⟨base, hbase, -, hstage⟩ := (transcript_induction hstart
    (fun _ _ i hreached => hreached.step i) inputs).order
  refine ⟨⟨base, hbase, hstage.ordered⟩, ?_⟩
  exact transcript_forall (Record.Lawful options.frames) hstart (hfresh.lawful_start address)
    (fun _ _ i hreached => ⟨hreached.step i, hreached.lawful_step i⟩) inputs

end Player
end Rtsp
