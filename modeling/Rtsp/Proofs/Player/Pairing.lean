-- SUMMARY: A player takes responses for those to the request that it waits for.
import Rtsp.Proofs.Player.Record
import Mathlib.Data.List.Perm.Subperm

/-!
# Responses and requests

A player takes the first response that arrives for the one that it waits for. That is right as long
as no response arrives that nobody has asked for, because a request is answered once at most: what
is still to be taken are responses to the last request alone, or to keepalives once frames are taken
(`Player.Due`). A stream that is torn down may thus be taken for answered too early, where a
keepalive is still unanswered (`Player.transcript_paired`).
-/

namespace Rtsp

open Text

/-! ## What is still to be answered -/

/-- The request that an event answers, under the number of the response. -/
def Event.answer? : Event → Option (Option UInt32 × Request)
  | .message (.response r) => r.answers.map (r.cseq?, ·)
  | _ => none

namespace Pending

/-- The answers that have not arrived. -/
def answers (p : Pending) : List (Option UInt32 × Request) :=
  p.entries.map (Prod.map some id)

theorem answers_subperm {p : Pending} {es : List (UInt32 × Request)} (h : es.Subperm p.entries) :
    (es.map (Prod.map some id)).Subperm p.answers :=
  (List.map_subperm_map_iff ((Option.some_injective _).prodMap Function.injective_id)).2 h

/-- The requests go by no number but that under which they are pending. -/
def Unnumbered (p : Pending) : Prop :=
  ∀ e ∈ p.entries, e.2.headers.get? "CSeq" = none

theorem unnumbered_empty : Unnumbered {} :=
  fun _ he => absurd he List.not_mem_nil

theorem entries_insert_subperm (p : Pending) (n : UInt32) (r : Request) :
    (p.insert n r).entries.Subperm ((n, r) :: p.entries) := by
  obtain ⟨es⟩ := p
  unfold insert
  dsimp only
  induction es with
  | nil => exact .refl _
  | cons e es ih =>
    obtain ⟨m, q⟩ := e
    unfold insertEntry
    split
    · exact .refl _
    · split
      · exact (List.subperm_cons _).2 (List.sublist_cons_self _ _).subperm
      · exact ((List.subperm_cons _).2 ih).trans (List.Perm.swap _ _ _).subperm

theorem answers_insert_subperm (p : Pending) (n : UInt32) (r : Request) :
    (p.insert n r).answers.Subperm ((some n, r) :: p.answers) :=
  answers_subperm (p := ⟨(n, r) :: p.entries⟩) (p.entries_insert_subperm n r)

theorem Unnumbered.insert {p : Pending} (h : p.Unnumbered) {n : UInt32} {r : Request}
    (hr : r.headers.get? "CSeq" = none) : (p.insert n r).Unnumbered := by
  intro e he
  rcases List.mem_cons.1 ((p.entries_insert_subperm n r).subset he) with hnew | hold
  · rw [hnew]
    exact hr
  · exact h e hold

theorem entries_settle_sublist (p : Pending) (unit : Chunk) :
    (p.settle unit).entries.Sublist p.entries := by
  unfold settle
  split
  · split
    · exact List.filter_sublist
    · exact List.Sublist.refl _
  · exact List.Sublist.refl _

theorem Unnumbered.settle {p : Pending} (h : p.Unnumbered) (unit : Chunk) :
    (p.settle unit).Unnumbered :=
  fun e he => h e ((p.entries_settle_sublist unit).subset he)

theorem mem_of_get? {p : Pending} {n : UInt32} {r : Request} (h : p.get? n = some r) :
    (n, r) ∈ p.entries := by
  obtain ⟨before, after, hentries, -⟩ := List.lookup_eq_some_iff.1 h
  rw [hentries]
  simp

/-- A unit answers no request, or one that is pending. -/
theorem report_cases {p : Pending} (h : p.Unnumbered) {unit : Chunk} (hread : unit.IsRead) :
    (p.report unit).answer? = none
      ∨ ∃ n q, (n, q) ∈ p.entries ∧ (p.report unit).answer? = some (some n, q)
        ∧ p.settle unit = p.erase n := by
  unfold report settle
  split
  next r =>
    have hunmatched : Event.answer? (.message (.response r)) = none := by
      unfold Event.answer?
      dsimp only
      rw [hread.response.1, Option.map_none]
    dsimp only
    cases hn : r.cseq? with
    | none => exact .inl hunmatched
    | some n =>
      rw [Option.bind_some]
      cases hq : p.get? n with
      | none => exact .inl hunmatched
      | some q =>
        have hmem := mem_of_get? hq
        have hnumber : (r.answering q).cseq? = some n := by
          unfold Response.answering Response.cseq? Headers.copyFrom
          dsimp only
          rw [h _ hmem]
          exact hn
        refine .inr ⟨n, q, hmem, ?_, rfl⟩
        unfold Event.answer?
        dsimp only
        rw [hnumber]
        rfl
  next m hother =>
    left
    cases m with
    | response r => exact absurd rfl (hother r)
    | request _ | unknown _ => rfl
  next => exact .inl rfl

/-- A response takes its request off those that are pending. -/
theorem answers_settle_subperm {p : Pending} (h : p.Unnumbered) {unit : Chunk}
    (hread : unit.IsRead) :
    ((p.report unit).answer?.toList ++ (p.settle unit).answers).Subperm p.answers := by
  rcases report_cases h hread with hnone | ⟨n, q, hmem, hanswer, hsettle⟩
  · rw [hnone]
    exact answers_subperm (p.entries_settle_sublist unit).subperm
  · have herased : ((n, q) :: (p.erase n).entries).Subperm p.entries :=
      List.cons_subperm_of_not_mem_of_mem (by simp [erase]) hmem List.filter_sublist.subperm
    rw [hanswer, hsettle]
    exact answers_subperm herased

theorem answers_reports_subperm {p : Pending} (h : p.Unnumbered) {units : List Chunk}
    (hread : ∀ u ∈ units, u.IsRead) :
    ((Connection.reports p units).filterMap Event.answer?
      ++ (units.foldl settle p).answers).Subperm p.answers := by
  induction units generalizing p with
  | nil => exact .refl _
  | cons unit units ih =>
    have hfirst := answers_settle_subperm h (hread unit List.mem_cons_self)
    have hrest := ih (h.settle unit) fun u hu => hread u (List.mem_cons_of_mem _ hu)
    have hall := ((List.Subperm.refl (p.report unit).answer?.toList).append hrest).trans hfirst
    have hcons : (Connection.reports p (unit :: units)).filterMap Event.answer?
        = (p.report unit).answer?.toList
          ++ (Connection.reports (p.settle unit) units).filterMap Event.answer? := by
      change List.filterMap _ (p.report unit :: Connection.reports (p.settle unit) units) = _
      cases hanswer : (p.report unit).answer? <;> simp [hanswer]
    rw [hcons, List.append_assoc]
    exact hall

end Pending

namespace Connection

/-- The reader only moves answers to its events. -/
theorem answers_advance_subperm {c : Connection} (h : c.pending.Unnumbered) :
    (c.advance.2.filterMap Event.answer? ++ c.advance.1.pending.answers).Subperm c.pending.answers
      ∧ c.advance.1.pending.Unnumbered := by
  rcases advance_cases c with ⟨-, -, hadvance⟩ | ⟨units, rest, -, hread, -, -, -, hadvance⟩
    | ⟨units, events, -, hread, -, hadvance, hevents⟩
  · rw [hadvance]
    exact ⟨.refl _, h⟩
  · rw [hadvance]
    have hleft : ∀ (units : List Chunk) (p : Pending), p.Unnumbered →
        (units.foldl Pending.settle p).Unnumbered := by
      intro units
      induction units with
      | nil => exact fun _ hp => hp
      | cons unit units ih => exact fun p hp => ih _ (hp.settle unit)
    exact ⟨Pending.answers_reports_subperm h hread, hleft units _ h⟩
  · have hanswers : events.filterMap Event.answer?
        = (reports c.pending units).filterMap Event.answer? := by
      rw [← hevents, List.filterMap_filter]
      refine List.filterMap_congr fun e _ => ?_
      cases e <;> rfl
    have hreports := Pending.answers_reports_subperm h hread
    have hnone : c.stop.pending.answers = [] := rfl
    rw [hadvance]
    dsimp only
    rw [hanswers, hnone, List.append_nil]
    exact ⟨(List.sublist_append_left _ _).subperm.trans hreports, Pending.unnumbered_empty⟩

end Connection

/-! ## Players -/

namespace Record

/-- The request that was written, under its number. -/
def posed? (r : Record) : Option (UInt32 × Request) :=
  r.sent?.map (r.number, ·)

/-- A response that was taken is one to a request. -/
def IsSolicited (r : Record) : Prop :=
  ∀ response ∈ r.returned?, response.answers.isSome

theorem of_returned? {r : Record} {response : Response} (h : r.returned? = some response) :
    ∃ draft purpose, r.before.phase = .waiting draft purpose
      ∧ r.taken? = some (.message (.response response)) := by
  unfold returned? at h
  split at h
  next draft purpose taken hphase htaken =>
    obtain rfl := Option.some.inj h
    exact ⟨draft, purpose, hphase, htaken⟩
  next => cases h

theorem posed?_of_sent?_eq_none {r : Record} (h : r.sent? = none) : r.posed? = none :=
  Option.map_eq_none_iff.2 h

end Record

namespace Player

/-- The requests that were written, each under its number. -/
def requested (rs : List Record) : List (UInt32 × Request) :=
  rs.filterMap Record.posed?

theorem requested_concat (rs : List Record) (r : Record) :
    requested (rs ++ [r]) = requested rs ++ r.posed?.toList := by
  unfold requested
  rw [List.filterMap_append]
  cases hr : r.posed? <;> simp [hr]

/-- The answers that are still to be dealt with, where this event was taken already. -/
def owed (p : Player) (e : Option Event) : List (Option UInt32 × Request) :=
  (e.toList ++ p.queue).filterMap Event.answer? ++ p.connection.pending.answers

/-- Which answers may still be dealt with, given what the player waits for. -/
def Due (last : Option (UInt32 × Request)) (owed : List (Option UInt32 × Request)) : Phase → Prop
  | .waiting _ (.teardown _) => ∀ a ∈ owed, a.2.method ∈ [.getParameter, .teardown]
  | .waiting _ _ => ∃ n w, last = some (n, w) ∧ owed.Subperm [(some n, w)]
  | .streaming _ => ∀ a ∈ owed, a.2.method = .getParameter
  | .finished _ => True

section

variable {last : Option (UInt32 × Request)} {owed fewer : List (Option UInt32 × Request)}

theorem Due.of_subperm {phase : Phase} (h : Due last owed phase) (hfewer : fewer.Subperm owed) :
    Due last fewer phase := by
  match phase with
  | .waiting _ (.teardown _) => exact fun a ha => h a (hfewer.subset ha)
  | .streaming _ => exact fun a ha => h a (hfewer.subset ha)
  | .finished _ => trivial
  | .waiting _ .options | .waiting _ .describe | .waiting _ (.setup _) | .waiting _ (.play _ _) =>
    obtain ⟨n, w, hlast, howed⟩ := h
    exact ⟨n, w, hlast, hfewer.trans howed⟩

theorem due_waiting {draft : Request} {purpose : Purpose} (h : purpose.method ≠ .teardown) :
    Due last owed (.waiting draft purpose)
      ↔ ∃ n w, last = some (n, w) ∧ owed.Subperm [(some n, w)] := by
  cases purpose with
  | teardown => exact absurd rfl h
  | _ => rfl

end

section

variable {p q : Player} {e : Option Event}

theorem owed_congr (hqueue : q.queue = p.queue) (hconnection : q.connection = p.connection) :
    q.owed e = p.owed e := by
  unfold owed
  rw [hqueue, hconnection]

theorem owed_none_subperm (p : Player) (e : Option Event) : (p.owed none).Subperm (p.owed e) := by
  have hqueue : (p.queue.filterMap Event.answer?).Sublist
      ((e.toList ++ p.queue).filterMap Event.answer?) :=
    (List.sublist_append_right _ _).filterMap _
  exact (hqueue.append_right _).subperm

theorem owed_response {response : Response} {w : Request} (h : response.answers = some w) :
    p.owed (some (.message (.response response))) = (response.cseq?, w) :: p.owed none := by
  unfold owed
  simp [Event.answer?, h]

theorem owed_dequeue (p : Player) (i : Input) :
    ((p.dequeue i).owed (p.taken? i)).Subperm (p.owed none) := by
  unfold owed
  rw [connection_dequeue]
  exact (((p.dequeue_sublist i).filterMap _).append_right _).subperm

theorem owed_sent (p : Player) (r : Request) :
    ((p.sent r).owed none).Subperm
      ((some p.connection.nextCseq, (p.prepare r).2) :: p.owed none) := by
  have hpending := p.connection.pending.answers_insert_subperm p.connection.nextCseq (p.prepare r).2
  exact ((List.subperm_append_left _).2 hpending).trans List.perm_middle.subperm

theorem owed_observe {i : Input} {action : Connection.Action} (hi : i.action? = some action)
    (h : p.connection.pending.Unnumbered) :
    ((p.observe action).owed none).Subperm (p.owed none)
      ∧ (p.observe action).connection.pending.Unnumbered := by
  have hpending : (p.connection.act action).1.pending = p.connection.pending := by
    cases i <;> cases hi <;> unfold Connection.act
    · dsimp only
      split <;> rfl
    · rfl
    · rfl
  rw [← hpending] at h
  obtain ⟨hanswers, hunnumbered⟩ := Connection.answers_advance_subperm h
  refine ⟨?_, hunnumbered⟩
  rw [hpending] at hanswers
  have hall := (List.subperm_append_left (p.queue.filterMap Event.answer?)).2 hanswers
  unfold owed observe
  simp only [Option.toList_none, List.nil_append, List.filterMap_append, List.append_assoc]
  exact hall

/-! ### Runs -/

/-- What holds of a run and of the player that it has led to, where this event was taken already. -/
structure Pairs (rs : List Record) (e : Option Event) (p : Player) : Prop where
  valid : p.Valid
  unnumbered : p.result? = none → p.connection.pending.Unnumbered
  posed : p.result? = none → ∀ a ∈ p.owed e, ∃ n, a.1 = some n ∧ (n, a.2) ∈ requested rs
  due : (∀ s ∈ rs, s.IsSolicited) → Due (requested rs).getLast? (p.owed e) p.phase

variable {rs : List Record} {r : Record}

theorem Pairs.dequeue (h : Pairs rs none p) (i : Input) :
    Pairs rs (p.taken? i) (p.dequeue i) := by
  have howed := p.owed_dequeue i
  have hphase : (p.dequeue i).phase = p.phase := by cases i <;> rfl
  have hresult := result?_congr hphase
  refine ⟨h.valid.dequeue i, fun hrunning => ?_, fun hrunning a ha => ?_, fun hsolicited => ?_⟩
  · rw [connection_dequeue]
    exact h.unnumbered (hresult ▸ hrunning)
  · exact h.posed (hresult ▸ hrunning) a (howed.subset ha)
  · rw [hphase]
    exact (h.due hsolicited).of_subperm howed

/-- The response that is waited for answers what was written last, and leaves nothing to be
answered, unless the stream is being torn down. -/
theorem Pairs.answered {response : Response}
    (h : Pairs rs (some (.message (.response response))) p) {draft : Request} {purpose : Purpose}
    (phase : p.phase = .waiting draft purpose) (hpurpose : purpose.method ≠ .teardown)
    (hsolicited : ∀ s ∈ rs, s.IsSolicited) {w : Request} (hanswers : response.answers = some w) :
    ∃ n, response.cseq? = some n ∧ (requested rs).getLast? = some (n, w) ∧ p.owed none = [] := by
  have hdue := h.due hsolicited
  rw [phase, due_waiting hpurpose, owed_response hanswers] at hdue
  obtain ⟨n, last, hlast, howed⟩ := hdue
  obtain ⟨hnumber, hrequest⟩ := Prod.mk.inj (List.mem_singleton.1 (howed.subset List.mem_cons_self))
  have hlength := howed.length_le
  rw [List.length_cons, List.length_singleton] at hlength
  rw [hrequest]
  exact ⟨n, hnumber, hlast, List.length_eq_zero_iff.1 (by omega)⟩

theorem requested_of_silent (h : r.posed? = none) : requested (rs ++ [r]) = requested rs := by
  rw [requested_concat, h]
  exact List.append_nil _

/-- A turn in which nothing is asked for. -/
theorem Pairs.silent (h : Pairs rs e p) (hvalid : q.Valid) (hphase : q.phase = p.phase)
    (hunnumbered : q.result? = none → q.connection.pending.Unnumbered)
    (howed : (q.owed none).Subperm (p.owed e)) (hposed : r.posed? = none) :
    Pairs (rs ++ [r]) none q := by
  have hresult := result?_congr hphase
  have hrequested : requested (rs ++ [r]) = requested rs := requested_of_silent hposed
  refine ⟨hvalid, hunnumbered, fun hrunning a ha => ?_, fun hsolicited => ?_⟩
  · rw [hrequested]
    exact h.posed (hresult ▸ hrunning) a (howed.subset ha)
  · have hdue := h.due fun s hs => hsolicited s (List.mem_append_left _ hs)
    rw [hrequested, hphase]
    exact hdue.of_subperm howed

/-- The last turn. -/
theorem pairs_of_ended (h : q.result?.isSome) (rs : List Record) : Pairs rs none q := by
  obtain ⟨result, hphase⟩ := isSome_result?_iff.1 h
  have hne : q.result? ≠ none := Option.isSome_iff_ne_none.1 h
  refine ⟨valid_of_ended h, fun hrunning => absurd hrunning hne,
    fun hrunning => absurd hrunning hne, fun _ => ?_⟩
  rw [hphase]
  trivial

/-- A request is written, whatever for. -/
theorem pairs_of_sent {after : Player} (hvalid : after.Valid)
    (hunnumbered : q.connection.pending.Unnumbered)
    (hold : ∀ a ∈ q.owed none, ∃ n, a.1 = some n ∧ (n, a.2) ∈ requested rs)
    {request : Request} (hrequest : request.headers.get? "CSeq" = none)
    (hqueue : after.queue = q.queue) (hconnection : after.connection = (q.sent request).connection)
    (hposed : r.posed? = some (q.connection.nextCseq, (q.prepare request).2))
    (hdue : (∀ s ∈ rs, s.IsSolicited) → r.IsSolicited →
      Due r.posed? ((some q.connection.nextCseq, (q.prepare request).2) :: q.owed none)
        after.phase) :
    Pairs (rs ++ [r]) none after := by
  have hsent : after.owed none = (q.sent request).owed none := owed_congr hqueue hconnection
  have howed := q.owed_sent request
  rw [← hsent] at howed
  refine ⟨hvalid, fun _ => ?_, fun _ a ha => ?_, fun hsolicited => ?_⟩
  · rw [hconnection]
    refine hunnumbered.insert ?_
    rw [get?_prepare_of_ne q request (by decide) (by decide)]
    exact hrequest
  · rw [requested_concat, hposed, Option.toList_some]
    rcases List.mem_cons.1 (howed.subset ha) with hnew | hkept
    · rw [hnew]
      exact ⟨_, rfl, List.mem_append_right _ List.mem_cons_self⟩
    · obtain ⟨n, hn, hmem⟩ := hold a hkept
      exact ⟨n, hn, List.mem_append_left _ hmem⟩
  · have hnow := hdue (fun s hs => hsolicited s (List.mem_append_left _ hs))
      (hsolicited r (List.mem_append_right _ List.mem_cons_self))
    rw [hposed] at hnow
    rw [requested_concat, hposed, Option.toList_some, List.getLast?_concat]
    exact hnow.of_subperm howed

theorem Pairs.mem_requested (h : Pairs rs e p) (hrunning : p.result? = none) :
    ∀ a ∈ p.owed none, ∃ n, a.1 = some n ∧ (n, a.2) ∈ requested rs :=
  fun a ha => h.posed hrunning a ((p.owed_none_subperm e).subset ha)

theorem posed?_of_sent (request : Request) (hnumber : q.connection.nextCseq = r.number)
    (hplayer : r.turn.player.connection = (q.sent request).connection)
    (hwritten : r.turn.written.isSome) :
    r.posed? = some (q.connection.nextCseq, (q.prepare request).2) := by
  unfold Record.posed?
  rw [Record.sent?_of_sent hnumber hplayer hwritten, hnumber]
  rfl

theorem Pairs.owed_eq_nil {response : Response}
    (h : Pairs rs (some (.message (.response response))) p) {draft : Request} {purpose : Purpose}
    (phase : p.phase = .waiting draft purpose) (hpurpose : purpose.method ≠ .teardown)
    {input : Option Input} {t : Turn} (hrs : ∀ s ∈ rs, s.IsSolicited)
    (hr : Record.IsSolicited ⟨p, input, some (.message (.response response)), t⟩) :
    p.owed none = [] := by
  have hreturned : Record.returned? ⟨p, input, some (.message (.response response)), t⟩
      = some response := by
    unfold Record.returned?
    simp only [phase]
  obtain ⟨w, hanswers⟩ := Option.isSome_iff_exists.1 (hr response hreturned)
  obtain ⟨n, -, -, howed⟩ := h.answered phase hpurpose hrs hanswers
  exact howed

/-- What is left to be answered once something is asked for. -/
theorem Pairs.due_asks (h : Pairs rs e p) {purpose : Purpose} {request : Request}
    (prompt : p.Prompts e q purpose request) (hmethod : request.method = purpose.method)
    {input : Option Input} {t : Turn} (hrs : ∀ s ∈ rs, s.IsSolicited)
    (hr : Record.IsSolicited ⟨p, input, e, t⟩) (n : UInt32) {w : Request}
    (hw : w.method = request.method) :
    Due (some (n, w)) ((some n, w) :: p.owed none) (.waiting request purpose) := by
  have halone : p.owed none = [] → purpose.method ≠ .teardown →
      Due (some (n, w)) ((some n, w) :: p.owed none) (.waiting request purpose) := by
    intro howed hpurpose
    rw [due_waiting hpurpose, howed]
    exact ⟨n, w, rfl, .refl _⟩
  have hlate : ∀ result, purpose = .teardown result →
      (∀ a ∈ p.owed none, a.2.method ∈ [.getParameter, .teardown]) →
      Due (some (n, w)) ((some n, w) :: p.owed none) (.waiting request purpose) := by
    rintro result rfl hkept a ha
    rcases List.mem_cons.1 ha with rfl | hold
    · rw [hw, hmethod, Purpose.method]
      decide
    · exact hkept a hold
  have hdue := h.due hrs
  cases prompt with
  | again phase =>
    by_cases hpurpose : purpose.method = .teardown
    · cases purpose with
      | teardown result =>
        rw [phase] at hdue
        exact hlate result rfl fun a ha => hdue a ((p.owed_none_subperm _).subset ha)
      | _ => cases hpurpose
    · exact halone (h.owed_eq_nil phase hpurpose hrs hr) hpurpose
  | describe phase | setUp phase | setUpNext phase | play phase =>
    exact halone (h.owed_eq_nil phase nofun hrs hr) nofun
  | teardown streams =>
    refine hlate _ rfl fun a ha => ?_
    cases streams with
    | streaming phase =>
      rw [phase] at hdue
      rw [hdue a ((p.owed_none_subperm _).subset ha)]
      exact List.mem_cons_self
    | playing phase =>
      rw [h.owed_eq_nil phase nofun hrs hr] at ha
      cases ha

/-- Something is asked for. -/
theorem Pairs.asks (h : Pairs rs e p) {purpose : Purpose} {request : Request}
    (prompt : p.Prompts e q purpose request) (input : Option Input)
    (hvalid : (q.awaiting request purpose).Valid) :
    Pairs (rs ++ [⟨p, input, e, ⟨q.awaiting request purpose, some (q.wire request).encode⟩⟩]) none
      (q.awaiting request purpose) := by
  have hrunning := prompt.running
  have hconnection := prompt.connection
  obtain ⟨hdraft, hmethod⟩ := prompt.draft h.valid.draft
  have hkept : q.owed none = p.owed none := owed_congr prompt.queue hconnection
  have hposed := posed?_of_sent
    (r := ⟨p, input, e, ⟨q.awaiting request purpose, some (q.wire request).encode⟩⟩)
    request (congrArg Connection.nextCseq hconnection) rfl rfl
  have hunnumbered : q.connection.pending.Unnumbered := hconnection ▸ h.unnumbered hrunning
  have hold := h.mem_requested hrunning
  rw [← hkept] at hold
  refine pairs_of_sent hvalid hunnumbered hold (hdraft.get? (by decide)) rfl rfl hposed
    fun hrs hr => ?_
  rw [hposed, hkept]
  exact h.due_asks prompt hmethod hrs hr _ (q.method_wire request)

/-- The session is kept alive. -/
theorem Pairs.lives (h : Pairs rs none p) {url : String} (phase : p.phase = .streaming url)
    (input : Option Input) (hvalid : (p.sent (aliveRequest url)).Valid) :
    Pairs (rs ++ [⟨p, input, none, ⟨p.sent (aliveRequest url),
      some (p.wire (aliveRequest url)).encode⟩⟩]) none (p.sent (aliveRequest url)) := by
  have hposed := posed?_of_sent (q := p) (r := ⟨p, input, none, ⟨p.sent (aliveRequest url),
    some (p.wire (aliveRequest url)).encode⟩⟩) (aliveRequest url) rfl rfl rfl
  have hrunning := result?_of_streaming phase
  refine pairs_of_sent hvalid (h.unnumbered hrunning) (h.mem_requested hrunning) rfl rfl rfl hposed
    fun hrs _ => ?_
  have hdue := h.due hrs
  have hphase : (p.sent (aliveRequest url)).phase = .streaming url := phase
  rw [phase] at hdue
  rw [hphase]
  intro a ha
  rcases List.mem_cons.1 ha with rfl | hold
  · exact p.method_wire (aliveRequest url)
  · exact hdue a hold

/-- Playing begins. -/
theorem Pairs.plays {response : Response} (h : Pairs rs (some (.message (.response response))) p)
    {draft : Request} {url : String} {timeout : Nat}
    (phase : p.phase = .waiting draft (.play url timeout)) (input : Option Input)
    (hvalid : q.Valid) (hphase : q.phase = .streaming url) (hqueue : q.queue = p.queue)
    (hconnection : q.connection = p.connection) :
    Pairs (rs ++ [⟨p, input, some (.message (.response response)), ⟨q, none⟩⟩]) none q := by
  have hrunning := result?_of_waiting phase
  have hrequested : requested (rs ++ [⟨p, input, some (.message (.response response)), ⟨q, none⟩⟩])
      = requested rs := requested_of_silent rfl
  have howed : q.owed none = p.owed none := owed_congr hqueue hconnection
  refine ⟨hvalid, fun _ => hconnection ▸ h.unnumbered hrunning, fun _ a ha => ?_,
    fun hsolicited => ?_⟩
  · rw [howed] at ha
    rw [hrequested]
    exact h.posed hrunning a ((p.owed_none_subperm _).subset ha)
  · have hnone := h.owed_eq_nil phase nofun (fun s hs => hsolicited s (List.mem_append_left _ hs))
      (hsolicited _ (List.mem_append_right _ List.mem_cons_self))
    rw [hphase, howed, hnone]
    exact nofun

theorem Pairs.moves (h : Pairs rs e p) {t : Turn} (hmoves : p.Moves e t) (input : Option Input) :
    Pairs (rs ++ [⟨p, input, e, t⟩]) none t.player := by
  have hvalid := hmoves.valid h.valid
  have hfewer := p.owed_none_subperm e
  cases hmoves with
  | ends isOver => exact pairs_of_ended isOver.ended _
  | stays => exact h.silent hvalid rfl h.unnumbered hfewer rfl
  | refuses running opened =>
    exact h.silent hvalid rfl h.unnumbered hfewer
      (Record.posed?_of_sent?_eq_none (Record.sent?_of_nextCseq_eq rfl))
  | plays phase ok => exact h.plays phase input hvalid rfl rfl rfl
  | lives phase opened => exact h.lives phase input hvalid
  | asks prompt opened => exact h.asks prompt input hvalid

theorem Pairs.step (h : Pairs rs none p) (i : Input) :
    Pairs (rs ++ [⟨p.dequeue i, some i, p.taken? i, p.step i⟩]) none (p.step i).player := by
  cases hi : i.action? with
  | none => exact (h.dequeue i).moves (h.valid.moves_step hi) (some i)
  | some action =>
    rw [dequeue_of_action hi, taken?_of_action hi, step_of_action hi]
    by_cases hended : p.result?.isSome
    · exact pairs_of_ended (q := p.observe action) hended _
    · have hunnumbered := h.unnumbered (Option.not_isSome_iff_eq_none.1 hended)
      obtain ⟨howed, hleft⟩ := owed_observe hi hunnumbered
      exact h.silent (h.valid.observe action) rfl (fun _ => hleft) howed rfl

theorem IsFresh.pairs_start (h : p.IsFresh) (address : String) :
    Pairs [{ before := p, turn := p.start address }] none (p.start address).player := by
  have hvalid := h.valid_start address
  have hstart := h.start_eq address
  have hconnection : (p.start address).player.connection
      = ((p.begun address).sent { method := .options, uri := p.url }).connection := by
    rw [hstart]
    rfl
  have hnumber : (p.begun address).connection.nextCseq
      = Record.number { before := p, turn := p.start address } := by
    unfold Record.number
    rw [h.connection]
    rfl
  have hposed := posed?_of_sent (r := { before := p, turn := p.start address })
    { method := .options, uri := p.url } hnumber hconnection (by rw [hstart]; rfl)
  have hnone : (p.begun address).owed none = [] := by
    unfold owed begun
    rw [h.queue]
    rfl
  have hold : ∀ a ∈ (p.begun address).owed none, ∃ n, a.1 = some n ∧ (n, a.2) ∈ requested [] := by
    rw [hnone]
    exact fun _ ha => absurd ha List.not_mem_nil
  refine pairs_of_sent hvalid Pending.unnumbered_empty hold rfl (by rw [hstart]; rfl) hconnection
    hposed fun _ _ => ?_
  rw [hposed, hnone, hstart]
  exact ⟨_, _, rfl, .refl _⟩

/-! ### Responses -/

/-- What the player takes a response for: it answers what was written last before, or it answers a
keepalive or an earlier request of the kind, and the stream is being torn down. -/
theorem Pairs.paired {response : Response}
    (h : Pairs rs (some (.message (.response response))) p) {draft : Request} {purpose : Purpose}
    (phase : p.phase = .waiting draft purpose) (hsolicited : ∀ s ∈ rs, s.IsSolicited)
    {w : Request} (hanswers : response.answers = some w) :
    ∃ n, response.cseq? = some n ∧ (n, w) ∈ requested rs
      ∧ ((requested rs).getLast? = some (n, w)
        ∨ purpose.method = .teardown ∧ w.method ∈ [.getParameter, .teardown]) := by
  by_cases hpurpose : purpose.method = .teardown
  · have hmem : (response.cseq?, w) ∈ p.owed (some (.message (.response response))) := by
      rw [owed_response hanswers]
      exact List.mem_cons_self
    obtain ⟨n, hn, hrequested⟩ := h.posed (result?_of_waiting phase) _ hmem
    refine ⟨n, hn, hrequested, .inr ⟨hpurpose, ?_⟩⟩
    have hdue := h.due hsolicited
    rw [phase] at hdue
    cases purpose with
    | teardown result => exact hdue _ hmem
    | _ => cases hpurpose
  · obtain ⟨n, hn, hlast, -⟩ := h.answered phase hpurpose hsolicited hanswers
    exact ⟨n, hn, List.mem_of_getLast? hlast, .inl hlast⟩

end

/-- As long as no response is taken that nobody has asked for, a response that is taken answers the
request that was written last, by its number. The exception is a stream that is being torn down:
there the response may be that to a keepalive, or to the request before it was repeated. -/
theorem transcript_paired (options : Options) (target : Target) (draws : Draws) (address : String)
    (inputs : List Input) {before after : List Record} {r : Record}
    (hrs : (ofOptions options target draws).transcript address inputs = before ++ r :: after)
    (hsolicited : ∀ s ∈ before ++ [r], s.IsSolicited) {response : Response}
    (hreturned : r.returned? = some response) :
    ∃ n w, response.answers = some w ∧ response.cseq? = some n ∧ (n, w) ∈ requested before
      ∧ ((requested before).getLast? = some (n, w)
        ∨ (∃ draft result, r.before.phase = .waiting draft (.teardown result))
          ∧ w.method ∈ [.getParameter, .teardown]) := by
  obtain ⟨draft, purpose, hphase, htaken⟩ := Record.of_returned? hreturned
  have hstart := (isFresh_ofOptions options target draws).pairs_start address
  have hpairs := transcript_forall (motive := fun rs q => Pairs rs none q)
    (fun before r => r.taken?.isSome → Pairs before r.taken? r.before) hstart nofun
    (fun _ _ i h => ⟨h.step i, fun _ => h.dequeue i⟩) inputs before r after hrs
  rw [htaken] at hpairs
  obtain ⟨w, hanswers⟩ := Option.isSome_iff_exists.1
    (hsolicited r (List.mem_append_right _ List.mem_cons_self) response hreturned)
  obtain ⟨n, hn, hmem, hlast⟩ := (hpairs rfl).paired hphase
    (fun s hs => hsolicited s (List.mem_append_left _ hs)) hanswers
  refine ⟨n, w, hanswers, hn, hmem, hlast.imp_right fun ⟨hteardown, hmethod⟩ => ⟨?_, hmethod⟩⟩
  cases purpose with
  | teardown result => exact ⟨draft, result, hphase⟩
  | _ => cases hteardown

/-- The response to the first request. -/
theorem transcript_paired_options :
    let p := ofOptions { url := "rtsp://cam/" } ⟨"cam:554", none, "rtsp://cam/"⟩ []
    let answer := Utf8.encode "RTSP/1.0 200 OK\r\nCSeq: 1\r\n\r\n"
    let before := p.transcript "cam:554" [.arrive answer]
    let q := (p.start "cam:554").player.after [.arrive answer]
    let r : Record := ⟨q.dequeue .take, some .take, q.taken? .take, q.step .take⟩
    p.transcript "cam:554" [.arrive answer, .take] = before ++ [r]
      ∧ (∀ s ∈ before ++ [r], s.IsSolicited)
      ∧ ∃ response, r.returned? = some response ∧ ∃ n w, response.answers = some w
        ∧ response.cseq? = some n ∧ (n, w) ∈ requested before := by
  intro p answer before q r
  have hsolicited : ∀ s ∈ before ++ [r], s.IsSolicited := by
    unfold Record.IsSolicited
    decide +kernel
  have hreturned : r.returned?.isSome := by decide +kernel
  obtain ⟨response, hresponse⟩ := Option.isSome_iff_exists.1 hreturned
  have hrs : p.transcript "cam:554" [.arrive answer, .take] = before ++ r :: [] := rfl
  obtain ⟨n, w, hanswers, hn, hmem, -⟩ := transcript_paired { url := "rtsp://cam/" }
    ⟨"cam:554", none, "rtsp://cam/"⟩ [] "cam:554" _ hrs hsolicited hresponse
  exact ⟨hrs, hsolicited, response, hresponse, n, w, hanswers, hn, hmem⟩

/-- A response under a number that was not used is taken for the one to the first request. -/
theorem transcript_stray :
    let p := ofOptions { url := "rtsp://cam/" } ⟨"cam:554", none, "rtsp://cam/"⟩ []
    let stray := Utf8.encode "RTSP/1.0 404 Not Found\r\nCSeq: 99\r\n\r\n"
    let before := p.transcript "cam:554" [.arrive stray]
    let q := (p.start "cam:554").player.after [.arrive stray]
    let r : Record := ⟨q.dequeue .take, some .take, q.taken? .take, q.step .take⟩
    p.transcript "cam:554" [.arrive stray, .take] = before ++ [r]
      ∧ (requested before).map (·.1) = [1]
      ∧ ∃ response, r.returned? = some response ∧ response.answers = none
        ∧ response.cseq? = some 99 := by
  intro p stray before q r
  have hreturned : r.returned?
      = some { status := 404, reason := "Not Found", headers := ⟨[("CSeq", "99")]⟩ } := by
    decide +kernel
  exact ⟨rfl, by decide +kernel, _, hreturned, rfl, by decide +kernel⟩

-- A keepalive is answered only after the stream was to be torn down.
example :
    let sections := "m=video 0 RTP/AVP 96\r\na=rtpmap:96 H264/90000\r\n"
    let answer (cseq rest : String) : Input :=
      .arrive (Utf8.encode ("RTSP/1.0 200 OK\r\nCSeq: " ++ cseq ++ rest))
    let frame : Input := .arrive [36, 0, 0, 13, 128, 224, 0, 0, 0, 0, 0, 0, 0, 0, 0, 0, 101]
    let rs := (ofOptions { url := "rtsp://cam/", frames := 1 }
      ⟨"cam:554", none, "rtsp://cam/"⟩ []).transcript "cam:554"
        [answer "1" "\r\n\r\n", .take,
          answer "2" ("\r\nContent-Length: 46\r\n\r\n" ++ sections), .take,
          answer "3" "\r\n\r\n", .take, answer "4" "\r\n\r\n", .take, .tick, frame, .take,
          answer "5" "\r\n\r\n", .take]
    (requested rs).map (·.2.method)
        = [.options, .describe, .setup, .play, .getParameter, .teardown]
      ∧ (rs.filterMap (·.returned?.bind (·.answers))).map (·.method)
        = [.options, .describe, .setup, .play, .getParameter] := by
  decide +kernel

end Player
end Rtsp
