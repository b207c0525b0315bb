-- SUMMARY: The header values of what arrives are trimmed and end no line.
import Rtsp.Proofs.Connection.History
import Rtsp.Proofs.Message.Fields

/-!
# Header values that arrive

A line that is read holds no line feed, and values are trimmed when a line is added to the headers.
So a value that arrives over a connection, or a part of it that is trimmed again, can be written
into a header of another message (`Connection.isTidy_of_mem_events`).
-/

namespace Rtsp

open Text

/-! ## Headers -/

namespace Headers

/-- The values are trimmed and end no line. -/
def Tidy (h : Headers) : Prop :=
  ∀ e ∈ h.entries, IsValue e.2

theorem Tidy.get? {h : Headers} (ht : h.Tidy) {name value : String}
    (hget : h.get? name = some value) : IsValue value := by
  obtain ⟨e, he, rfl⟩ := Option.map_eq_some_iff.1 hget
  exact ht e (List.mem_of_find?_eq_some he)

theorem Readable.tidy {h : Headers} (hr : h.Readable) : h.Tidy := fun e he =>
  ⟨(hr.fields e he).value_trimmed, (hr.fields e he).lineFeed_not_mem_value⟩

end Headers

/-! ## Responses -/

/-- A field that is copied out of tidy headers is read back. -/
theorem Headers.Readable.copyFrom {h source : Headers} (hr : h.Readable) (hsource : source.Tidy)
    {name : String} (hname : IsField (name, "")) : (h.copyFrom source name).Readable := by
  unfold Headers.copyFrom
  split
  next value hget => exact hr.set (hname.with_value (hsource.get? hget))
  next => exact hr

/-- What a response repeats of a tidy request is read back. -/
theorem Request.readable_respond {q : Request} (h : q.headers.Tidy) (status : Nat) :
    (q.respond status).headers.Readable := by
  have hserver : Headers.IsField ("Server", productName) := by decide
  have hcreated : (Response.create status (Status.reason status)).headers.Readable :=
    Headers.readable_empty.set hserver
  have hnumbered := hcreated.copyFrom h (by decide : Headers.IsField ("CSeq", ""))
  exact hnumbered.copyFrom h (by decide : Headers.IsField ("Session", ""))

/-! ## Units -/

theorem Chunk.tidy_of_mem_run {ended : Bool} {input : Bytes} {m : Message}
    (h : .message m ∈ (run ended input).chunks) : m.headers.Tidy := by
  obtain ⟨line, headers, body, hparts, rfl⟩ := isDelivered_of_mem_run h
  rw [Message.headers_ofParts]
  exact hparts.readable.tidy

/-! ## Events -/

/-- What of an event may be written again can be: the values of a request, and the session of a
response. -/
def Event.IsTidy : Event → Prop
  | .message (.request q) => q.headers.Tidy
  | .message (.response r) => ∀ value, r.headers.get? "Session" = some value → Headers.IsValue value
  | _ => True

theorem SessionField.isValue_id {value : String} (h : Headers.IsValue value) :
    Headers.IsValue (SessionField.read value).id := by
  unfold SessionField.read
  split
  next => exact ⟨rfl, List.not_mem_nil⟩
  next id parameters hparts =>
    exact Headers.isValue_trim fun hmem => h.2 ((prefix_of_splitOn hparts).subset hmem)

/-- An identifier that a response gives to a session can be written. -/
theorem Event.IsTidy.isValue_sessionId {response : Response} {id : String}
    (h : Event.IsTidy (.message (.response response))) (hid : response.sessionId? = some id) :
    Headers.IsValue id := by
  obtain ⟨session, hsession, rfl⟩ := Option.map_eq_some_iff.1 hid
  obtain ⟨value, hvalue, rfl⟩ := Option.map_eq_some_iff.1 hsession
  exact SessionField.isValue_id (h value hvalue)

namespace Connection

theorem mem_reports {p : Pending} {units : List Chunk} {e : Event} (h : e ∈ reports p units) :
    ∃ q : Pending, ∃ unit ∈ units, e = q.report unit := by
  induction units generalizing p with
  | nil => exact absurd h List.not_mem_nil
  | cons unit units ih =>
    have hcons : e ∈ p.report unit :: reports (p.settle unit) units := h
    rcases List.mem_cons.1 hcons with rfl | hlater
    · exact ⟨p, unit, List.mem_cons_self, rfl⟩
    · obtain ⟨q, later, hmem, hreport⟩ := ih hlater
      exact ⟨q, later, List.mem_cons_of_mem _ hmem, hreport⟩

/-- An event says that the reader has stopped, or reports a unit of what has arrived. -/
theorem mem_events_advance {c : Connection} {e : Event} (h : e ∈ c.advance.2) :
    e.isClosed = true ∨ ∃ p : Pending,
      ∃ unit ∈ (Chunk.run (c.inboxEnd == some .endOfStream) c.inbox).chunks, e = p.report unit := by
  obtain ⟨run, hrun⟩ : ∃ run, Chunk.run (c.inboxEnd == some .endOfStream) c.inbox = run := ⟨_, rfl⟩
  rw [hrun]
  by_cases hr : c.reader = .running
  · cases htaken : (!c.observed && !run.chunks.isEmpty) with
    | true =>
      have hadvance : c.advance = (c.stop, []) := by simp only [advance, hr, hrun, htaken]; rfl
      rw [hadvance] at h
      exact absurd h List.not_mem_nil
    | false =>
      cases hcause : c.stopCause? run.ending with
      | none =>
        rw [advance_of_waiting hr hrun htaken hcause] at h
        exact .inr (mem_reports h)
      | some cause =>
        rw [advance_of_stopping hr hrun htaken hcause] at h
        dsimp only at h
        split at h
        next =>
          rcases List.mem_append.1 h with hreport | hlast
          · exact .inr (mem_reports hreport)
          · rw [List.mem_singleton.1 hlast]
            exact .inl rfl
        next => exact absurd h List.not_mem_nil
  · have hadvance : c.advance = (c, []) := if_pos hr
    rw [hadvance] at h
    exact absurd h List.not_mem_nil

theorem isTidy_report {p : Pending} {unit : Chunk}
    (h : ∀ m, unit = .message m → m.headers.Tidy) : (p.report unit).IsTidy := by
  unfold Pending.report
  split
  next r =>
    have hsession : ∀ value, r.headers.get? "Session" = some value → Headers.IsValue value :=
      fun value hget => (h _ rfl).get? hget
    split
    next q _ =>
      intro value hget
      refine hsession value ?_
      rw [← hget]
      unfold Response.answering Headers.copyFrom
      dsimp only
      split
      · exact (Headers.get?_set_of_ne (by decide) _ _).symm
      · rfl
    next => exact hsession
  next m hother =>
    cases m with
    | response r => exact absurd rfl (hother r)
    | request q => exact h _ rfl
    | unknown u => trivial
  next => trivial

theorem isTidy_of_mem_events {c : Connection} {action : Action} {e : Event}
    (h : e ∈ (c.step action).2.events) : e.IsTidy := by
  have hadvance : e ∈ (c.act action).1.advance.2 := h
  rcases mem_events_advance hadvance with hclosed | ⟨p, unit, hunit, rfl⟩
  · cases e with
    | closed cause => trivial
    | message m | data f => cases hclosed
  · refine isTidy_report ?_
    rintro m rfl
    exact Chunk.tidy_of_mem_run hunit

end Connection
end Rtsp
