-- SUMMARY: Every response is delivered with the request that it answers, and with no other.
import Rtsp.Proofs.Connection.Outstanding

/-!
# Correlation

Responses may arrive in any order, and be any responses. One whose number is that of an outstanding
request is delivered with this request and the caller's own number; any other is delivered as it
was read; and no request is delivered twice (`Ledger.correlated`).
-/

namespace Rtsp

/-- A response for the one who waits for it: as it was read, but with the request, and with the
caller's own number wherever the request came with one. -/
def Response.returned (r : Response) (q : Request) : Response :=
  { r with
    headers :=
      match q.headers.get? "CSeq" with
      | some own =>
        ⟨r.headers.entries.map fun e =>
          if Text.sameIgnoringCase e.1 "CSeq" then (e.1, own) else e⟩
      | none => r.headers
    answers := some q }

theorem Response.answering_eq {r : Response} {n : UInt32} (hn : r.cseq? = some n)
    (hdistinct : Headers.Distinct r.headers.entries) (q : Request) :
    r.answering q = r.returned q := by
  have hfield : ∃ e ∈ r.headers.entries, Text.sameIgnoringCase e.1 "CSeq" := by
    obtain ⟨value, hvalue, -⟩ := Option.bind_eq_some_iff.1 hn
    exact Headers.exists_mem_of_get? hvalue
  unfold Response.answering Response.returned Headers.copyFrom
  cases q.headers.get? "CSeq" with
  | none => rfl
  | some own =>
    simp only [Headers.set]
    rw [Headers.setEntry_of_mem hdistinct hfield]

namespace Occurrence

/-- The number and the request of a response that is delivered with a request. -/
def attached? : Occurrence → Option (UInt32 × Request)
  | received (.message (.response r)) (.message (.response delivered)) =>
    r.cseq?.bind fun n => delivered.answers.map fun q => (n, q)
  | _ => none

end Occurrence

/-- The numbers of the responses that are delivered with a request. -/
def attachedNumbers (h : List Occurrence) : List UInt32 :=
  (h.filterMap Occurrence.attached?).map Prod.fst

/-- Each response in the history is delivered with the request that it answers, if there is one. -/
structure Correlated (h : List Occurrence) : Prop where
  answered : ∀ before r event after n q,
    h = before ++ .received (.message (.response r)) event :: after →
    r.cseq? = some n → Outstanding before n q → .closed ∉ before →
    event = .message (.response (r.returned q))
  unmatched : ∀ before r event after,
    h = before ++ .received (.message (.response r)) event :: after →
    (∀ n q, r.cseq? = some n → Outstanding before n q → .closed ∈ before) →
    event = .message (.response r) ∧ r.answers = none
  once : (attachedNumbers h).Nodup

namespace Ledger

theorem Accounts.get?_eq_some_iff {l : Ledger} {h : List Occurrence} (ha : l.Accounts h)
    {n : UInt32} {q : Request} :
    l.pending.get? n = some q ↔ Outstanding h n q ∧ .closed ∉ h :=
  ha.sorted.get?_eq_some_iff.trans (ha.mem_iff n q)

/-- What the ledger demands of the delivery of a unit, wherever it stands in a history. -/
theorem report_of_legal {before after : List Occurrence} {unit : Chunk} {event : Event}
    (hlegal : ({} : Ledger).Legal (before ++ .received unit event :: after))
    (hnodup : (sentNumbers (before ++ .received unit event :: after)).Nodup) :
    ∃ l : Ledger, l.Accounts before ∧ unit.IsRead ∧ event = l.pending.report unit := by
  obtain ⟨hbefore, ⟨hread, hevent⟩, -⟩ := legal_append.1 hlegal
  rw [sentNumbers_append] at hnodup
  exact ⟨_, accounts hbefore (List.nodup_append.1 hnodup).1, hread, hevent⟩

/-- A response comes with a request only if that request is pending under its number. -/
theorem get?_of_attached {p : Pending} {unit : Chunk} {n : UInt32} {q : Request}
    (hread : unit.IsRead) (ha : (Occurrence.received unit (p.report unit)).attached? = some (n, q)) :
    (Occurrence.received unit (p.report unit)).Answers n ∧ p.get? n = some q := by
  cases unit with
  | data f => cases ha
  | message m =>
    cases m with
    | request r => cases ha
    | unknown u => cases ha
    | response r =>
      have hnone := hread.response.1
      cases hn : r.cseq? with
      | none => simp [Pending.report, Occurrence.attached?, hn] at ha
      | some m =>
        cases hq : p.get? m with
        | none => simp [Pending.report, Occurrence.attached?, hn, hq, hnone] at ha
        | some q' =>
          simp [Pending.report, Occurrence.attached?, hn, hq, Response.answering] at ha
          obtain ⟨rfl, rfl⟩ := ha
          exact ⟨hn, hq⟩

/-- The requests that were delivered with a response are settled, and were settled once. -/
structure Settled (h : List Occurrence) : Prop where
  once : (attachedNumbers h).Nodup
  sent : ∀ n ∈ attachedNumbers h, n ∈ sentNumbers h
  not_outstanding : ∀ n ∈ attachedNumbers h, ∀ q, ¬Outstanding h n q

/-- What comes with no request settles none. -/
theorem Settled.concat_of_none {h : List Occurrence} {o : Occurrence} (hs : Settled h)
    (hnone : o.attached? = none) (hnew : ∀ n ∈ o.sent?, n ∉ sentNumbers h) :
    Settled (h ++ [o]) := by
  have hattached : attachedNumbers (h ++ [o]) = attachedNumbers h := by
    simp [attachedNumbers, hnone]
  refine ⟨hattached ▸ hs.once, fun n hn => ?_, fun n hn q ho => ?_⟩
  · rw [hattached] at hn
    rw [sentNumbers_append]
    exact List.mem_append_left _ (hs.sent n hn)
  · rw [hattached] at hn
    rcases outstanding_concat.1 ho with rfl | ⟨ho, -⟩
    · exact hnew n rfl (hs.sent n hn)
    · exact hs.not_outstanding n hn q ho

/-- What comes with an outstanding request settles it. -/
theorem Settled.concat_of_some {h : List Occurrence} {o : Occurrence} {n : UInt32} {q : Request}
    (hs : Settled h) (hsome : o.attached? = some (n, q)) (hanswers : o.Answers n)
    (ho : Outstanding h n q) : Settled (h ++ [o]) := by
  have hattached : attachedNumbers (h ++ [o]) = attachedNumbers h ++ [n] := by
    simp [attachedNumbers, hsome]
  have hnew : ∀ m ∈ attachedNumbers h, m ≠ n := fun m hm hmn =>
    hs.not_outstanding n (hmn ▸ hm) q ho
  refine ⟨?_, fun m hm => ?_, fun m hm r hr => ?_⟩
  · rw [hattached]
    exact List.nodup_append.2 ⟨hs.once, List.nodup_singleton n, by simpa using hnew⟩
  · rw [sentNumbers_append]
    rw [hattached] at hm
    rcases List.mem_append.1 hm with hm | hm
    · exact List.mem_append_left _ (hs.sent m hm)
    · exact List.mem_append_left _ (List.mem_singleton.1 hm ▸ ho.mem_sentNumbers)
  · rw [hattached] at hm
    rcases outstanding_concat.1 hr with rfl | ⟨hr, hnot⟩
    · exact hanswers
    · rcases List.mem_append.1 hm with hm | hm
      · exact hs.not_outstanding m hm r hr
      · exact hnot (List.mem_singleton.1 hm ▸ hanswers)

theorem settled {h : List Occurrence} (hlegal : ({} : Ledger).Legal h)
    (hnodup : (sentNumbers h).Nodup) : Settled h := by
  induction h using List.reverseRecOn with
  | nil => exact ⟨List.nodup_nil, by simp [attachedNumbers], by simp [attachedNumbers]⟩
  | append_singleton h o ih =>
    obtain ⟨hlegal', hallows, -⟩ := legal_append.1 hlegal
    obtain ⟨hbefore, hnew⟩ := nodup_sentNumbers_concat hnodup
    have hs := ih hlegal' hbefore
    cases ho : o.attached? with
    | none => exact hs.concat_of_none ho hnew
    | some nq =>
      cases o with
      | sent m r => cases ho
      | closed => cases ho
      | received unit event =>
        obtain ⟨hread, rfl⟩ := hallows
        obtain ⟨hanswers, hget⟩ := get?_of_attached hread ho
        have ha := accounts hlegal' hbefore
        exact hs.concat_of_some ho hanswers (ha.get?_eq_some_iff.1 hget).1

theorem correlated {h : List Occurrence} (hlegal : ({} : Ledger).Legal h)
    (hnodup : (sentNumbers h).Nodup) : Correlated h where
  answered before r event after n q heq hn ho hopen := by
    subst heq
    obtain ⟨l, ha, hread, rfl⟩ := report_of_legal hlegal hnodup
    have hget := ha.get?_eq_some_iff.2 ⟨ho, hopen⟩
    rw [← Response.answering_eq hn hread.response.2]
    simp [Pending.report, hn, hget]
  unmatched before r event after heq hnone := by
    subst heq
    obtain ⟨l, ha, hread, rfl⟩ := report_of_legal hlegal hnodup
    refine ⟨?_, hread.response.1⟩
    have hget : r.cseq?.bind l.pending.get? = none := by
      refine Option.eq_none_iff_forall_ne_some.2 fun q hq => ?_
      obtain ⟨n, hn, hq⟩ := Option.bind_eq_some_iff.1 hq
      obtain ⟨ho, hopen⟩ := ha.get?_eq_some_iff.1 hq
      exact hopen (hnone n q hn ho)
    simp [Pending.report, hget]
  once := (settled hlegal hnodup).once

end Ledger

namespace Connection

/-- In every run: responses are delivered with the requests that they answer; these are the requests
whose sending returned their number, and no two share a number; and the events of the reader are the
deliveries. -/
theorem correlated_history (userAgent : Option String) (nextCseq : UInt32) (actions : List Action)
    (hsends : requestSends actions < 2 ^ 32) :
    let start := fresh userAgent nextCseq
    Correlated (start.history actions)
      ∧ (∀ n q, .sent n q ∈ start.history actions
        ↔ ∃ before after, actions = before ++ .send (.request q) :: after
          ∧ ((start.after before).step (.send (.request q))).2.result = .ok (some n))
      ∧ (sentNumbers (start.history actions)).Nodup
      ∧ (start.events actions).filter (!·.isClosed)
        = (start.history actions).filterMap Occurrence.event? := by
  intro start
  have hnodup := nodup_sentNumbers (c := start) hsends
  exact ⟨Ledger.correlated (legal_history start actions) hnodup, fun n q => sent_mem_history,
    hnodup, filter_events start actions⟩

/-- Two requests are answered in the other order, one of them under a number that the other has on
the wire. -/
theorem correlated_history_swapped :
    let named : Request := { method := .options, uri := "*", headers := ⟨[("CSeq", "2")]⟩ }
    let nameless : Request := { method := .describe, uri := "rtsp://camera/" }
    let answer (cseq : String) : Response :=
      { status := 200, reason := "OK", headers := ⟨[("CSeq", cseq)]⟩ }
    let actions : List Action :=
      [.start, .send (.request named), .send (.request nameless), .feed (answer "2").encode,
        .feed (answer "1").encode, .feed (answer "1").encode]
    requestSends actions < 2 ^ 32
      ∧ Correlated ((fresh none 1).history actions)
      ∧ (fresh none 1).events actions
        = [.message (.response { answer "2" with answers := some nameless }),
          .message (.response { answer "2" with answers := some named }),
          .message (.response (answer "1"))] := by
  intro named nameless answer actions
  have hsends : requestSends actions < 2 ^ 32 := by decide
  exact ⟨hsends, (correlated_history none 1 actions hsends).1, by decide +kernel⟩

end Connection
end Rtsp
