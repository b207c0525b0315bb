-- SUMMARY: A connection remembers exactly the requests that wait for a response, until it is closed.
import Rtsp.Proofs.Connection.Numbers
import Mathlib.Data.List.Induction

/-!
# Outstanding requests

A request is outstanding once it was written, and until a response with its number is read. As long
as no number is used twice, what is pending is what is outstanding (`Ledger.accounts`). A closed
connection has nothing pending and stays silent (`Connection.silent_after`).
-/

namespace Rtsp

/-- The request was written under the number, and no response with this number was read since. -/
def Outstanding (h : List Occurrence) (n : UInt32) (r : Request) : Prop :=
  ∃ before after, h = before ++ .sent n r :: after ∧ ∀ o ∈ after, ¬o.Answers n

theorem Outstanding.mem_sentNumbers {h : List Occurrence} {n : UInt32} {r : Request}
    (ho : Outstanding h n r) : n ∈ sentNumbers h := by
  obtain ⟨before, after, rfl, -⟩ := ho
  exact List.mem_filterMap.2 ⟨.sent n r, List.mem_append_right _ List.mem_cons_self, rfl⟩

theorem outstanding_concat {h : List Occurrence} {o : Occurrence} {n : UInt32} {r : Request} :
    Outstanding (h ++ [o]) n r ↔ o = .sent n r ∨ Outstanding h n r ∧ ¬o.Answers n := by
  constructor
  · rintro ⟨before, after, heq, hafter⟩
    rcases List.eq_nil_or_concat after with rfl | ⟨after, last, rfl⟩
    · left
      exact (List.append_inj' heq rfl).2 |> List.singleton_inj.1
    · right
      rw [List.concat_eq_append] at heq hafter
      have hsplit : h ++ [o] = (before ++ .sent n r :: after) ++ [last] := by simpa using heq
      obtain ⟨rfl, hlast⟩ := List.append_inj' hsplit rfl
      obtain rfl := List.singleton_inj.1 hlast
      refine ⟨⟨before, after, rfl, fun p hp => hafter p ?_⟩, hafter o ?_⟩
      · exact List.mem_append_left _ hp
      · exact List.mem_append_right _ List.mem_cons_self
  · rintro (rfl | ⟨⟨before, after, rfl, hafter⟩, hnot⟩)
    · exact ⟨h, [], rfl, by simp⟩
    · refine ⟨before, after ++ [o], by simp, fun p hp => ?_⟩
      rcases List.mem_append.1 hp with hp | hp
      · exact hafter p hp
      · exact List.mem_singleton.1 hp ▸ hnot

namespace Ledger

/-- The ledger lists what the history leaves outstanding, until the connection is closed. -/
structure Accounts (l : Ledger) (h : List Occurrence) : Prop where
  sorted : l.pending.Sorted
  mem_iff : ∀ n r, (n, r) ∈ l.pending.entries ↔ Outstanding h n r ∧ .closed ∉ h
  closed_iff : l.closed = true ↔ .closed ∈ h

theorem accounts_nil : Accounts {} [] where
  sorted := Pending.sorted_empty
  mem_iff n r := by simp [Outstanding]
  closed_iff := by simp

theorem mem_settle {p : Pending} {unit : Chunk} (event : Event) {e : UInt32 × Request} :
    e ∈ (p.settle unit).entries
      ↔ e ∈ p.entries ∧ ¬(Occurrence.received unit event).Answers e.1 := by
  unfold Pending.settle Occurrence.Answers
  split
  next r =>
    cases hn : r.cseq? with
    | none => simp [hn]
    | some n => simp only [Pending.mem_erase, hn, Option.some.injEq, ne_eq, eq_comm (a := n)]
  next hother =>
    split
    next r _ heq => cases heq; exact absurd rfl (hother r)
    next => simp

theorem sorted_settle {p : Pending} (hp : p.Sorted) (unit : Chunk) : (p.settle unit).Sorted := by
  unfold Pending.settle
  split
  · split
    · exact hp.erase _
    · exact hp
  · exact hp

/-- The ledger goes on to account for the history as long as each request gets a new number. -/
theorem Accounts.apply {l : Ledger} {h : List Occurrence} {o : Occurrence} (ha : l.Accounts h)
    (hallows : l.Allows o) (hnew : ∀ n ∈ o.sent?, n ∉ sentNumbers h) :
    (l.apply o).Accounts (h ++ [o]) := by
  cases o with
  | sent n r =>
    have hopen : .closed ∉ h := fun hmem =>
      Bool.false_ne_true (hallows.symm.trans (ha.closed_iff.2 hmem))
    refine ⟨ha.sorted.insert n r, fun m q => ?_, ?_⟩
    · have hne : Outstanding h m q → m ≠ n := fun ho hmn =>
        hnew n rfl (hmn ▸ ho.mem_sentNumbers)
      have hclosed : .closed ∉ h ++ [.sent n r] := by simp [hopen]
      rw [Ledger.apply, ha.sorted.mem_insert, ha.mem_iff, outstanding_concat]
      constructor
      · rintro (heq | ⟨⟨ho, -⟩, -⟩)
        · obtain ⟨rfl, rfl⟩ := Prod.mk.inj heq
          exact ⟨.inl rfl, hclosed⟩
        · exact ⟨.inr ⟨ho, id⟩, hclosed⟩
      · rintro ⟨heq | ⟨ho, -⟩, -⟩
        · obtain ⟨rfl, rfl⟩ := Occurrence.sent.inj heq
          exact .inl rfl
        · exact .inr ⟨⟨ho, hopen⟩, hne ho⟩
    · simp [Ledger.apply, ha.closed_iff]
  | received unit event =>
    refine ⟨sorted_settle ha.sorted unit, fun n r => ?_, ?_⟩
    · have hclosed : .closed ∉ h ++ [.received unit event] ↔ .closed ∉ h := by simp
      rw [Ledger.apply, mem_settle event, ha.mem_iff, outstanding_concat, hclosed,
        or_iff_right Occurrence.noConfusion, and_right_comm]
    · simp [Ledger.apply, ha.closed_iff]
  | closed =>
    refine ⟨Pending.sorted_empty, fun n r => ?_, ?_⟩
    · simp [Ledger.apply]
    · simp [Ledger.apply]

theorem accounts {h : List Occurrence} (hlegal : ({} : Ledger).Legal h)
    (hnodup : (sentNumbers h).Nodup) : (({} : Ledger).after h).Accounts h := by
  induction h using List.reverseRecOn with
  | nil => exact accounts_nil
  | append_singleton h o ih =>
    obtain ⟨hlegal, hallows, -⟩ := legal_append.1 hlegal
    obtain ⟨hbefore, hnew⟩ := nodup_sentNumbers_concat hnodup
    rw [after_append]
    exact (ih hlegal hbefore).apply hallows hnew

/-- Nothing is pending once the connection is closed. -/
theorem pending_of_closed {l : Ledger} {h : List Occurrence} (hlegal : l.Legal h)
    (hl : l.closed = true → l.pending = {}) (hclosed : (l.after h).closed = true) :
    (l.after h).pending = {} := by
  induction h generalizing l with
  | nil => exact hl hclosed
  | cons o h ih =>
    obtain ⟨hallows, hlegal⟩ := hlegal
    refine ih hlegal (fun ho => ?_) hclosed
    cases o with
    | sent n r => exact absurd (hallows.symm.trans ho) Bool.false_ne_true
    | received unit event =>
      rw [Ledger.apply, hl ho]
      unfold Pending.settle
      split
      · split <;> rfl
      · rfl
    | closed => rfl

theorem closed_after {l : Ledger} (hl : l.closed = true) (h : List Occurrence) :
    (l.after h).closed = true := by
  induction h generalizing l with
  | nil => exact hl
  | cons o h ih => exact ih (by cases o <;> first | exact hl | rfl)

end Ledger

namespace Connection

/-- A connection over which nothing was sent or read yet. -/
def fresh (userAgent : Option String) (nextCseq : UInt32) : Connection :=
  { userAgent, nextCseq }

/-! ## Closing -/

/-- Nothing is pending, every attempt to send is refused, and nothing is written whatever is
done. -/
structure Silent (c : Connection) : Prop where
  closed : c.closed = true
  pending : c.pending.entries = []
  send : ∀ m, (c.step (.send m)).2.result = .error .connectionClosed
  sendData : ∀ f, (c.step (.sendData f)).2.result = .error .connectionClosed
  written : ∀ action, (c.step action).2.written = []

theorem silent_of_closed {c : Connection} (hclosed : c.closed = true)
    (hpending : c.pending = {}) : c.Silent where
  closed := hclosed
  pending := by rw [hpending]
  send m := by
    change (c.send m).result.map some = _
    rw [send_of_closed hclosed]
    rfl
  sendData f := by
    change (c.sendData f).result.map _ = _
    rw [sendData_of_closed hclosed]
    rfl
  written action := by
    change (c.act action).2.written = []
    cases action with
    | send m => exact congrArg Sent.written (send_of_closed hclosed m)
    | sendData f => exact congrArg Sent.written (sendData_of_closed hclosed f)
    | start =>
      unfold act
      dsimp only
      split <;> rfl
    | _ => rfl

/-! ### What closes a connection -/

theorem closed_act (c : Connection) (action : Action) :
    (c.act action).1.closed = true ↔ c.closed = true ∨ action = .close := by
  have hledger : (c.act action).1.closed = (c.ledger.after (c.outcome action)).closed :=
    congrArg Ledger.closed (ledger_act c action)
  rw [hledger]
  unfold outcome
  split
  next r =>
    cases (c.send (.request r)).result <;> simp [Ledger.after, Ledger.apply, ledger]
  next => simp [Ledger.after, Ledger.apply]
  next hclose => exact (or_iff_left hclose).symm

theorem reader_act (c : Connection) (action : Action) :
    (c.act action).1.reader = .stopped ↔ c.reader = .stopped := by
  cases action with
  | send m =>
    obtain ⟨n, p, hsend⟩ := connection_send_eq c m
    simp only [act, hsend]
  | sendData f => simp [act, connection_sendData]
  | start =>
    unfold act
    dsimp only
    split
    next h => simp [h]
    next => rfl
  | feed bytes | ignoreEvents =>
    unfold act
    dsimp only
    split <;> rfl
  | finish how | setWritable writable | close => rfl

theorem closed_advance {c : Connection} (hc : c.reader = .stopped → c.closed = true) :
    c.advance.1.closed = true ↔ c.closed = true ∨ c.advance.1.reader = .stopped := by
  rcases advance_cases c with ⟨-, -, h⟩ | ⟨units, rest, hr, -, -, -, -, h⟩
    | ⟨units, events, -, -, -, h, -⟩
  · rw [h]
    exact (or_iff_left_of_imp hc).symm
  · rw [h]
    have hreader : (c.reading units rest).reader ≠ .stopped := fun h => by
      cases hr.symm.trans h
    exact (or_iff_left hreader).symm
  · rw [h]
    simp [stop, shut]

/-- A connection is closed by closing it or by what stops its reader: the end of the stream, an
error, or a unit that no one takes. -/
theorem closed_step {c : Connection} (hc : c.reader = .stopped → c.closed = true)
    (action : Action) :
    (c.step action).1.closed = true
      ↔ c.closed = true ∨ action = .close ∨ (c.step action).1.reader = .stopped := by
  have hact : (c.act action).1.reader = .stopped → (c.act action).1.closed = true := fun h =>
    (closed_act c action).2 (.inl (hc ((reader_act c action).1 h)))
  rw [← or_assoc, ← closed_act]
  exact closed_advance hact

/-- What is closed stays closed. -/
theorem closed_step_of_closed {c : Connection} (h : c.closed = true) (action : Action) :
    (c.step action).1.closed = true := by
  have hact : (c.act action).1.closed = true := (closed_act c action).2 (.inl h)
  change (c.act action).1.advance.1.closed = true
  rcases advance_cases (c.act action).1 with ⟨-, -, h⟩ | ⟨units, rest, -, -, -, -, -, h⟩
    | ⟨units, events, -, -, -, h, -⟩
  · rw [h]
    exact hact
  · rw [h]
    exact hact
  · rw [h]
    rfl

/-- The last event is reported by a closed connection. -/
theorem closed_step_of_mem_events {c : Connection} {action : Action} {e : Event}
    (h : e ∈ (c.step action).2.events) (he : e.isClosed = true) :
    (c.step action).1.closed = true := by
  change (c.act action).1.advance.1.closed = true
  change e ∈ (c.act action).1.advance.2 at h
  rcases advance_cases (c.act action).1 with ⟨-, -, hadvance⟩
    | ⟨units, rest, -, -, -, -, -, hadvance⟩ | ⟨units, events, -, -, -, hadvance, -⟩
  · rw [hadvance] at h
    exact absurd h List.not_mem_nil
  · rw [hadvance] at h
    have hreport := List.filter_eq_self.1 (filter_reports _ units) e h
    simp [he] at hreport
  · rw [hadvance]
    rfl

theorem reader_step {c : Connection} (h : c.reader = .stopped) (action : Action) :
    (c.step action).1.reader = .stopped := by
  have hact : (c.act action).1.reader = .stopped := (reader_act c action).2 h
  change (c.act action).1.advance.1.reader = .stopped
  rw [advance, if_pos (by simp [hact])]
  exact hact

theorem after_concat (c : Connection) (actions : List Action) (action : Action) :
    c.after (actions ++ [action]) = ((c.after actions).step action).1 :=
  List.foldl_append

theorem closed_after_iff {c : Connection} (hc : c.reader = .stopped → c.closed = true)
    (actions : List Action) :
    (c.after actions).closed = true
      ↔ c.closed = true ∨ .close ∈ actions ∨ (c.after actions).reader = .stopped := by
  induction actions using List.reverseRecOn with
  | nil => simpa [after] using hc
  | append_singleton actions action ih =>
    have hstopped : (c.after actions).reader = .stopped → (c.after actions).closed = true :=
      fun h => ih.2 (.inr (.inr h))
    have hreader (h : (c.after actions).reader = .stopped) := reader_step h action
    rw [after_concat, closed_step hstopped, ih, List.mem_append, List.mem_singleton,
      eq_comm (a := action)]
    constructor
    · rintro ((h | h | h) | h | h)
      · exact .inl h
      · exact .inr (.inl (.inl h))
      · exact .inr (.inr (hreader h))
      · exact .inr (.inl (.inr h))
      · exact .inr (.inr h)
    · rintro (h | (h | h) | h)
      · exact .inl (.inl h)
      · exact .inl (.inr (.inl h))
      · exact .inr (.inl h)
      · exact .inr (.inr h)

/-- Once no more bytes will arrive, a running reader stops. -/
theorem closed_step_finish {c : Connection} (hr : c.reader = .running) (how : StreamEnd) :
    (c.step (.finish how)).1.closed = true := by
  change (c.act (.finish how)).1.advance.1.closed = true
  rcases advance_cases (c.act (.finish how)).1 with ⟨hstopped, -, -⟩
    | ⟨units, rest, -, -, hend, -, -, -⟩ | ⟨units, events, -, -, -, h, -⟩
  · exact absurd hr hstopped
  · cases hend
  · rw [h]
    rfl

/-- A running reader stops at the first unit that no one takes. -/
theorem closed_step_feed {c : Connection} (hr : c.reader = .running) (hobserved : c.observed = false)
    {bytes : Bytes}
    (hunits : (Chunk.run (c.inboxEnd == some .endOfStream) (c.inbox ++ bytes)).chunks ≠ []) :
    (c.step (.feed bytes)).1.closed = true := by
  have hact : (c.act (.feed bytes)).1 = { c with inbox := c.inbox ++ bytes } :=
    if_neg (by simp [hr])
  change (c.act (.feed bytes)).1.advance.1.closed = true
  rw [hact]
  simp [advance, hr, hobserved, hunits, stop, shut]

/-! ## Runs -/

/-- Between two steps the reader has nothing to do. -/
theorem turn_after_fresh (userAgent : Option String) (nextCseq : UInt32) (actions : List Action) :
    ((fresh userAgent nextCseq).after actions).turn = [] := by
  cases actions using List.reverseRecOn with
  | nil => rfl
  | append_singleton actions action =>
    rw [after_concat]
    exact turn_advance _

/-- What cannot be written is not pending, whatever number it has used up. -/
theorem send_of_not_writable {c : Connection} (hopen : c.closed = false)
    (hwritable : c.writable = false) (m : Message) :
    (c.send m).result = .error (.stream .writeFailed)
      ∧ ∃ n, (c.send m).connection = { c with nextCseq := n } := by
  have hfails : ¬c.writable = true := by simp [hwritable]
  by_cases hrequest : ∃ r, m = .request r
  · obtain ⟨r, rfl⟩ := hrequest
    rw [send_request hopen]
    unfold sendRequest write
    dsimp only
    rw [if_neg hfails]
    exact ⟨rfl, _, rfl⟩
  · have hother : ∀ r, m ≠ .request r := fun r hr => hrequest ⟨r, hr⟩
    refine ⟨?_, _, connection_send hother⟩
    rw [send_other hopen hother, write, if_neg hfails]

theorem step_send_of_not_writable {c : Connection} (hidle : c.turn = []) (hopen : c.closed = false)
    (hwritable : c.writable = false) (m : Message) :
    (c.step (.send m)).2.result = .error (.stream .writeFailed)
      ∧ (c.step (.send m)).1.pending = c.pending := by
  obtain ⟨hresult, n, hconnection⟩ := send_of_not_writable hopen hwritable m
  refine ⟨congrArg (Except.map some) hresult, ?_⟩
  have hturn : (c.send m).connection.turn = [] := by
    rw [hconnection]
    exact hidle
  have hledger := ledger_advance (c.send m).connection
  rw [hturn, hconnection] at hledger
  change (c.send m).connection.advance.1.pending = _
  rw [hconnection]
  exact congrArg Ledger.pending hledger

/-- A closed connection stays silent. -/
theorem silent_after {userAgent : Option String} {nextCseq : UInt32} {actions : List Action}
    (hclosed : ((fresh userAgent nextCseq).after actions).closed = true) (more : List Action) :
    (((fresh userAgent nextCseq).after actions).after more).Silent := by
  have hmore : ((fresh userAgent nextCseq).after actions).after more
      = (fresh userAgent nextCseq).after (actions ++ more) := List.foldl_append.symm
  have hstays : (((fresh userAgent nextCseq).after actions).after more).closed = true :=
    (congrArg Ledger.closed (ledger_after _ more)).trans (Ledger.closed_after hclosed _)
  refine silent_of_closed hstays ?_
  rw [hmore] at hstays ⊢
  have hledger := ledger_after (fresh userAgent nextCseq) (actions ++ more)
  have hpending := Ledger.pending_of_closed
    (legal_history (fresh userAgent nextCseq) (actions ++ more)) (fun h => by cases h)
    ((congrArg Ledger.closed hledger).symm.trans hstays)
  exact (congrArg Ledger.pending hledger).trans hpending

/-- Whatever is done, in any order: the pending requests are those that were written and not
answered, by increasing number, and a message that cannot be written changes nothing. What closes
the connection, be it an action, the end of the stream, a failure to read, or a unit that no one
takes, silences it for ever. -/
theorem pending_after (userAgent : Option String) (nextCseq : UInt32) (actions : List Action)
    (hsends : requestSends actions < 2 ^ 32) :
    let start := fresh userAgent nextCseq
    let c := start.after actions
    c.pending.Sorted
      ∧ (∀ n r, (n, r) ∈ c.pending.entries
        ↔ Outstanding (start.history actions) n r ∧ c.closed = false)
      ∧ (c.closed = false → c.writable = false → ∀ m,
        (c.step (.send m)).2.result = .error (.stream .writeFailed)
          ∧ (c.step (.send m)).1.pending = c.pending)
      ∧ (c.closed = true ↔ .close ∈ actions ∨ c.reader = .stopped)
      ∧ (c.reader = .running → (∀ how, (c.step (.finish how)).1.closed = true)
        ∧ (c.observed = false → ∀ bytes,
          (Chunk.run (c.inboxEnd == some .endOfStream) (c.inbox ++ bytes)).chunks ≠ [] →
          (c.step (.feed bytes)).1.closed = true))
      ∧ (c.closed = true → ∀ more, (c.after more).Silent) := by
  intro start c
  have hledger : c.ledger = ({} : Ledger).after (start.history actions) :=
    ledger_after start actions
  have hlegal : ({} : Ledger).Legal (start.history actions) := legal_history start actions
  have haccounts : c.ledger.Accounts (start.history actions) :=
    hledger ▸ Ledger.accounts hlegal (nodup_sentNumbers hsends)
  have hopen : c.closed = false ↔ Occurrence.closed ∉ start.history actions := by
    rw [← Bool.not_eq_true]
    exact not_congr haccounts.closed_iff
  refine ⟨haccounts.sorted, fun n r => ?_, ?_, ?_, ?_, ?_⟩
  · rw [hopen]
    exact haccounts.mem_iff n r
  · exact step_send_of_not_writable (turn_after_fresh userAgent nextCseq actions)
  · have hiff := closed_after_iff (c := start) (fun h => by cases h) actions
    exact hiff.trans (or_iff_right Bool.false_ne_true)
  · intro hr
    exact ⟨closed_step_finish hr, fun hobserved _ hunits => closed_step_feed hr hobserved hunits⟩
  · exact silent_after

/-- A number that no request was written under is left out. -/
theorem pending_after_gap :
    let q : Request := { method := .options, uri := "*", headers := ⟨[("CSeq", "9")]⟩ }
    let actions : List Action :=
      [.send (.request q), .setWritable false, .send (.request q), .setWritable true,
        .send (.request q)]
    requestSends actions < 2 ^ 32
      ∧ ((fresh none 1).after actions).pending.entries = [(1, q), (3, q)]
      ∧ Outstanding ((fresh none 1).history actions) 3 q := by
  intro q actions
  have hsends : requestSends actions < 2 ^ 32 := by decide
  have hentries : ((fresh none 1).after actions).pending.entries = [(1, q), (3, q)] := by decide
  have hmem : (3, q) ∈ ((fresh none 1).after actions).pending.entries := by simp [hentries]
  exact ⟨hsends, hentries, ((pending_after none 1 actions hsends).2.1 3 q).1 hmem |>.1⟩

end Connection
end Rtsp
