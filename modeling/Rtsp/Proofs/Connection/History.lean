-- SUMMARY: The history of a connection, and the ledger that it keeps of pending requests.
import Rtsp.Proofs.Connection.Pending
import Rtsp.Proofs.Framing.Run

/-!
# Histories

The history of a connection lists what happened to it, in order: requests were written, units were
read, and it was closed. A ledger kept from the history alone agrees with the connection after
every action (`Connection.ledger_after`), and every unit was reported as the ledger demands at that
point (`Connection.legal_history`). What holds of all legal histories thus holds of all
connections, and is shown one occurrence at a time.
-/

namespace Rtsp

/-! ## Units -/

/-- A response as the one who waits for it sees it: with the request, and with the number under
which the request came, if it came with one. -/
def Response.answering (r : Response) (q : Request) : Response :=
  { r with headers := r.headers.copyFrom q.headers "CSeq", answers := some q }

/-- The event says that the reader has stopped. -/
def Event.isClosed : Event → Bool
  | .closed _ => true
  | _ => false

namespace Pending

/-- What is pending once a unit was read. -/
def settle (p : Pending) : Chunk → Pending
  | .message (.response r) =>
    match r.cseq? with
    | some n => p.erase n
    | none => p
  | _ => p

/-- The event that reports a unit. -/
def report (p : Pending) : Chunk → Event
  | .message (.response r) =>
    match r.cseq?.bind p.get? with
    | some q => .message (.response (r.answering q))
    | none => .message (.response r)
  | .message m => .message m
  | .data f => .data f

end Pending

/-! ## Occurrences -/

/-- What can happen to a connection. -/
inductive Occurrence where
  /-- A request was written under a number. -/
  | sent (cseq : UInt32) (r : Request)
  /-- A unit was read and reported. -/
  | received (unit : Chunk) (event : Event)
  | closed
  deriving DecidableEq, Repr

namespace Occurrence

/-- The number of a request that was written. -/
def sent? : Occurrence → Option UInt32
  | sent n _ => some n
  | _ => none

/-- The event that reports a unit. -/
def event? : Occurrence → Option Event
  | received _ event => some event
  | _ => none

/-- A response with this number was read. -/
def Answers (n : UInt32) : Occurrence → Prop
  | received (.message (.response r)) _ => r.cseq? = some n
  | _ => False

end Occurrence

/-! ## Ledgers -/

/-- What the history of a connection determines. -/
structure Ledger where
  pending : Pending := {}
  closed : Bool := false

namespace Ledger

def apply (l : Ledger) : Occurrence → Ledger
  | .sent n r => { l with pending := l.pending.insert n r }
  | .received unit _ => { l with pending := l.pending.settle unit }
  | .closed => { closed := true }

def after (l : Ledger) (h : List Occurrence) : Ledger :=
  h.foldl apply l

/-- What can happen next: nothing is sent once the connection is closed, and a unit is reported by
its event. -/
def Allows (l : Ledger) : Occurrence → Prop
  | .sent _ _ => l.closed = false
  | .received unit event => unit.IsRead ∧ event = l.pending.report unit
  | .closed => True

/-- Every occurrence is allowed where it stands. -/
def Legal (l : Ledger) : List Occurrence → Prop
  | [] => True
  | o :: h => l.Allows o ∧ (l.apply o).Legal h

theorem after_append (l : Ledger) (h h' : List Occurrence) :
    l.after (h ++ h') = (l.after h).after h' :=
  List.foldl_append

theorem legal_append {l : Ledger} {h h' : List Occurrence} :
    l.Legal (h ++ h') ↔ l.Legal h ∧ (l.after h).Legal h' := by
  induction h generalizing l with
  | nil => exact (true_and _).symm.to_iff
  | cons o h ih => simp only [List.cons_append, Legal, ih, and_assoc]; rfl

end Ledger

namespace Connection

def ledger (c : Connection) : Ledger :=
  ⟨c.pending, c.closed⟩

/-! ## The reader -/

/-- The units that are read one after the other, each with its report. -/
def deliveries (p : Pending) : List Chunk → List Occurrence
  | [] => []
  | unit :: units => .received unit (p.report unit) :: deliveries (p.settle unit) units

/-- What the reader does when it is its turn. A unit that no one takes is dropped with the
connection. -/
def turn (c : Connection) : List Occurrence :=
  if c.reader ≠ .running then []
  else
    let run := Chunk.run (c.inboxEnd == some .endOfStream) c.inbox
    if !c.observed && !run.chunks.isEmpty then [.closed]
    else
      deliveries c.pending run.chunks
        ++ if (c.stopCause? run.ending).isSome then [.closed] else []

theorem receive_eq (c : Connection) (unit : Chunk) :
    c.receive unit
      = ({ c with pending := c.pending.settle unit }, c.pending.report unit) := by
  cases unit with
  | data f => rfl
  | message m =>
    cases m with
    | request r => rfl
    | unknown u => rfl
    | response r =>
      cases hn : r.cseq? with
      | none => simp only [receive, correlate, Pending.settle, Pending.report, hn, Option.bind_none]
      | some n =>
        simp only [receive, correlate, Pending.settle, Pending.report, hn, Option.bind_some]
        cases hq : c.pending.get? n with
        | none => rw [Option.map_none, Pending.erase_of_get?_eq_none hq]
        | some q => rfl

theorem receiveAll_eq (c : Connection) (units : List Chunk) :
    c.receiveAll units
      = ({ c with pending := units.foldl Pending.settle c.pending },
        (deliveries c.pending units).filterMap Occurrence.event?) := by
  induction units generalizing c with
  | nil => rfl
  | cons unit units ih =>
    rw [receiveAll, receive_eq]
    simp only [ih]
    rfl

theorem after_deliveries (l : Ledger) (units : List Chunk) :
    l.after (deliveries l.pending units)
      = { l with pending := units.foldl Pending.settle l.pending } := by
  induction units generalizing l with
  | nil => rfl
  | cons unit units ih => exact ih { l with pending := l.pending.settle unit }

theorem legal_deliveries {l : Ledger} {units : List Chunk} (h : ∀ u ∈ units, u.IsRead) :
    l.Legal (deliveries l.pending units) := by
  induction units generalizing l with
  | nil => trivial
  | cons unit units ih =>
    exact ⟨⟨h unit List.mem_cons_self, rfl⟩, ih fun u hu => h u (List.mem_cons_of_mem _ hu)⟩

theorem deliveries_append (p : Pending) (units more : List Chunk) :
    deliveries p (units ++ more)
      = deliveries p units ++ deliveries (units.foldl Pending.settle p) more := by
  induction units generalizing p with
  | nil => rfl
  | cons unit units ih => exact congrArg (_ :: ·) (ih (p.settle unit))

/-- The events that report units. -/
def reports (p : Pending) (units : List Chunk) : List Event :=
  (deliveries p units).filterMap Occurrence.event?

theorem reports_append (p : Pending) (units more : List Chunk) :
    reports p (units ++ more)
      = reports p units ++ reports (units.foldl Pending.settle p) more := by
  rw [reports, deliveries_append, List.filterMap_append]
  rfl

theorem isClosed_report (p : Pending) (unit : Chunk) : (p.report unit).isClosed = false := by
  unfold Pending.report
  split
  · split <;> rfl
  · rfl
  · rfl

theorem filter_reports (p : Pending) (units : List Chunk) :
    (reports p units).filter (!·.isClosed) = reports p units := by
  induction units generalizing p with
  | nil => rfl
  | cons unit units ih =>
    change List.filter _ (p.report unit :: reports (p.settle unit) units) = _
    rw [List.filter_cons_of_pos (by simp [isClosed_report]), ih]
    rfl

/-- The connection once these units were read, where these bytes are left. -/
def reading (c : Connection) (units : List Chunk) (rest : Bytes) : Connection :=
  { c with inbox := rest, pending := units.foldl Pending.settle c.pending }

/-- The reader goes on only where more bytes may arrive. -/
theorem stopCause?_eq_none_iff {c : Connection} {ending : Chunk.Ending} :
    c.stopCause? ending = none ↔ ending = .starved ∧ c.inboxEnd ≠ some .failure := by
  cases ending <;> simp [stopCause?]

section

variable {c : Connection} {run : Chunk.Run}

/-- A reader that goes on after a run of reads is still to get more bytes. -/
theorem inboxEnd_of_waiting (hrun : Chunk.run (c.inboxEnd == some .endOfStream) c.inbox = run)
    (hcause : c.stopCause? run.ending = none) : run.ending = .starved ∧ c.inboxEnd = none := by
  obtain ⟨hstarved, hfailure⟩ := stopCause?_eq_none_iff.1 hcause
  refine ⟨hstarved, ?_⟩
  cases hend : c.inboxEnd with
  | none => rfl
  | some how =>
    cases how with
    | failure => exact absurd hend hfailure
    | endOfStream =>
      rw [hend] at hrun
      exact absurd (hrun ▸ hstarved) (Chunk.ending_run_true c.inbox)

/-- A running reader reads all units that are there, where someone takes them. -/
theorem turn_of_running (hr : c.reader = .running)
    (hrun : Chunk.run (c.inboxEnd == some .endOfStream) c.inbox = run)
    (htaken : (!c.observed && !run.chunks.isEmpty) = false) :
    c.turn = deliveries c.pending run.chunks
      ++ if (c.stopCause? run.ending).isSome then [.closed] else [] := by
  simp only [turn, hr, hrun, htaken]
  rfl

theorem advance_of_waiting (hr : c.reader = .running)
    (hrun : Chunk.run (c.inboxEnd == some .endOfStream) c.inbox = run)
    (htaken : (!c.observed && !run.chunks.isEmpty) = false)
    (hcause : c.stopCause? run.ending = none) :
    c.advance = (c.reading run.chunks run.rest, reports c.pending run.chunks) := by
  -- Reading units changes nothing that the reason to stop depends on.
  have hstop : (c.reading run.chunks run.rest).stopCause? run.ending = none := hcause
  unfold reading at hstop
  simp only [advance, if_neg (not_not_intro hr), hrun, htaken, receiveAll_eq, hstop]
  rfl

theorem advance_of_stopping (hr : c.reader = .running)
    (hrun : Chunk.run (c.inboxEnd == some .endOfStream) c.inbox = run)
    (htaken : (!c.observed && !run.chunks.isEmpty) = false) {cause : Option StreamError}
    (hcause : c.stopCause? run.ending = some cause) :
    c.advance = (c.stop,
      if c.observed then reports c.pending run.chunks ++ [.closed cause] else []) := by
  have hstop : (c.reading run.chunks run.rest).stopCause? run.ending = some cause := hcause
  unfold reading at hstop
  simp only [advance, if_neg (not_not_intro hr), hrun, htaken, receiveAll_eq, hstop]
  rfl

end

/-- The turn of a reader that does not run changes nothing; that of a running one reads units, after
which it waits for bytes or stops. -/
theorem advance_cases (c : Connection) :
    (c.reader ≠ .running ∧ c.turn = [] ∧ c.advance = (c, []))
      ∨ (∃ units rest, c.reader = .running ∧ (∀ u ∈ units, u.IsRead)
        ∧ c.inboxEnd = none ∧ Chunk.run false rest = ⟨[], .starved, rest⟩
        ∧ c.turn = deliveries c.pending units
        ∧ c.advance = (c.reading units rest, reports c.pending units))
      ∨ (∃ units events, c.reader = .running ∧ (∀ u ∈ units, u.IsRead)
        ∧ c.turn = deliveries c.pending units ++ [.closed]
        ∧ c.advance = (c.stop, events)
        ∧ events.filter (!·.isClosed) = reports c.pending units) := by
  by_cases hr : c.reader = .running
  · right
    obtain ⟨run, hrun⟩ : ∃ run, Chunk.run (c.inboxEnd == some .endOfStream) c.inbox = run :=
      ⟨_, rfl⟩
    have hread : ∀ u ∈ run.chunks, u.IsRead := fun u hu => Chunk.isRead_of_mem_run (hrun ▸ hu)
    cases htaken : (!c.observed && !run.chunks.isEmpty) with
    | true =>
      right
      have hturn : c.turn = [.closed] := by simp only [turn, hr, hrun, htaken]; rfl
      have hadvance : c.advance = (c.stop, []) := by simp only [advance, hr, hrun, htaken]; rfl
      exact ⟨[], [], hr, by simp, hturn, hadvance, rfl⟩
    | false =>
      have hturn := turn_of_running hr hrun htaken
      cases hcause : c.stopCause? run.ending with
      | none =>
        left
        obtain ⟨hstarved, hend⟩ := inboxEnd_of_waiting hrun hcause
        have hrest := Chunk.run_rest_of_starved (hrun ▸ hstarved)
        rw [hrun, hend] at hrest
        exact ⟨run.chunks, run.rest, hr, hread, hend, hrest, by simp [hturn, hcause],
          advance_of_waiting hr hrun htaken hcause⟩
      | some cause =>
        right
        refine ⟨run.chunks, _, hr, hread, by simp [hturn, hcause],
          advance_of_stopping hr hrun htaken hcause, ?_⟩
        split
        next => rw [List.filter_append, filter_reports]; exact List.append_nil _
        next hobserved =>
          have hnone : run.chunks = [] := by simpa [hobserved] using htaken
          rw [hnone]
          rfl
  · left
    exact ⟨hr, if_pos hr, if_pos hr⟩

theorem legal_turn (c : Connection) : c.ledger.Legal c.turn := by
  rcases advance_cases c with ⟨-, hturn, -⟩ | ⟨units, rest, -, hread, -, -, hturn, -⟩
    | ⟨units, events, -, hread, hturn, -, -⟩
  · rw [hturn]
    trivial
  · rw [hturn]
    exact legal_deliveries hread
  · rw [hturn]
    exact Ledger.legal_append.2 ⟨legal_deliveries hread, trivial, trivial⟩

theorem ledger_advance (c : Connection) : c.advance.1.ledger = c.ledger.after c.turn := by
  rcases advance_cases c with ⟨-, hturn, hadvance⟩ | ⟨units, rest, -, -, -, -, hturn, hadvance⟩
    | ⟨units, events, -, -, hturn, hadvance, -⟩
  · rw [hturn, hadvance]
    rfl
  · rw [hturn, hadvance]
    exact (after_deliveries c.ledger units).symm
  · rw [hturn, hadvance, Ledger.after_append]
    rfl

theorem events_advance (c : Connection) :
    c.advance.2.filter (!·.isClosed) = c.turn.filterMap Occurrence.event? := by
  rcases advance_cases c with ⟨-, hturn, hadvance⟩ | ⟨units, rest, -, -, -, -, hturn, hadvance⟩
    | ⟨units, events, -, -, hturn, hadvance, hevents⟩
  · rw [hturn, hadvance]
    rfl
  · rw [hturn, hadvance]
    exact filter_reports c.pending units
  · rw [hturn, hadvance, hevents, List.filterMap_append]
    exact (List.append_nil _).symm

/-- After its turn the reader has nothing more to do. -/
theorem turn_advance (c : Connection) : c.advance.1.turn = [] := by
  rcases advance_cases c with ⟨hr, -, hadvance⟩ | ⟨units, rest, hr, -, hend, hrest, -, hadvance⟩
    | ⟨units, events, -, -, -, hadvance, -⟩
  · rw [hadvance]
    exact if_pos hr
  · rw [hadvance]
    have hstop : (c.reading units rest).stopCause? .starved = none :=
      stopCause?_eq_none_iff.2 ⟨rfl, by simp [reading, hend]⟩
    have hrunning : (c.reading units rest).reader = .running := hr
    have hrun : Chunk.run ((c.reading units rest).inboxEnd == some .endOfStream)
        (c.reading units rest).inbox = ⟨[], .starved, rest⟩ := by simp [reading, hend, hrest]
    simp [turn, hrunning, hrun, hstop, deliveries]
  · rw [hadvance]
    exact if_pos (by simp [stop])

/-! ## Actions -/

/-- What an action does by itself. -/
def outcome (c : Connection) : Action → List Occurrence
  | .send (.request r) =>
    match (c.send (.request r)).result with
    | .ok n => [.sent n r]
    | .error _ => []
  | .close => [.closed]
  | _ => []

/-- What happens in a step. -/
def occurrences (c : Connection) (action : Action) : List Occurrence :=
  c.outcome action ++ (c.act action).1.turn

/-- Nothing is written once the connection is closed. -/
theorem send_of_closed {c : Connection} (h : c.closed = true) (m : Message) :
    c.send m = ⟨c, [], .error .connectionClosed⟩ :=
  if_pos h

theorem sendData_of_closed {c : Connection} (h : c.closed = true) (f : Interleaved) :
    c.sendData f = ⟨c, [], .error .connectionClosed⟩ :=
  if_pos h

theorem send_request {c : Connection} (h : c.closed = false) (r : Request) :
    c.send (.request r) = c.sendRequest r :=
  if_neg (by simp [h])

theorem send_other {c : Connection} (h : c.closed = false) {m : Message}
    (hm : ∀ r, m ≠ .request r) : c.send m = c.write c m.encode (m.cseq?.getD 0) := by
  rw [send, if_neg (by simp [h])]
  exact hm

/-- Sending anything but a request leaves the connection as it was. -/
theorem connection_send {c : Connection} {m : Message} (hm : ∀ r, m ≠ .request r) :
    (c.send m).connection = c := by
  by_cases hclosed : c.closed = true
  · rw [send_of_closed hclosed]
  · rw [send_other (Bool.eq_false_iff.2 hclosed) hm]
    unfold write
    split <;> rfl

theorem connection_sendData (c : Connection) (f : Interleaved) :
    (c.sendData f).connection = c := by
  unfold sendData
  split
  · rfl
  · split
    · unfold write; split <;> rfl
    · rfl

/-- A request is refused, or its write fails, or it is written and pending. -/
theorem sendRequest_cases (c : Connection) (r : Request) :
    (c.closed = true ∧ c.send (.request r) = ⟨c, [], .error .connectionClosed⟩)
      ∨ (c.closed = false ∧ c.send (.request r)
        = ⟨{ c with nextCseq := c.nextCseq + 1 }, [], .error (.stream .writeFailed)⟩)
      ∨ (c.closed = false ∧ c.send (.request r)
        = ⟨{ c with nextCseq := c.nextCseq + 1, pending := c.pending.insert c.nextCseq r },
          (c.wireRequest r).encode, .ok c.nextCseq⟩) := by
  by_cases hclosed : c.closed = true
  · exact .inl ⟨hclosed, send_of_closed hclosed _⟩
  · rw [Bool.not_eq_true] at hclosed
    right
    rw [send_request hclosed]
    by_cases hwritable : c.writable = true
    · exact .inr ⟨hclosed, if_pos hwritable⟩
    · exact .inl ⟨hclosed, if_neg hwritable⟩

/-- Sending uses up a number and may make a request pending, and changes nothing else. -/
theorem connection_send_eq (c : Connection) (m : Message) :
    ∃ n p, (c.send m).connection = { c with nextCseq := n, pending := p } := by
  cases m with
  | request r =>
    rcases sendRequest_cases c r with ⟨-, hsend⟩ | ⟨-, hsend⟩ | ⟨-, hsend⟩ <;>
      exact ⟨_, _, congrArg Sent.connection hsend⟩
  | response r => exact ⟨_, _, connection_send (by simp)⟩
  | unknown u => exact ⟨_, _, connection_send (by simp)⟩

theorem legal_outcome (c : Connection) (action : Action) : c.ledger.Legal (c.outcome action) := by
  unfold outcome
  split
  next r =>
    rcases sendRequest_cases c r with ⟨-, hsend⟩ | ⟨-, hsend⟩ | ⟨hopen, hsend⟩
    · rw [hsend]
      trivial
    · rw [hsend]
      trivial
    · rw [hsend]
      exact ⟨hopen, trivial⟩
  next => exact ⟨trivial, trivial⟩
  next => trivial

theorem ledger_act (c : Connection) (action : Action) :
    (c.act action).1.ledger = c.ledger.after (c.outcome action) := by
  cases action with
  | send m =>
    cases m with
    | request r =>
      rcases sendRequest_cases c r with ⟨-, hsend⟩ | ⟨-, hsend⟩ | ⟨-, hsend⟩ <;>
        simp only [act, outcome, hsend] <;> rfl
    | response r => exact congrArg ledger (connection_send (by simp))
    | unknown u => exact congrArg ledger (connection_send (by simp))
  | sendData f => exact congrArg ledger (connection_sendData c f)
  | start | feed bytes | ignoreEvents =>
    unfold act
    dsimp only
    split <;> rfl
  | finish how | setWritable writable | close => rfl

/-! ## Runs -/

def after (c : Connection) (actions : List Action) : Connection :=
  actions.foldl (fun c action => (c.step action).1) c

/-- All that happens in a run. -/
def history (c : Connection) : List Action → List Occurrence
  | [] => []
  | action :: actions => c.occurrences action ++ history (c.step action).1 actions

/-- All events of a run. -/
def events (c : Connection) : List Action → List Event
  | [] => []
  | action :: actions => (c.step action).2.events ++ events (c.step action).1 actions

theorem after_append (c : Connection) (actions more : List Action) :
    c.after (actions ++ more) = (c.after actions).after more :=
  List.foldl_append

theorem events_append (c : Connection) (actions more : List Action) :
    c.events (actions ++ more) = c.events actions ++ (c.after actions).events more := by
  induction actions generalizing c with
  | nil => rfl
  | cons action actions ih =>
    rw [List.cons_append, events, ih, events, List.append_assoc]
    rfl

theorem history_append (c : Connection) (actions more : List Action) :
    c.history (actions ++ more) = c.history actions ++ (c.after actions).history more := by
  induction actions generalizing c with
  | nil => rfl
  | cons action actions ih =>
    rw [List.cons_append, history, ih, history, List.append_assoc]
    rfl

theorem legal_occurrences (c : Connection) (action : Action) :
    c.ledger.Legal (c.occurrences action) := by
  refine Ledger.legal_append.2 ⟨legal_outcome c action, ?_⟩
  rw [← ledger_act]
  exact legal_turn _

theorem ledger_step (c : Connection) (action : Action) :
    (c.step action).1.ledger = c.ledger.after (c.occurrences action) := by
  rw [occurrences, Ledger.after_append, ← ledger_act, ← ledger_advance]
  rfl

/-- The ledger that is kept from the history is that of the connection. -/
theorem ledger_after (c : Connection) (actions : List Action) :
    (c.after actions).ledger = c.ledger.after (c.history actions) := by
  induction actions generalizing c with
  | nil => rfl
  | cons action actions ih =>
    rw [history, Ledger.after_append, ← ledger_step]
    exact ih _

/-- Everything that happens is what the ledger allows at that point. -/
theorem legal_history (c : Connection) (actions : List Action) :
    c.ledger.Legal (c.history actions) := by
  induction actions generalizing c with
  | nil => trivial
  | cons action actions ih =>
    refine Ledger.legal_append.2 ⟨legal_occurrences c action, ?_⟩
    rw [← ledger_step]
    exact ih _

/-- By itself, an action only sends or closes. -/
theorem filterMap_outcome {α : Type} (c : Connection) (action : Action) {f : Occurrence → Option α}
    (hsent : ∀ n r, f (.sent n r) = none) (hclosed : f .closed = none) :
    (c.outcome action).filterMap f = [] := by
  unfold outcome
  split
  next =>
    split
    next => simp [hsent]
    next => rfl
  next => simp [hclosed]
  next => rfl

theorem events_step (c : Connection) (action : Action) :
    (c.step action).2.events.filter (!·.isClosed)
      = (c.occurrences action).filterMap Occurrence.event? := by
  rw [occurrences, List.filterMap_append, filterMap_outcome c action (fun _ _ => rfl) rfl,
    List.nil_append]
  exact events_advance _

/-- The events of a run report the units that were read, in order. -/
theorem filter_events (c : Connection) (actions : List Action) :
    (c.events actions).filter (!·.isClosed) = (c.history actions).filterMap Occurrence.event? := by
  induction actions generalizing c with
  | nil => rfl
  | cons action actions ih =>
    rw [events, history, List.filter_append, List.filterMap_append, events_step, ih]

/-! ### Requests in a history -/

theorem sent_not_mem_deliveries (p : Pending) (units : List Chunk) {n : UInt32} {r : Request} :
    .sent n r ∉ deliveries p units := by
  induction units generalizing p with
  | nil => exact List.not_mem_nil
  | cons unit units ih =>
    intro hmem
    rcases List.mem_cons.1 hmem with heq | hmem
    · cases heq
    · exact ih _ hmem

theorem sent_not_mem_turn (c : Connection) {n : UInt32} {r : Request} : .sent n r ∉ c.turn := by
  rcases advance_cases c with ⟨-, hturn, -⟩ | ⟨units, rest, -, -, -, -, hturn, -⟩
    | ⟨units, events, -, -, hturn, -, -⟩
  · rw [hturn]
    exact List.not_mem_nil
  · rw [hturn]
    exact sent_not_mem_deliveries _ _
  · rw [hturn]
    simp [sent_not_mem_deliveries]

theorem sent_mem_occurrences {c : Connection} {action : Action} {n : UInt32} {r : Request} :
    .sent n r ∈ c.occurrences action
      ↔ action = .send (.request r) ∧ (c.step action).2.result = .ok (some n) := by
  rw [occurrences, List.mem_append, or_iff_left (sent_not_mem_turn _)]
  change _ ↔ _ ∧ (c.act action).2.result = _
  unfold outcome
  split
  next q =>
    change _ ↔ _ ∧ (c.send (.request q)).result.map some = _
    cases (c.send (.request q)).result with
    | ok m => simp [Except.map, and_comm, eq_comm]
    | error e => simp [Except.map]
  next => simp
  next hrequest _ =>
    exact ⟨fun h => absurd h List.not_mem_nil, fun h => absurd h.1 (hrequest r)⟩

/-- The requests in the history are those whose sending returned their number. -/
theorem sent_mem_history {c : Connection} {actions : List Action} {n : UInt32} {r : Request} :
    .sent n r ∈ c.history actions
      ↔ ∃ before after, actions = before ++ .send (.request r) :: after
        ∧ ((c.after before).step (.send (.request r))).2.result = .ok (some n) := by
  induction actions generalizing c with
  | nil => simp [history]
  | cons action actions ih =>
    rw [history, List.mem_append, sent_mem_occurrences, ih]
    constructor
    · rintro (⟨rfl, hresult⟩ | ⟨before, after, rfl, hresult⟩)
      · exact ⟨[], actions, rfl, hresult⟩
      · exact ⟨action :: before, after, rfl, hresult⟩
    · rintro ⟨_ | ⟨first, before⟩, after, heq, hresult⟩
      · obtain ⟨rfl, rfl⟩ := List.cons.inj heq
        exact .inl ⟨rfl, hresult⟩
      · obtain ⟨rfl, rfl⟩ := List.cons.inj heq
        exact .inr ⟨before, after, rfl, hresult⟩

end Connection
end Rtsp
