-- SUMMARY: The events of a connection are told by the bytes that arrived and by how they ended.
import Rtsp.Proofs.Connection.Arrival

/-!
# Events

The intake of a run keeps what matters to the reader: the bytes that arrived, how they ended, and
whether it was started and the connection closed. It knows nothing of the reader itself. Still it
tells all events of the run (`Connection.Tells`): a reader that has passed on some units will read
the others from the bytes it has left (`Connection.Follows`), which no action changes and which its
turn completes.
-/

namespace Rtsp

/-- The unit that was read. -/
def Occurrence.unit? : Occurrence → Option Chunk
  | .received unit _ => some unit
  | _ => none

/-- The run behind one that read these units. -/
def Chunk.Run.behind (r : Chunk.Run) (units : List Chunk) : Chunk.Run :=
  { r with chunks := units ++ r.chunks }

namespace Connection

/-! ## Intake -/

/-- What the reader of a connection is to read. -/
structure Intake where
  started : Bool := false
  /-- All bytes that arrived. -/
  bytes : Bytes := []
  ending : Option StreamEnd := none
  /-- Whether the connection was closed on this side. -/
  closed : Bool := false
  deriving DecidableEq, Repr

namespace Intake

/-- There is nothing more to read. -/
def isOver (i : Intake) : Bool :=
  i.started && i.ending.isSome

/-- The intake after an action, while there may be more to read. -/
def next (i : Intake) : Action → Intake
  | .start => { i with started := true }
  | .feed bytes => { i with bytes := i.bytes ++ bytes }
  | .finish how => { i with ending := some (i.ending.getD how) }
  | .close => { i with closed := true }
  | _ => i

/-- What is done after the end of the stream comes too late. -/
def apply (i : Intake) (action : Action) : Intake :=
  if i.isOver then i else i.next action

def after (i : Intake) (actions : List Action) : Intake :=
  actions.foldl apply i

/-- Read all bytes that arrived. -/
def run (i : Intake) : Chunk.Run :=
  Chunk.run (i.ending == some .endOfStream) i.bytes

/-- The units that were read. -/
def units (i : Intake) : List Chunk :=
  if i.started then i.run.chunks else []

/-- The error that ended the reading. -/
def error? (i : Intake) : Option StreamError :=
  if i.ending = some .failure then some .readFailed
  else
    match i.run.ending with
    | .failed cause => some cause
    | _ => none

/-- The event that comes last. -/
def last (i : Intake) : List Event :=
  if i.isOver then [.closed (if i.closed then none else i.error?)] else []

theorem after_append (i : Intake) (actions more : List Action) :
    i.after (actions ++ more) = (i.after actions).after more :=
  List.foldl_append

theorem apply_of_isOver {i : Intake} (h : i.isOver = true) (action : Action) :
    i.apply action = i :=
  if_pos h

theorem apply_of_not_isOver {i : Intake} (h : ¬i.isOver = true) (action : Action) :
    i.apply action = i.next action :=
  if_neg h

/-- More bytes are waited for unless the stream has come to a regular end. -/
theorem ending_run_iff (i : Intake) :
    i.run.ending = .starved ↔ i.ending ≠ some .endOfStream := by
  rw [run]
  cases hend : i.ending == some .endOfStream with
  | true => simp [Chunk.ending_run_true, beq_iff_eq.1 hend]
  | false => simp [Chunk.ending_run_false, beq_eq_false_iff_ne.1 hend]

/-- Where the stream is over, a run of reads that has not finished has failed. -/
theorem error?_eq_none_iff {i : Intake} (h : i.isOver = true) :
    i.error? = none ↔ i.run.ending = .finished := by
  have hend := (Bool.and_eq_true_iff.1 h).2
  have hstarved := i.ending_run_iff
  cases hhow : i.ending with
  | none => simp [hhow] at hend
  | some how =>
    cases how with
    | failure => simp [error?, hhow, hstarved.2 (by simp [hhow])]
    | endOfStream =>
      cases hrun : i.run.ending with
      | starved => exact absurd hhow (hstarved.1 hrun)
      | failed cause => simp [error?, hhow, hrun]
      | finished => simp [error?, hhow, hrun]

theorem started_of_isOver {i : Intake} (h : i.isOver = true) : i.started = true :=
  (Bool.and_eq_true_iff.1 h).1

theorem started_apply (i : Intake) (action : Action) :
    (i.apply action).started = true ↔ i.started = true ∨ action = .start := by
  by_cases hover : i.isOver = true
  · rw [apply_of_isOver hover]
    simp [started_of_isOver hover]
  · rw [apply_of_not_isOver hover]
    cases action <;> simp [next]

theorem started_after (i : Intake) (actions : List Action) :
    (i.after actions).started = true ↔ i.started = true ∨ .start ∈ actions := by
  induction actions generalizing i with
  | nil => simp [after]
  | cons action actions ih =>
    change ((i.apply action).after actions).started = true ↔ _
    rw [ih, started_apply, List.mem_cons, or_assoc, eq_comm (a := action)]

/-- The intake of a run in which the connection was closed on this side. -/
def shut (i : Intake) : Intake :=
  { i with closed := true }

theorem apply_shut (i : Intake) (action : Action) : i.shut.apply action = (i.apply action).shut := by
  by_cases hover : i.isOver = true
  · have hshut : i.shut.isOver = true := hover
    rw [apply_of_isOver hover, apply_of_isOver hshut]
  · have hshut : ¬i.shut.isOver = true := hover
    rw [apply_of_not_isOver hover, apply_of_not_isOver hshut]
    cases action <;> rfl

theorem after_shut (i : Intake) (actions : List Action) :
    i.shut.after actions = (i.after actions).shut := by
  induction actions generalizing i with
  | nil => rfl
  | cons action actions ih =>
    change (i.shut.apply action).after actions = ((i.apply action).after actions).shut
    rw [apply_shut, ih]

/-- Whether the connection was closed on this side is all that closing it there changes. -/
theorem shut_after_close (i : Intake) (before more : List Action) :
    (i.after (before ++ .close :: more)).shut = (i.after (before ++ more)).shut := by
  rw [after_append, after_append]
  change (((i.after before).apply .close).after more).shut = _
  by_cases hover : (i.after before).isOver = true
  · rw [apply_of_isOver hover]
  · have hclose : (i.after before).apply .close = (i.after before).shut :=
      apply_of_not_isOver hover _
    rw [hclose, after_shut]
    rfl

theorem units_after_close (i : Intake) (before more : List Action) :
    (i.after (before ++ .close :: more)).units = (i.after (before ++ more)).units := by
  have hshut : ∀ j : Intake, j.units = j.shut.units := fun _ => rfl
  rw [hshut, shut_after_close, ← hshut]

theorem length_last_after_close (i : Intake) (before more : List Action) :
    (i.after (before ++ .close :: more)).last.length = (i.after (before ++ more)).last.length := by
  have hshut : ∀ j : Intake, j.last.length = j.shut.last.length := by
    intro j
    rw [last, last]
    change _ = (if j.isOver then _ else _ : List Event).length
    split <;> rfl
  rw [hshut, shut_after_close, ← hshut]

end Intake

/-! ## Following the stream -/

/-- The reader is where it should be once it has passed on the units `passed`. -/
inductive Follows (c : Connection) : Intake → List Chunk → Prop
  | notStarted (hr : c.reader = .notStarted) :
    Follows c ⟨false, c.inbox, c.inboxEnd, c.closed⟩ []
  | running {bytes : Bytes} {passed : List Chunk} (hr : c.reader = .running)
    (hrun : ∀ ended, Chunk.run ended bytes = (Chunk.run ended c.inbox).behind passed) :
    Follows c ⟨true, bytes, c.inboxEnd, c.closed⟩ passed
  | stopped {i : Intake} (hr : c.reader = .stopped) (hover : i.isOver = true) :
    Follows c i i.units

section

variable {c : Connection} {i : Intake} {passed : List Chunk}

theorem Follows.of_eq {d : Connection} (h : c.Follows i passed) (hreader : d.reader = c.reader)
    (hinbox : d.inbox = c.inbox) (hend : d.inboxEnd = c.inboxEnd) (hclosed : d.closed = c.closed) :
    d.Follows i passed := by
  cases h with
  | notStarted hr =>
    rw [← hinbox, ← hend, ← hclosed]
    exact .notStarted (hreader.trans hr)
  | running hr hrun =>
    rw [← hinbox] at hrun
    rw [← hend, ← hclosed]
    exact .running (hreader.trans hr) hrun
  | stopped hr hover => exact .stopped (hreader.trans hr) hover

/-- Between two steps, the reader has stopped where the stream is over. -/
theorem Follows.isOver_iff (h : c.Follows i passed) (hidle : c.Idle) :
    i.isOver = true ↔ c.reader = .stopped := by
  cases h with
  | notStarted hr => simp [hr, Intake.isOver]
  | running hr hrun => simp [hr, Intake.isOver, (hidle hr).1]
  | stopped hr hover => simp [hr, hover]

theorem Follows.started_iff (h : c.Follows i passed) :
    i.started = true ↔ c.reader ≠ .notStarted := by
  cases h with
  | notStarted hr => simp [hr]
  | running hr hrun => simp [hr]
  | stopped hr hover => simp [hr, Intake.started_of_isOver hover]

section

variable (h : c.Follows i passed) (hopen : c.reader ≠ .stopped)

include h hopen

/-- What was left to read when the reader is started is all that has arrived. -/
theorem Follows.act_start : (c.act .start).1.Follows (i.next .start) passed := by
  cases h with
  | notStarted hr =>
    have hact : (c.act .start).1 = { c with reader := .running } := congrArg Prod.fst (if_pos hr)
    rw [hact]
    exact .running (c := { c with reader := .running }) rfl fun _ => rfl
  | running hr hrun =>
    have hact : (c.act .start).1 = c := congrArg Prod.fst (if_neg (by simp [hr]))
    rw [hact]
    exact .running hr hrun
  | stopped hr hover => exact absurd hr hopen

theorem Follows.act_feed (more : Bytes) :
    (c.act (.feed more)).1.Follows (i.next (.feed more)) passed := by
  have hact : (c.act (.feed more)).1 = { c with inbox := c.inbox ++ more } := if_neg hopen
  rw [hact]
  cases h with
  | notStarted hr => exact .notStarted (c := { c with inbox := c.inbox ++ more }) hr
  | running hr hrun =>
    refine .running (c := { c with inbox := c.inbox ++ more }) hr fun ended => ?_
    dsimp only
    rw [Chunk.run_append, hrun, Chunk.run_append ended c.inbox]
    simp [Chunk.Run.behind]
  | stopped hr hover => exact absurd hr hopen

theorem Follows.act_finish (how : StreamEnd) :
    (c.act (.finish how)).1.Follows (i.next (.finish how)) passed := by
  have hact : (c.act (.finish how)).1 = { c with inboxEnd := some (c.inboxEnd.getD how) } := rfl
  rw [hact]
  cases h with
  | notStarted hr => exact .notStarted (c := { c with inboxEnd := _ }) hr
  | running hr hrun => exact .running (c := { c with inboxEnd := _ }) hr hrun
  | stopped hr hover => exact absurd hr hopen

theorem Follows.act_close : (c.act .close).1.Follows (i.next .close) passed := by
  cases h with
  | notStarted hr => exact .notStarted (c := c.shut) hr
  | running hr hrun => exact .running (c := c.shut) hr hrun
  | stopped hr hover => exact absurd hr hopen

end

/-- An action changes the stream, and the reader where it is. -/
theorem Follows.act (h : c.Follows i passed) (hidle : c.Idle) (action : Action) :
    (c.act action).1.Follows (i.apply action) passed := by
  by_cases hstopped : c.reader = .stopped
  · have hover := (h.isOver_iff hidle).2 hstopped
    rw [Intake.apply_of_isOver hover]
    cases h with
    | notStarted hr => cases hr.symm.trans hstopped
    | running hr hrun => cases hr.symm.trans hstopped
    | stopped hr hover => exact .stopped ((reader_act c action).2 hr) hover
  · rw [Intake.apply_of_not_isOver (mt (h.isOver_iff hidle).1 hstopped)]
    cases action with
    | start => exact h.act_start hstopped
    | send m =>
      obtain ⟨n, p, hsend⟩ := connection_send_eq c m
      change (c.send m).connection.Follows i passed
      rw [hsend]
      exact h.of_eq rfl rfl rfl rfl
    | sendData f =>
      change (c.sendData f).connection.Follows i passed
      rwa [connection_sendData]
    | feed more => exact h.act_feed hstopped more
    | finish how => exact h.act_finish hstopped how
    | setWritable writable => exact h.of_eq rfl rfl rfl rfl
    | close => exact h.act_close hstopped
    | ignoreEvents =>
      change (if c.reader = .notStarted then c else { c with observed := false }).Follows i passed
      split
      next => exact h
      next => exact h.of_eq rfl rfl rfl rfl

/-- A running reader stops at the end of the stream, with the error there. -/
theorem stopCause?_eq (c : Connection) {ending : Chunk.Ending}
    (hending : i.run.ending = ending) (hend : i.ending = c.inboxEnd) (hclosed : i.closed = c.closed)
    (hstarted : i.started = true) :
    c.stopCause? ending
      = if i.isOver then some (if i.closed then none else i.error?) else none := by
  subst hending
  have hstarved := i.ending_run_iff
  rw [hclosed]
  cases hhow : i.ending with
  | none =>
    have hwaits := hstarved.2 (by simp [hhow])
    simp [stopCause?, Intake.isOver, hwaits, ← hend, hhow]
  | some how =>
    cases how with
    | failure =>
      have hwaits := hstarved.2 (by simp [hhow])
      simp [stopCause?, Intake.isOver, Intake.error?, hwaits, hstarted, ← hend, hhow]
    | endOfStream =>
      cases hrun : i.run.ending with
      | starved => exact absurd hhow (hstarved.1 hrun)
      | failed cause => simp [stopCause?, Intake.isOver, Intake.error?, hrun, hstarted, hhow]
      | finished => simp [stopCause?, Intake.isOver, Intake.error?, hrun, hstarted, hhow]

theorem filterMap_unit?_deliveries (p : Pending) (units : List Chunk) :
    (deliveries p units).filterMap Occurrence.unit? = units := by
  induction units generalizing p with
  | nil => rfl
  | cons unit units ih => exact congrArg (unit :: ·) (ih (p.settle unit))

/-- A reader that has passed on the units that were there goes on with the bytes that are left. -/
theorem follows_reading {bytes : Bytes} {run : Chunk.Run} (hr : c.reader = .running)
    (hrun : ∀ ended, Chunk.run ended bytes = (Chunk.run ended c.inbox).behind passed)
    (hread : Chunk.run false c.inbox = run) :
    (c.reading run.chunks run.rest).Follows ⟨true, bytes, c.inboxEnd, c.closed⟩
      (passed ++ run.chunks) := by
  refine .running (c := c.reading run.chunks run.rest) hr fun ended => ?_
  have hrest := Chunk.run_append ended c.inbox []
  rw [List.append_nil, List.append_nil, hread] at hrest
  rw [hrun, hrest]
  simp [Chunk.Run.behind, reading]

/-- In its turn the reader passes on what is left to read, and at the end of the stream it stops. -/
theorem Follows.advance (h : c.Follows i passed) (hobserved : c.observed = true) :
    c.advance.1.Follows i i.units
      ∧ passed ++ c.turn.filterMap Occurrence.unit? = i.units
      ∧ c.advance.2 = c.turn.filterMap Occurrence.event?
        ++ (if c.reader = .stopped then [] else i.last) := by
  cases h with
  | notStarted hr =>
    have hadvance : c.advance = (c, []) := if_pos (by simp [hr])
    have hturn : c.turn = [] := if_pos (by simp [hr])
    rw [hadvance, hturn]
    exact ⟨.notStarted hr, rfl, by simp [Intake.last, Intake.isOver]⟩
  | stopped hr hover =>
    have hadvance : c.advance = (c, []) := if_pos (by simp [hr])
    have hturn : c.turn = [] := if_pos (by simp [hr])
    rw [hadvance, hturn]
    exact ⟨.stopped hr hover, List.append_nil _, by simp [hr]⟩
  | @running bytes _ hr hrun =>
    obtain ⟨i, hi⟩ : ∃ i, i = (⟨true, bytes, c.inboxEnd, c.closed⟩ : Intake) := ⟨_, rfl⟩
    obtain ⟨run, hleft⟩ : ∃ run, Chunk.run (c.inboxEnd == some .endOfStream) c.inbox = run :=
      ⟨_, rfl⟩
    have hall : i.run = run.behind passed := by
      rw [hi, Intake.run, hrun, ← hleft]
    have hunits : i.units = passed ++ run.chunks := by
      rw [Intake.units, hall, hi]
      rfl
    have htaken : (!c.observed && !run.chunks.isEmpty) = false := by simp [hobserved]
    have hturn := turn_of_running hr hleft htaken
    have hending : i.run.ending = run.ending := by rw [hall]; rfl
    have hcause := stopCause?_eq c hending (by rw [hi]) (by rw [hi]) (by rw [hi])
    rw [← hi, hunits]
    by_cases hover : i.isOver = true
    · rw [if_pos hover] at hcause
      rw [advance_of_stopping hr hleft htaken hcause, hturn, hcause, if_pos hobserved]
      refine ⟨?_, ?_, ?_⟩
      · rw [← hunits]
        exact .stopped rfl hover
      · simp [filterMap_unit?_deliveries, Occurrence.unit?]
      · simp [Intake.last, hover, hr, reports, Occurrence.event?]
    · rw [if_neg hover] at hcause
      have hend : c.inboxEnd = none := by simpa [Intake.isOver, hi] using hover
      rw [advance_of_waiting hr hleft htaken hcause, hturn, hcause]
      refine ⟨?_, ?_, ?_⟩
      · rw [hi]
        exact follows_reading hr hrun (by rwa [hend] at hleft)
      · simp [filterMap_unit?_deliveries]
      · simp [Intake.last, hover, hr, reports]

theorem observed_act {action : Action}
    (h : action = .ignoreEvents → c.reader = .notStarted) :
    (c.act action).1.observed = c.observed := by
  cases action with
  | send m =>
    obtain ⟨n, p, hsend⟩ := connection_send_eq c m
    simp only [act, hsend]
  | sendData f => exact congrArg observed (connection_sendData c f)
  | ignoreEvents => exact congrArg observed (if_pos (h rfl))
  | start | feed bytes =>
    unfold act
    dsimp only
    split <;> rfl
  | finish how | setWritable writable | close => rfl

theorem observed_advance (c : Connection) : c.advance.1.observed = c.observed := by
  rcases advance_cases c with ⟨-, -, h⟩ | ⟨units, rest, -, -, -, -, -, h⟩
    | ⟨units, events, -, -, -, h, -⟩ <;> rw [h] <;> rfl

/-- In a step whose events are taken, the reader passes on what it can now read. The event that
comes last stays the last. -/
theorem Follows.step (h : c.Follows i i.units) (hidle : c.Idle) (hobserved : c.observed = true)
    {action : Action} (htaken : action = .ignoreEvents → c.reader = .notStarted) :
    (c.step action).1.Follows (i.apply action) (i.apply action).units
      ∧ (c.step action).1.observed = true
      ∧ i.units ++ (c.occurrences action).filterMap Occurrence.unit? = (i.apply action).units
      ∧ i.last ++ (c.step action).2.events
        = (c.occurrences action).filterMap Occurrence.event? ++ (i.apply action).last := by
  have hstill : (c.act action).1.observed = true := (observed_act htaken).trans hobserved
  obtain ⟨hnext, hread, hpassed⟩ := (h.act hidle action).advance hstill
  refine ⟨hnext, (observed_advance _).trans hstill, ?_, ?_⟩
  · rw [occurrences, List.filterMap_append, filterMap_outcome c action (fun _ _ => rfl) rfl]
    exact hread
  · change i.last ++ (c.act action).1.advance.2 = _
    rw [occurrences, List.filterMap_append, filterMap_outcome c action (fun _ _ => rfl) rfl, hpassed]
    by_cases hstopped : c.reader = .stopped
    · have hact := (reader_act c action).2 hstopped
      have hturn : (c.act action).1.turn = [] := if_pos (by simp [hact])
      have hover := (h.isOver_iff hidle).2 hstopped
      simp [hact, hturn, Intake.apply_of_isOver hover]
    · have hopen : ¬i.isOver = true := mt (h.isOver_iff hidle).1 hstopped
      simp [mt (reader_act c action).1 hstopped, Intake.last, hopen]

end

/-! ## Runs -/

/-- Someone takes all events from the start of the reader on. -/
def Kept (actions : List Action) : Prop :=
  actions.Pairwise fun a b => a = .start → b ≠ .ignoreEvents

instance (actions : List Action) : Decidable (Kept actions) :=
  inferInstanceAs (Decidable (List.Pairwise _ actions))

theorem kept_concat {actions : List Action} {action : Action} :
    Kept (actions ++ [action]) ↔ Kept actions ∧ (.start ∈ actions → action ≠ .ignoreEvents) := by
  simp only [Kept, List.pairwise_append, List.pairwise_singleton, List.mem_singleton, forall_eq,
    true_and]
  exact and_congr_right fun _ => ⟨fun h hstart => h _ hstart rfl, fun h _ hmem heq => h (heq ▸ hmem)⟩

/-- What the events of a run say about the bytes that arrived. -/
structure Tells (stream : Intake) (told : List Occurrence) (events : List Event) : Prop where
  /-- The units are those that are read from all bytes that arrived. -/
  units : told.filterMap Occurrence.unit? = stream.units
  /-- Each is reported by one event, and the event that comes last follows the others. -/
  events : events = told.filterMap Occurrence.event? ++ stream.last

theorem follows_after (userAgent : Option String) (nextCseq : UInt32) {actions : List Action}
    (hkept : Kept actions) :
    let start := fresh userAgent nextCseq
    let stream := Intake.after {} actions
    (start.after actions).Follows stream stream.units
      ∧ (start.after actions).observed = true
      ∧ Tells stream (start.history actions) (start.events actions) := by
  intro start stream
  induction actions using List.reverseRecOn with
  | nil => exact ⟨.notStarted (c := start) rfl, rfl, rfl, rfl⟩
  | append_singleton actions action ih =>
    obtain ⟨hkept, htaken⟩ := kept_concat.1 hkept
    obtain ⟨hfollows, hobserved, hunits, hevents⟩ := ih hkept
    have hidle := idle_after (idle_fresh userAgent nextCseq) actions
    have hstream : stream = (Intake.after {} actions).apply action :=
      Intake.after_append {} actions [action]
    have hignored : action = .ignoreEvents → (start.after actions).reader = .notStarted := by
      intro hignore
      by_contra hstarted
      have hmem := (Intake.started_after {} actions).1 (hfollows.started_iff.2 hstarted)
      exact htaken (hmem.resolve_left Bool.false_ne_true) hignore
    obtain ⟨hnext, hstill, hread, hpassed⟩ := hfollows.step hidle hobserved hignored
    have hstep : start.events (actions ++ [action])
        = start.events actions ++ ((start.after actions).step action).2.events := by
      rw [events_append]
      exact congrArg _ (List.append_nil _)
    have hhistory : start.history (actions ++ [action])
        = start.history actions ++ (start.after actions).occurrences action := by
      rw [history_append]
      exact congrArg _ (List.append_nil _)
    rw [after_concat, hstream, hstep, hhistory]
    refine ⟨hnext, hstill, ?_, ?_⟩
    · rw [List.filterMap_append, hunits, hread]
    · rw [List.filterMap_append, hevents, List.append_assoc, hpassed, List.append_assoc]

/-! ## Ends -/

/-- What the last event says about the end of the stream. -/
structure ClosesWith (stream : Intake) (last : Event) : Prop where
  closed : last.isClosed = true
  /-- No reason is given at a regular end, and none once the connection was closed on this side. -/
  reason_iff : last.reason? = none ↔ stream.run.ending = .finished ∨ stream.closed = true
  /-- A reason is the text of the error. -/
  text : ∀ text, last.reason? = some text →
    ∃ cause, stream.error? = some cause ∧ (Error.stream cause).message = text

theorem Intake.closesWith {i : Intake} (h : i.isOver = true) :
    ∃ last, i.last = [last] ∧ ClosesWith i last := by
  refine ⟨_, if_pos h, rfl, ?_, ?_⟩
  · cases hclosed : i.closed with
    | true => simp [Event.reason?]
    | false => simp [Event.reason?, Intake.error?_eq_none_iff h]
  · intro text htext
    cases hclosed : i.closed with
    | true => simp [Event.reason?, hclosed] at htext
    | false => simpa [Event.reason?, hclosed] using htext

/-- A reader that has stopped reports nothing. -/
theorem events_of_stopped {c : Connection} (h : c.reader = .stopped) (actions : List Action) :
    c.events actions = [] := by
  induction actions generalizing c with
  | nil => rfl
  | cons action actions ih =>
    have hact := (reader_act c action).2 h
    have hadvance : (c.act action).1.advance = ((c.act action).1, []) := if_pos (by simp [hact])
    rw [events, ih (reader_step h action), List.append_nil]
    exact congrArg Prod.snd hadvance

/-- Closing a connection leaves its reader to wait as before. -/
theorem events_step_close {c : Connection} (h : c.Idle) : (c.step .close).2.events = [] := by
  have hshut : c.shut.Idle := h
  exact congrArg Prod.snd (advance_of_idle hshut)

/-- A reader can be started once. -/
theorem step_start_again {c : Connection} (h : c.Idle) (hstarted : c.reader ≠ .notStarted) :
    c.step .start = (c, { result := .error .alreadyStarted }) := by
  have hact : c.act .start = (c, { result := .error .alreadyStarted }) := if_neg hstarted
  simp only [step, hact, advance_of_idle h]

theorem length_filterMap_event? (told : List Occurrence) :
    (told.filterMap Occurrence.event?).length = (told.filterMap Occurrence.unit?).length := by
  induction told with
  | nil => rfl
  | cons o told ih =>
    cases o with
    | received unit event => exact congrArg (· + 1) ih
    | sent n r => exact ih
    | closed => exact ih

theorem Tells.length {stream : Intake} {told : List Occurrence} {events : List Event}
    (h : Tells stream told events) :
    events.length = stream.units.length + stream.last.length := by
  rw [h.events, List.length_append, length_filterMap_event?, h.units]

/-- A run whose events are taken has one event for each unit that is read from the bytes that
arrived, and one more once the stream is over, after which there are none. Closing the connection
neither adds nor drops an event, and starting it again does nothing. -/
theorem told_in_full (userAgent : Option String) (nextCseq : UInt32) (actions : List Action)
    (hkept : Kept actions) :
    let start := fresh userAgent nextCseq
    let stream := Intake.after {} actions
    let told := start.history actions
    Tells stream told (start.events actions)
      ∧ (∀ before unit event after, told = before ++ .received unit event :: after →
        event = (({} : Ledger).after before).pending.report unit ∧ event.isClosed = false)
      ∧ (stream.isOver = false → stream.last = [])
      ∧ (stream.isOver = true → (∃ last, stream.last = [last] ∧ ClosesWith stream last)
        ∧ ∀ more, start.events (actions ++ more) = start.events actions)
      ∧ (∀ before after, actions = before ++ .close :: after →
        ((start.after before).step .close).2.events = []
          ∧ (start.history (before ++ after)).filterMap Occurrence.unit?
            = told.filterMap Occurrence.unit?
          ∧ (start.events (before ++ after)).length = (start.events actions).length)
      ∧ (.start ∈ actions → (start.after actions).step .start
        = (start.after actions, { result := .error .alreadyStarted })) := by
  intro start stream told
  obtain ⟨hfollows, -, htells⟩ := follows_after userAgent nextCseq hkept
  have hidle : ∀ actions, (start.after actions).Idle := idle_after (idle_fresh userAgent nextCseq)
  refine ⟨htells, ?_, fun hopen => if_neg (by simp [hopen]), fun hover => ⟨Intake.closesWith hover, ?_⟩,
    ?_, ?_⟩
  · intro before unit event after htold
    have hlegal : ({} : Ledger).Legal told := legal_history start actions
    rw [htold] at hlegal
    obtain ⟨-, ⟨-, hevent⟩, -⟩ := Ledger.legal_append.1 hlegal
    exact ⟨hevent, hevent ▸ isClosed_report _ unit⟩
  · intro more
    have hstopped := (hfollows.isOver_iff (hidle actions)).1 hover
    rw [events_append, events_of_stopped hstopped, List.append_nil]
  · rintro before after rfl
    have hwithout : Kept (before ++ after) :=
      hkept.sublist ((List.sublist_cons_self _ _).append_left before)
    obtain ⟨-, -, hshorter⟩ := follows_after userAgent nextCseq hwithout
    have hunits := Intake.units_after_close {} before after
    have hlast := Intake.length_last_after_close {} before after
    refine ⟨events_step_close (hidle before), ?_, ?_⟩
    · rw [hshorter.units, htells.units, hunits]
    · rw [hshorter.length, htells.length, hunits, hlast]
  · intro hmem
    have hstarted := (Intake.started_after {} actions).2 (.inr hmem)
    exact step_start_again (hidle actions) (hfollows.started_iff.1 hstarted)

/-- A response arrives, half of it before the reader is started, and then the stream ends inside a
frame. The connection may be closed on this side before that. -/
theorem told_in_full_truncated :
    let question : Request := { method := .options, uri := "*" }
    let answer : Response := { status := 200, reason := "OK", headers := ⟨[("CSeq", "1")]⟩ }
    let reported : Event := .message (.response { answer with answers := some question })
    let before : List Action :=
      [.send (.request question), .feed (answer.encode.take 9), .start, .feed (answer.encode.drop 9),
        .feed [Interleaved.marker, 0, 0, 10, 1, 2]]
    let actions := before ++ [.start, .finish .endOfStream, .feed answer.encode]
    Kept actions
      ∧ (fresh none 1).events actions = [reported, .closed (some .endedInPayload)]
      ∧ Tells (Intake.after {} actions) ((fresh none 1).history actions)
        ((fresh none 1).events actions)
      ∧ (fresh none 1).events (before ++ [.close, .finish .endOfStream]) = [reported, .closed none] := by
  intro question answer reported before actions
  have hkept : Kept actions := by decide
  exact ⟨hkept, by decide +kernel, (told_in_full none 1 actions hkept).1, by decide +kernel⟩

end Connection
end Rtsp
