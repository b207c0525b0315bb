-- SUMMARY: It does not matter in which pieces bytes arrive.
import Rtsp.Proofs.Connection.Written
import Rtsp.Proofs.Framing.Source

/-!
# Arrival in pieces

Between two steps a running reader has read everything it could, and waits (`Connection.Idle`). What
it makes of more bytes is then told by one run of reads over what is left and what arrives, and such
runs can be put together (`Chunk.run_append`). So bytes that arrive piece by piece have the same
effect as if they had arrived at once (`Connection.after_pieces`).
-/

namespace Rtsp.Connection

/-! ## Waiting -/

/-- A running reader waits for more bytes to arrive. -/
def Idle (c : Connection) : Prop :=
  c.reader = .running → c.inboxEnd = none ∧ Chunk.run false c.inbox = ⟨[], .starved, c.inbox⟩

theorem idle_advance (c : Connection) : c.advance.1.Idle := by
  intro hrunning
  rcases advance_cases c with ⟨hr, -, hadvance⟩
    | ⟨units, rest, -, -, hend, hrest, -, hadvance⟩ | ⟨units, events, -, -, -, hadvance, -⟩
  · rw [hadvance] at hrunning
    exact absurd hrunning hr
  · rw [hadvance]
    exact ⟨hend, hrest⟩
  · rw [hadvance] at hrunning
    cases hrunning

theorem idle_after {c : Connection} (h : c.Idle) (actions : List Action) :
    (c.after actions).Idle := by
  induction actions using List.reverseRecOn with
  | nil => exact h
  | append_singleton actions action =>
    rw [after_concat]
    exact idle_advance _

theorem idle_fresh (userAgent : Option String) (nextCseq : UInt32) :
    (fresh userAgent nextCseq).Idle := by
  rintro ⟨⟩

/-- The turn of a running reader to which more bytes may arrive: it reads the units that are
complete, and stops if no one takes them. -/
theorem advance_of_open {c : Connection} (hr : c.reader = .running) (hend : c.inboxEnd = none)
    {run : Chunk.Run} (hrun : Chunk.run false c.inbox = run) :
    c.advance
      = if !c.observed && !run.chunks.isEmpty then (c.stop, [])
        else (c.reading run.chunks run.rest, reports c.pending run.chunks) := by
  have hrun' : Chunk.run (c.inboxEnd == some .endOfStream) c.inbox = run := by rwa [hend]
  cases htaken : (!c.observed && !run.chunks.isEmpty) with
  | true => simp only [advance, hr, hrun', htaken]; rfl
  | false =>
    have hcause : c.stopCause? run.ending = none := by
      rw [← hrun, Chunk.ending_run_false]
      exact stopCause?_eq_none_iff.2 ⟨rfl, by simp [hend]⟩
    exact advance_of_waiting hr hrun' htaken hcause

theorem advance_of_idle {c : Connection} (h : c.Idle) : c.advance = (c, []) := by
  by_cases hr : c.reader = .running
  · obtain ⟨hend, hrun⟩ := h hr
    rw [advance_of_open hr hend hrun]
    simp [reading, reports, deliveries]
  · exact if_pos hr

/-! ## Pieces -/

/-- What the arrival of bytes leads to: a connection, and events. -/
def feed (c : Connection) (bytes : Bytes) : Connection × List Event :=
  (c.act (.feed bytes)).1.advance

theorem feed_of_notStarted {c : Connection} (h : c.reader = .notStarted) (bytes : Bytes) :
    c.feed bytes = ({ c with inbox := c.inbox ++ bytes }, []) := by
  simp [feed, act, advance, h]

theorem feed_of_stopped {c : Connection} (h : c.reader = .stopped) (bytes : Bytes) :
    c.feed bytes = (c, []) := by
  simp [feed, act, advance, h]

theorem feed_of_running {c : Connection} (hr : c.reader = .running) (hend : c.inboxEnd = none)
    {bytes : Bytes} {run : Chunk.Run} (hrun : Chunk.run false (c.inbox ++ bytes) = run) :
    c.feed bytes
      = if !c.observed && !run.chunks.isEmpty then (c.stop, [])
        else (c.reading run.chunks run.rest, reports c.pending run.chunks) := by
  have hact : (c.act (.feed bytes)).1 = { c with inbox := c.inbox ++ bytes } := if_neg (by simp [hr])
  rw [feed, hact]
  exact advance_of_open (c := { c with inbox := c.inbox ++ bytes }) hr hend hrun

/-- Nothing happens while nothing arrives. -/
theorem feed_nil {c : Connection} (h : c.Idle) : c.feed [] = (c, []) := by
  have hact : (c.act (.feed [])).1 = c := by simp [act]
  rw [feed, hact, advance_of_idle h]

theorem reading_reading (c : Connection) (units more : List Chunk) (rest left : Bytes) :
    (c.reading units rest).reading more left = c.reading (units ++ more) left := by
  simp only [reading, List.foldl_append]

/-- Bytes that arrive together lead to what they lead to one after the other. -/
theorem feed_append {c : Connection} (h : c.Idle) (bytes more : Bytes) :
    c.feed (bytes ++ more)
      = (((c.feed bytes).1.feed more).1, (c.feed bytes).2 ++ ((c.feed bytes).1.feed more).2) := by
  cases hr : c.reader with
  | notStarted =>
    simp only [feed_of_notStarted hr]
    rw [feed_of_notStarted (c := { c with inbox := c.inbox ++ bytes }) hr, List.append_assoc]
    rfl
  | stopped => simp only [feed_of_stopped hr, List.append_nil]
  | running =>
    obtain ⟨hend, -⟩ := h hr
    obtain ⟨first, hfirst⟩ : ∃ run, Chunk.run false (c.inbox ++ bytes) = run := ⟨_, rfl⟩
    obtain ⟨second, hsecond⟩ : ∃ run, Chunk.run false (first.rest ++ more) = run := ⟨_, rfl⟩
    have hwhole : Chunk.run false (c.inbox ++ (bytes ++ more))
        = { second with chunks := first.chunks ++ second.chunks } := by
      rw [← List.append_assoc, Chunk.run_append, hfirst, hsecond]
    rw [feed_of_running hr hend hfirst, feed_of_running hr hend hwhole]
    have hnext : (c.reading first.chunks first.rest).feed more
        = if !c.observed && !second.chunks.isEmpty then ((c.reading first.chunks first.rest).stop, [])
          else (c.reading (first.chunks ++ second.chunks) second.rest,
            reports (first.chunks.foldl Pending.settle c.pending) second.chunks) := by
      rw [← reading_reading]
      exact feed_of_running (c := c.reading first.chunks first.rest) hr hend hsecond
    cases hobserved : c.observed with
    | true =>
      simp only [hobserved] at hnext
      simp [hnext, reports_append]
    | false =>
      simp only [hobserved] at hnext
      cases hchunks : first.chunks with
      | nil =>
        have hstop : (c.reading [] first.rest).stop = c.stop := rfl
        simp only [hchunks, hstop] at hnext
        simp [hnext, reports, deliveries]
      | cons unit units =>
        -- The first unit that no one takes stops the reader, wherever the cut is.
        simp [feed_of_stopped (c := c.stop) rfl]

theorem after_pieces (c : Connection) (h : c.Idle) (pieces : List Bytes) :
    (c.after (pieces.map .feed), c.events (pieces.map .feed)) = c.feed pieces.flatten := by
  induction pieces generalizing c with
  | nil => exact (feed_nil h).symm
  | cons piece pieces ih =>
    have hrest := ih (c.feed piece).1 (idle_advance _)
    rw [List.flatten_cons, feed_append h, ← hrest]
    rfl

theorem written_pieces (c : Connection) (pieces : List Bytes) :
    c.written (pieces.map .feed) = [] := by
  induction pieces generalizing c with
  | nil => rfl
  | cons piece pieces ih => exact ih _

/-- However the bytes of a stream are cut into the portions in which they can be read, the same
reads give the same results and leave the same number of bytes; and a connection to which bytes
arrive in pieces reports, writes and becomes what it would if they had arrived at once. -/
theorem same_in_pieces :
    (∀ s t : Source, s.bytes = t.bytes → ∀ n, Source.reads n s = Source.reads n t)
    ∧ ∀ (userAgent : Option String) (nextCseq : UInt32) (before after : List Action)
      (pieces : List Bytes),
      let start := fresh userAgent nextCseq
      let whole := before ++ .feed pieces.flatten :: after
      let cut := before ++ pieces.map .feed ++ after
      start.events cut = start.events whole ∧ start.written cut = start.written whole
        ∧ start.after cut = start.after whole := by
  refine ⟨fun s t h n => Source.reads_eq_of_bytes h n, ?_⟩
  intro userAgent nextCseq before after pieces start whole cut
  obtain ⟨c, hc⟩ : ∃ c, c = start.after before := ⟨_, rfl⟩
  have hidle : c.Idle := hc ▸ idle_after (idle_fresh userAgent nextCseq) before
  have hpieces := after_pieces c hidle pieces
  have hafter : c.after (pieces.map .feed) = c.after [.feed pieces.flatten] :=
    congrArg Prod.fst hpieces
  have hevents : c.events (pieces.map .feed) = c.events [.feed pieces.flatten] :=
    (congrArg Prod.snd hpieces).trans (List.append_nil _).symm
  have hwritten : c.written (pieces.map .feed) = c.written [.feed pieces.flatten] :=
    (written_pieces c pieces).trans (written_pieces c [pieces.flatten]).symm
  have hwhole : whole = before ++ [.feed pieces.flatten] ++ after := by simp [whole]
  rw [hwhole]
  simp only [cut, events_append, written_append, after_append, ← hc, hafter, hevents, hwritten,
    and_self]

/-- A response whose line ending is cut in two, by a small buffer or by its arrival. -/
theorem same_in_pieces_cut :
    let question : Request := { method := .options, uri := "*" }
    let status := "RTSP/1.0 200 OK\r".toUTF8.toList
    let fields := "\nCSeq: 1\r\n\r\n".toUTF8.toList
    let answer : Response :=
      { status := 200, reason := "OK", headers := ⟨[("CSeq", "1")]⟩, answers := some question }
    let before : List Action := [.start, .send (.request question)]
    Source.reads 2 (.ofBytes 1 (status ++ fields)) = Source.reads 2 (.ofBytes 16 (status ++ fields))
      ∧ (fresh none 1).events (before ++ [.feed status, .feed fields])
        = [.message (.response answer)]
      ∧ ((fresh none 1).after (before ++ [.feed status, .feed fields])).pending = {} := by
  intro question status fields answer before
  have hbytes : (Source.ofBytes 1 (status ++ fields)).bytes
      = (Source.ofBytes 16 (status ++ fields)).bytes :=
    (Source.bytes_ofBytes ..).trans (Source.bytes_ofBytes ..).symm
  obtain ⟨hreads, hpieces⟩ := same_in_pieces
  obtain ⟨hevents, -, hafter⟩ := hpieces none 1 before [] [status, fields]
  simp only [List.map_cons, List.map_nil, List.append_nil] at hevents hafter
  refine ⟨hreads _ _ hbytes 2, ?_, ?_⟩
  · rw [hevents]
    decide +kernel
  · rw [hafter]
    decide +kernel

end Rtsp.Connection
