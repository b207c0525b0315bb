-- SUMMARY: Reading comes to an end: every read does, and so do repeated reads.
import Rtsp.Proofs.Framing.Source

/-!
# Progress

A read is a loop over phases, one for each part of a unit. It stays in a phase behind a line that is
too long, and goes back to the first one behind blank lines and skipped bodies. A turn of it goes
through the portions that are left at most once, and uses up a byte unless it answers
(`Source.length_bytes_of_turn`). So a read answers within one turn more than there are bytes
(`Source.follow_command`), whatever the bytes are. A unit takes three bytes or more, and behind an
error or the end nothing is left: repeated reads give finitely many units, at most one error, and
then the end for ever (`Source.reads_end`).
-/

namespace Rtsp

open Text

/-! ## The bytes of a unit -/

/-- A line that is not the last one takes a line feed and its text. -/
theorem Line.length_add_two_le_of_read {ended : Bool} {input rest : Bytes} {line : String}
    (h : read ended input = .done line rest) (hline : line ≠ "") (hrest : rest ≠ []) :
    rest.length + 2 ≤ input.length := by
  induction input using Line.induction with
  | last input hinput =>
    rw [read_of_not_mem hinput] at h
    split at h
    · exact absurd (Reading.done.inj h).2.symm hrest
    · exact absurd h Reading.missing_ne_done
  | cons front after hfront ih =>
    rw [read_cons hfront] at h
    split at h
    next =>
      obtain ⟨rfl, rfl⟩ := Reading.done.inj h
      have hne : front ≠ [] := by
        rintro rfl
        exact hline (by simp [text, Utf8.decodeLossy_nil])
      have hpos := List.length_pos_iff.2 hne
      simp only [List.length_append, List.length_cons]
      omega
    next =>
      have hlater := ih h
      simp only [List.length_append, List.length_cons]
      omega

namespace Chunk

/-- A message takes a start line and an empty line, and a frame takes a marker and a head. -/
theorem IsUnit.length_add_three_le {ended : Bool} {input : Bytes} {u : Located}
    (h : IsUnit ended input u) : u.rest.length + 3 ≤ input.length := by
  cases h with
  | frame payload =>
    obtain ⟨hi, lo, after, rfl, hread⟩ := Interleaved.read_eq_done_iff.1 payload
    have hrest := Reading.exactly_length_le hread
    simp only [List.length_cons]
    omega
  | @message _ r₁ r₂ r₃ body line headers marker first blank head length =>
    have hline : line ≠ "" := by
      rintro rfl
      cases blank
    have hrest : r₁ ≠ [] := by
      rintro rfl
      exact Nat.not_lt_zero _ (Headers.read_length_lt head)
    have hfirst := Line.length_add_two_le_of_read first hline hrest
    have hhead := Headers.read_length_lt head
    have hbody := Reading.exactly_length_le length
    dsimp only
    omega

theorem length_add_three_le_of_read {ended : Bool} {input rest : Bytes} {c : Chunk}
    (h : read ended input = .chunk c rest) : rest.length + 3 ≤ input.length := by
  induction input using front_induction ended with
  | unit input u hu ih =>
    have hunit := hu.length_add_three_le
    rw [read_eq_front, front_of_isUnit hu] at h
    cases hchunk : u.chunk with
    | some c' =>
      simp only [hchunk] at h
      obtain ⟨-, rfl⟩ := Outcome.chunk.inj h
      exact hunit
    | none =>
      simp only [hchunk] at h
      exact Nat.le_trans (ih h) hu.rest_length_lt.le
  | blank input after hblank ih =>
    rw [read_eq_front, front_of_isBlankLine hblank] at h
    exact Nat.le_trans (ih h) hblank.length_lt.le
  | stop input ending hstop =>
    rw [read_eq_front, hstop] at h
    cases ending <;> cases h

/-- A read fails only where the stream ends inside a unit. -/
theorem ended_of_read {ended : Bool} {input : Bytes} {cause : StreamError}
    (h : read ended input = .failed cause) :
    cause = .endedInMessage ∨ cause = .endedInPayload := by
  fun_induction read ended input with
  | case5 => exact .inr (Outcome.failed.inj h).symm
  | case8 _ _ _ _ _ _ _ ih => exact ih h
  | case10 => exact .inl (Outcome.failed.inj h).symm
  | case12 =>
    obtain rfl := Outcome.failed.inj h
    split
    · exact .inr rfl
    · exact .inl rfl
  | case14 _ _ _ _ _ _ _ _ _ _ _ _ _ _ _ ih => exact ih h
  | _ => cases h

end Chunk

namespace Source

/-! ## Turns -/

/-- Where the loop of a read stands. -/
inductive Phase where
  | command
  /-- The start line is read again, behind one that is too long. -/
  | startLine
  | headers (line : String) (h : Headers)
  | body (line : String) (h : Headers)
  | frame
  | payload (channel : UInt8) (length : Nat)
  deriving DecidableEq, Repr

/-- What a turn of the loop comes to. -/
inductive Turn where
  | next (phase : Phase) (s : Source)
  | answer (result : Except StreamError (Option Chunk)) (s : Source)

/-- A turn that takes a line. One that is too long is dropped, and another is taken `again`. -/
def lineTurn (again : Phase) (missing : Except StreamError (Option Chunk)) (found : String → Phase)
    (s : Source) : Turn :=
  match s.takeLine with
  | (line, rest) =>
    if line.isEmpty then .answer missing rest
    else if line.getLast? = some Line.lineFeed then .next (found (Line.text line.dropLast)) rest
    else if line.length = Line.limit then .next again rest.dropLine
    else .next (found (Line.text line)) rest

/-- What follows on a start line. -/
def Phase.behind (line : String) : Phase :=
  if line.toList.all isBlank then command else headers line {}

/-- What follows on a line behind the start line. -/
def Phase.behindField (line : String) (h : Headers) (field : String) : Phase :=
  if field.isEmpty then body line h else headers line (h.addLine field)

/-- One turn: what stands at the front is read, and says what is read next. -/
def turn : Phase → Source → Turn
  | .command, s =>
    match s.fill.buffer with
    | [] => .answer (.ok none) s.fill
    | first :: after =>
      if first = Interleaved.marker then .next .frame ⟨after, s.fill.later⟩
      else lineTurn .startLine (.ok none) .behind s.fill
  | .startLine, s => lineTurn .startLine (.ok none) .behind s
  | .headers line h, s =>
    lineTurn (.headers line h) (.error .endedInMessage) (.behindField line h) s
  | .body line h, s =>
    let length := h.contentLength?.getD 0
    match s.take length with
    | (body, rest) =>
      if length ≤ Chunk.bodyLimit then
        .answer (if body.length = length then .ok (some (.message (.ofParts line h body)))
          else .error .endedInPayload) rest
      else if body.length = length then .next .command rest
      else .answer (.error .endedInMessage) rest
  | .frame, s =>
    match s.take 3 with
    | ([channel, hi, lo], rest) => .next (.payload channel (ofBe16 hi lo).toNat) rest
    | (_, rest) => .answer (.error .endedInPayload) rest
  | .payload channel length, s =>
    match s.take length with
    | (payload, rest) =>
      .answer (if payload.length = length then .ok (some (.data ⟨channel, payload⟩))
        else .error .endedInPayload) rest

theorem length_bytes_take (n : Nat) (s : Source) :
    (s.take n).2.bytes.length + (s.take n).1.length = s.bytes.length := by
  rw [bytes_of_take (s := s) (Prod.eta _).symm, List.length_append, Nat.add_comm]

/-- A line that is taken uses up bytes, and so does one that is dropped. -/
theorem length_bytes_of_lineTurn {again p : Phase} {missing : Except StreamError (Option Chunk)}
    {found : String → Phase} {s rest : Source}
    (h : lineTurn again missing found s = .next p rest) :
    rest.bytes.length < s.bytes.length := by
  unfold lineTurn at h
  cases htaken : s.takeLine with
  | mk line after =>
    simp only [htaken] at h
    split at h
    next => cases h
    next hne =>
      have hless := length_bytes_of_takeLine htaken hne
      split at h
      next => exact (Turn.next.inj h).2 ▸ hless
      next =>
        split at h
        next =>
          rw [← (Turn.next.inj h).2]
          exact Nat.lt_of_le_of_lt after.length_bytes_dropLine_le hless
        next => exact (Turn.next.inj h).2 ▸ hless

/-- What a read comes to behind the headers of a message. -/
def readBody (line : String) (h : Headers) (s : Source) :
    Except StreamError (Option Chunk) × Source :=
  let length := h.contentLength?.getD 0
  match s.take length with
  | (body, rest) =>
    if length ≤ Chunk.bodyLimit then
      (if body.length = length then .ok (some (.message (.ofParts line h body)))
        else .error .endedInPayload, rest)
    else if body.length = length then rest.read
    else (.error .endedInMessage, rest)

/-- What a read comes to behind what may be a start line. -/
def readMessage : Option String × Source → Except StreamError (Option Chunk) × Source
  | (none, rest) => (.ok none, rest)
  | (some line, rest) =>
    if line.toList.all isBlank then rest.read
    else
      match readHeaders {} rest with
      | (none, rest) => (.error .endedInMessage, rest)
      | (some headers, rest) => readBody line headers rest

/-- What a read comes to from a phase on. -/
def resume : Phase → Source → Except StreamError (Option Chunk) × Source
  | .command, s => s.read
  | .startLine, s => readMessage s.readLine
  | .headers line h, s =>
    match readHeaders h s with
    | (none, rest) => (.error .endedInMessage, rest)
    | (some headers, rest) => readBody line headers rest
  | .body line h, s => readBody line h s
  | .frame, s =>
    match readFrame s with
    | (some frame, rest) => (.ok (some (.data frame)), rest)
    | (none, rest) => (.error .endedInPayload, rest)
  | .payload channel length, s =>
    match s.take length with
    | (payload, rest) =>
      (if payload.length = length then .ok (some (.data ⟨channel, payload⟩))
        else .error .endedInPayload, rest)

/-- What a turn leads to. -/
def Turn.outcome : Turn → Except StreamError (Option Chunk) × Source
  | .next p rest => resume p rest
  | .answer result rest => (result, rest)

/-- Taking lines until one fits is reading a line. -/
theorem outcome_lineTurn {again : Phase} {missing : Except StreamError (Option Chunk)}
    {found : String → Phase}
    (hagain : ∀ s, resume again s = match s.readLine with
      | (none, rest) => (missing, rest)
      | (some line, rest) => resume (found line) rest) (s : Source) :
    (lineTurn again missing found s).outcome = resume again s := by
  rw [hagain, readLine_eq, lineTurn]
  dsimp only
  split
  next => rfl
  next =>
    split
    next => rfl
    next =>
      split
      next => exact hagain _
      next => rfl

theorem read_eq_readMessage (s : Source) :
    s.read = match s.fill.buffer with
      | [] => (.ok none, s.fill)
      | first :: after =>
        if first = Interleaved.marker then resume .frame ⟨after, s.fill.later⟩
        else readMessage s.fill.readLine := by
  rw [read]
  split
  next hbuffer => simp only [hbuffer]
  next first after hbuffer =>
    simp only [hbuffer]
    split
    next hmarker =>
      cases hframe : readFrame ⟨after, s.fill.later⟩ with
      | mk frame rest => cases frame <;> simp only [resume, hframe]
    next hmarker =>
      split
      next rest hline => simp only [hline, readMessage]
      next line rest hline =>
        simp only [hline, readMessage, readBody]
        split
        next hblank => rfl
        next hblank => split <;> simp only [*]

theorem resume_startLine (s : Source) :
    resume .startLine s = match s.readLine with
      | (none, rest) => (.ok none, rest)
      | (some line, rest) => resume (.behind line) rest := by
  rw [resume]
  cases s.readLine with
  | mk read rest =>
    cases read with
    | none => rfl
    | some line =>
      simp only [readMessage, Phase.behind]
      split <;> rfl

theorem readHeaders_eq (h : Headers) (s : Source) :
    readHeaders h s = match s.readLine with
      | (none, rest) => (none, rest)
      | (some line, rest) =>
        if line.isEmpty then (some h, rest) else readHeaders (h.addLine line) rest := by
  rw [readHeaders]
  split <;> simp only [*]

theorem resume_headers (line : String) (h : Headers) (s : Source) :
    resume (.headers line h) s = match s.readLine with
      | (none, rest) => (.error .endedInMessage, rest)
      | (some field, rest) => resume (.behindField line h field) rest := by
  rw [resume, readHeaders_eq]
  cases s.readLine with
  | mk read rest =>
    cases read with
    | none => rfl
    | some field => cases hempty : field.isEmpty <;> simp only [Phase.behindField, hempty] <;> rfl

theorem resume_command (s : Source) : resume .command s = (turn .command s).outcome := by
  rw [resume, read_eq_readMessage, turn]
  split
  next => rfl
  next first after hbuffer =>
    split
    next => rfl
    next => rw [outcome_lineTurn resume_startLine, resume]

theorem resume_body (line : String) (h : Headers) (s : Source) :
    resume (.body line h) s = (turn (.body line h) s).outcome := by
  rw [resume, readBody, turn]
  dsimp only
  split
  next hle => rfl
  next hlong => split <;> rfl

theorem resume_frame (s : Source) : resume .frame s = (turn .frame s).outcome := by
  simp only [resume, readFrame, turn]
  rcases s.take 3 with ⟨_ | ⟨channel, _ | ⟨hi, _ | ⟨lo, _ | _⟩⟩⟩, rest⟩
  case cons.cons.cons.nil =>
    by_cases hall : (rest.take (ofBe16 hi lo).toNat).1.length = (ofBe16 hi lo).toNat
    · simp only [Turn.outcome, resume, if_pos hall]
    · simp only [Turn.outcome, resume, if_neg hall]
  all_goals rfl

/-- A turn is the first step of what is read from its phase on. -/
theorem resume_eq_turn (p : Phase) (s : Source) : resume p s = (turn p s).outcome := by
  cases p with
  | command => exact resume_command s
  | startLine => exact (outcome_lineTurn resume_startLine s).symm
  | headers line h => exact (outcome_lineTurn (resume_headers line h) s).symm
  | body line h => exact resume_body line h s
  | frame => exact resume_frame s
  | payload channel length => rfl

/-- The loop goes on only behind bytes that are used up. -/
theorem length_bytes_of_turn {p p' : Phase} {s rest : Source} (h : turn p s = .next p' rest) :
    rest.bytes.length < s.bytes.length := by
  cases p with
  | command =>
    rw [turn] at h
    split at h
    next => cases h
    next first after hbuffer =>
      split at h
      next =>
        obtain ⟨-, rfl⟩ := Turn.next.inj h
        rw [bytes_of_fill_cons hbuffer]
        exact Nat.lt_succ_self _
      next =>
        have hless := length_bytes_of_lineTurn h
        rwa [bytes_fill] at hless
  | startLine => exact length_bytes_of_lineTurn h
  | headers => exact length_bytes_of_lineTurn h
  | body line headers =>
    -- Only a body that is skipped, and so is not empty, is followed by another turn.
    rw [turn] at h
    dsimp only at h
    split at h
    next => cases h
    next hlong =>
      split at h
      next hall =>
        obtain ⟨-, rfl⟩ := Turn.next.inj h
        have hlength := length_bytes_take (headers.contentLength?.getD 0) s
        omega
      next => cases h
  | frame =>
    rw [turn] at h
    split at h
    next channel hi lo after htake =>
      obtain ⟨-, rfl⟩ := Turn.next.inj h
      have hlength := length_bytes_take 3 s
      simp only [htake, List.length_cons] at hlength
      omega
    next => cases h
  | payload => cases h

/-- What a read comes to from a phase on, if it answers within `n` turns. -/
def follow : Nat → Phase → Source → Option (Except StreamError (Option Chunk) × Source)
  | 0, _, _ => none
  | n + 1, p, s =>
    match turn p s with
    | .next p' rest => follow n p' rest
    | .answer result rest => some (result, rest)

theorem follow_of_lt {n : Nat} {s : Source} (h : s.bytes.length < n) (p : Phase) :
    follow n p s = some (resume p s) := by
  induction n generalizing p s with
  | zero => exact absurd h (Nat.not_lt_zero _)
  | succ n ih =>
    rw [follow, resume_eq_turn]
    split
    next p' rest hturn =>
      rw [hturn]
      exact ih (Nat.lt_of_lt_of_le (length_bytes_of_turn hturn) (Nat.le_of_lt_succ h)) p'
    next result rest hturn =>
      rw [hturn]
      rfl

/-- A read answers, whatever the bytes are. -/
theorem follow_command (s : Source) : follow (s.bytes.length + 1) .command s = some s.read :=
  follow_of_lt (Nat.lt_succ_self _) .command

/-! ## Repeated reads -/

theorem read_of_outcome {s : Source} {o : Chunk.Outcome} (h : Chunk.read true s.bytes = o) :
    s.read.1 = (outcome o).1 ∧ s.read.2.bytes = (outcome o).2 :=
  Prod.mk.inj (h ▸ read_eq s)

theorem reads_of_bytes_nil {s : Source} (h : s.bytes = []) (n : Nat) :
    reads n s = List.replicate n (.ok none, 0) := by
  induction n generalizing s with
  | zero => rfl
  | succ n ih =>
    obtain ⟨hresult, hrest⟩ : s.read.1 = .ok none ∧ s.read.2.bytes = [] :=
      read_of_outcome (by rw [h, Chunk.read, if_pos rfl])
    rw [reads, ih hrest, hresult, h, List.length_nil, Nat.zero_sub, List.replicate_succ]

/-- How repeated reads go: units, at most one error, and a first read that gives nothing, each with
the number of bytes that it uses up. -/
structure Course where
  units : List (Chunk × Nat)
  failure : Option (StreamError × Nat)
  last : Nat

def Course.results (c : Course) : List (Except StreamError (Option Chunk) × Nat) :=
  c.units.map (fun u => (.ok (some u.1), u.2)) ++ c.failure.toList.map (fun f => (.error f.1, f.2))
    ++ [(.ok none, c.last)]

/-- A read answers, whatever the bytes are. Repeated reads give finitely many units, each from three
bytes or more, and at most one error, where the stream ends inside a unit. Behind them nothing comes
for ever, and all bytes are used up by then. -/
theorem reads_end (s : Source) :
    follow (s.bytes.length + 1) .command s = some s.read
      ∧ ∃ c : Course, (∀ u ∈ c.units, 3 ≤ u.2)
        ∧ (∀ f ∈ c.failure, f.1 = .endedInMessage ∨ f.1 = .endedInPayload)
        ∧ (c.results.map (·.2)).sum = s.bytes.length
        ∧ ∀ n, reads (c.results.length + n) s = c.results ++ List.replicate n (.ok none, 0) := by
  refine ⟨follow_command s, ?_⟩
  induction hlength : s.bytes.length using Nat.strong_induction_on generalizing s with
  | h length ih =>
    subst hlength
    cases houtcome : Chunk.read true s.bytes with
    | chunk c rest =>
      obtain ⟨hresult, hrest⟩ : s.read.1 = .ok (some c) ∧ s.read.2.bytes = rest :=
        read_of_outcome houtcome
      have hle := Chunk.length_add_three_le_of_read houtcome
      rw [← hrest] at hle
      obtain ⟨course, hunits, hfailure, hsum, hreads⟩ := ih _ (by omega) s.read.2 rfl
      refine ⟨{ course with
        units := (c, s.bytes.length - s.read.2.bytes.length) :: course.units }, ?_, hfailure, ?_,
        fun n => ?_⟩
      · rintro u (_ | ⟨_, hu⟩)
        · exact Nat.le_sub_of_add_le' hle
        · exact hunits u hu
      · change s.bytes.length - s.read.2.bytes.length + (course.results.map (·.2)).sum = _
        omega
      · change reads (course.results.length + 1 + n) s = (_, _) :: (course.results ++ _)
        rw [Nat.add_right_comm, reads, hresult, hreads]
    | failed cause =>
      obtain ⟨hresult, hrest⟩ : s.read.1 = .error cause ∧ s.read.2.bytes = [] :=
        read_of_outcome houtcome
      refine ⟨⟨[], some (cause, s.bytes.length), 0⟩, by simp, ?_, by simp [Course.results],
        fun n => ?_⟩
      · rintro f ⟨⟩
        exact Chunk.ended_of_read houtcome
      · change reads (2 + n) s = _
        rw [Nat.add_comm, reads, hresult, reads_of_bytes_nil hrest, hrest]
        rfl
    | finished =>
      obtain ⟨hresult, hrest⟩ : s.read.1 = .ok none ∧ s.read.2.bytes = [] :=
        read_of_outcome houtcome
      refine ⟨⟨[], none, s.bytes.length⟩, by simp, by simp, by simp [Course.results], fun n => ?_⟩
      change reads (1 + n) s = _
      rw [Nat.add_comm, reads, hresult, reads_of_bytes_nil hrest, hrest]
      rfl
    | starved => exact absurd houtcome (Chunk.read_true _)

end Source
end Rtsp
