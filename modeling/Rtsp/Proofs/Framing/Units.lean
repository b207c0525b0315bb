-- SUMMARY: Where the units of a stream begin and end, also those that are not delivered.
import Rtsp.Proofs.Framing.Arrival

/-!
# Units

The bytes of a stream are units, with blank lines and dropped lines between them. `Chunk.units`
lists the units with the places where they begin and end, and a run delivers the chunks of these
(`Chunk.chunks_run`). A unit whose bytes have all arrived is a unit of every longer stream, and a
unit of a longer stream that ends before the last arrival was there before
(`Chunk.IsUnit.append`, `Chunk.IsUnit.of_append`).
-/

namespace Rtsp

open Text

/-! ## Beginnings of lines -/

namespace Line

/-- The bytes from the line on that is read, behind the lines that are dropped. -/
def start (input : Bytes) : Bytes :=
  match _h : input.dropWhile (· != lineFeed) with
  | _ :: rest =>
    if (input.takeWhile (· != lineFeed)).length < limit then input else start rest
  | [] => input
termination_by input.length
decreasing_by
  have := (input.dropWhile_sublist (· != lineFeed)).length_le
  simp only [_h, List.length_cons] at this
  omega

theorem start_cons {line : Bytes} (h : lineFeed ∉ line) (rest : Bytes) :
    start (line ++ lineFeed :: rest)
      = if line.length < limit then line ++ lineFeed :: rest else start rest := by
  rw [start]
  split
  next b after hd =>
    obtain ⟨-, rfl⟩ := List.cons.inj (hd.symm.trans (dropWhile_append_lineFeed h rest))
    rw [takeWhile_append_lineFeed h]
  next hd => cases hd.symm.trans (dropWhile_append_lineFeed h rest)

theorem start_of_not_mem {input : Bytes} (h : lineFeed ∉ input) : start input = input := by
  rw [start]
  split
  next hd => cases hd.symm.trans (dropWhile_of_not_mem h)
  next => rfl

theorem start_isSuffix (input : Bytes) : start input <:+ input := by
  induction input using Line.induction with
  | last input h => exact ⟨[], by rw [start_of_not_mem h, List.nil_append]⟩
  | cons line rest h ih =>
    rw [start_cons h]
    split
    · exact List.suffix_rfl
    · exact ih.trans ⟨line ++ [lineFeed], by simp⟩

/-- A line that has arrived stays where it is. -/
theorem start_append {input rest : Bytes} {line : String} (h : read false input = .done line rest)
    (more : Bytes) : start (input ++ more) = start input ++ more := by
  induction input using Line.induction with
  | last input hinput =>
    rw [read_of_not_mem hinput, if_neg (by simp)] at h
    exact absurd h Reading.missing_ne_done
  | cons line' after hline ih =>
    rw [read_cons hline] at h
    rw [List.append_assoc, List.cons_append, start_cons hline, start_cons hline]
    split at h
    next hshort => rw [if_pos hshort, if_pos hshort, List.append_assoc, List.cons_append]
    next hlong =>
      rw [if_neg hlong, if_neg hlong]
      exact ih h

/-- A line that begins in front of the last arrival begins where the bytes begin that have no line
feed there, and these are not too many. -/
theorem start_eq_of_not_mem {before after part rest : Bytes} {line : String}
    (hbefore : lineFeed ∉ before) (h : read true (before ++ after) = .done line rest)
    (hstart : start (before ++ after) = part ++ after) :
    part = before ∧ before.length < limit := by
  by_cases hafter : lineFeed ∈ after
  · obtain ⟨begun, later, rfl, hbegun⟩ := List.eq_append_cons_of_mem hafter
    have hfirst : lineFeed ∉ before ++ begun := by simp [hbefore, hbegun]
    rw [← List.append_assoc, start_cons hfirst] at hstart
    split at hstart
    next hshort =>
      rw [List.append_assoc] at hstart
      rw [List.length_append] at hshort
      refine ⟨(List.append_cancel_right hstart).symm, ?_⟩
      exact Nat.lt_of_le_of_lt (Nat.le_add_right _ _) hshort
    next =>
      have hlength := (start_isSuffix later).length_le
      rw [hstart, List.length_append, List.length_append, List.length_cons] at hlength
      omega
  · have hall : lineFeed ∉ before ++ after := by simp [hbefore, hafter]
    rw [start_of_not_mem hall] at hstart
    rw [read_of_not_mem hall] at h
    refine ⟨(List.append_cancel_right hstart).symm, ?_⟩
    split at h
    next hshort =>
      simp only [Bool.true_and, Bool.and_eq_true, decide_eq_true_eq, List.length_append] at hshort
      omega
    next => exact absurd h Reading.missing_ne_done

/-- Of a line that begins in front of the last arrival, either everything was there before, or the
part that was there has no line feed and is the line that is read if the stream ends with it. -/
theorem read_of_start_eq {before after part rest : Bytes} {line : String}
    (h : read true (before ++ after) = .done line rest)
    (hstart : start (before ++ after) = part ++ after) (hpart : part ≠ []) :
    (lineFeed ∈ part ∧ ∃ r, read false before = .done line r ∧ rest = r ++ after)
      ∨ lineFeed ∉ part ∧ read true before = .done (text part) [] := by
  induction before using Line.induction with
  | last before hbefore =>
    obtain ⟨rfl, hshort⟩ := start_eq_of_not_mem hbefore h hstart
    refine .inr ⟨hbefore, ?_⟩
    rw [read_of_not_mem hbefore, if_pos (by simp [hpart, hshort])]
  | cons line' begun hline ih =>
    rw [List.append_assoc, List.cons_append, read_cons hline] at h
    rw [List.append_assoc, List.cons_append, start_cons hline] at hstart
    rw [read_cons hline, read_cons hline]
    split at h
    next hshort =>
      obtain ⟨rfl, rfl⟩ := Reading.done.inj h
      rw [if_pos hshort, ← List.cons_append, ← List.append_assoc] at hstart
      obtain rfl := List.append_cancel_right hstart
      rw [if_pos hshort]
      exact .inl ⟨by simp, begun, rfl, rfl⟩
    next hlong =>
      rw [if_neg hlong] at hstart
      rw [if_neg hlong, if_neg hlong]
      exact ih h hstart

end Line

namespace Chunk

/-! ## Units -/

/-- A unit of a stream. -/
structure Located where
  /-- The stream from the first byte of the unit on. -/
  start : Bytes
  /-- The stream behind the last byte of the unit. -/
  rest : Bytes
  /-- What is delivered, unless the body is too long. -/
  chunk : Option Chunk
  deriving DecidableEq, Repr

/-- The same unit when more bytes have arrived. -/
def Located.append (u : Located) (more : Bytes) : Located :=
  { u with start := u.start ++ more, rest := u.rest ++ more }

/-- The unit at the front of a stream, behind dropped lines. -/
inductive IsUnit (ended : Bool) : Bytes → Located → Prop where
  | frame {after rest : Bytes} {f : Interleaved}
    (payload : Interleaved.read ended after = .done f rest) :
    IsUnit ended (Interleaved.marker :: after)
      ⟨Interleaved.marker :: after, rest, some (.data f)⟩
  | message {input r₁ r₂ r₃ body : Bytes} {line : String} {headers : Headers}
    (marker : input.head? ≠ some Interleaved.marker)
    (first : Line.read ended input = .done line r₁)
    (blank : line.toList.all isBlank = false)
    (head : Headers.read ended {} r₁ = .done headers r₂)
    (length : Reading.exactly ended (headers.contentLength?.getD 0) r₂ = .done body r₃) :
    IsUnit ended input ⟨Line.start input, r₃,
      if headers.contentLength?.getD 0 ≤ bodyLimit then
        some (.message (.ofParts line headers body)) else none⟩

/-- A blank line at the front of a stream, behind dropped lines. -/
structure IsBlankLine (ended : Bool) (input rest : Bytes) : Prop where
  marker : input.head? ≠ some Interleaved.marker
  read : ∃ line, Line.read ended input = .done line rest ∧ line.toList.all isBlank = true

/-- What stands at the front of a stream. -/
inductive Front where
  | unit (u : Located)
  | blank (rest : Bytes)
  | stop (ending : Ending)

def front (ended : Bool) (input : Bytes) : Front :=
  if input.head? = some Interleaved.marker then
    match Interleaved.read ended input.tail with
    | .done f rest => .unit ⟨input, rest, some (.data f)⟩
    | .starved => .stop .starved
    | .ended => .stop (.failed .endedInPayload)
  else
    match Line.read ended input with
    | .starved => .stop .starved
    | .ended => .stop .finished
    | .done line r₁ =>
      if line.toList.all isBlank then .blank r₁
      else
        match Headers.read ended {} r₁ with
        | .starved => .stop .starved
        | .ended => .stop (.failed .endedInMessage)
        | .done headers r₂ =>
          let length := headers.contentLength?.getD 0
          match Reading.exactly ended length r₂ with
          | .starved => .stop .starved
          | .ended =>
            .stop (.failed (if length ≤ bodyLimit then .endedInPayload else .endedInMessage))
          | .done body r₃ =>
            .unit ⟨Line.start input, r₃,
              if length ≤ bodyLimit then some (.message (.ofParts line headers body)) else none⟩

theorem front_nil (ended : Bool) :
    front ended [] = .stop (if ended then .finished else .starved) := by
  cases ended <;> simp [front, Line.read_nil, Reading.missing]

theorem front_of_isUnit {ended : Bool} {input : Bytes} {u : Located} (h : IsUnit ended input u) :
    front ended input = .unit u := by
  cases h with
  | frame payload => simp [front, payload]
  | message marker first blank head length => simp [front, marker, first, blank, head, length]

theorem front_of_isBlankLine {ended : Bool} {input rest : Bytes}
    (h : IsBlankLine ended input rest) :
    front ended input = .blank rest := by
  obtain ⟨hmarker, line, hread, hblank⟩ := h
  simp only [front, if_neg hmarker, hread, hblank, if_true]

theorem front_cases (ended : Bool) (input : Bytes) :
    (∃ u, IsUnit ended input u ∧ front ended input = .unit u)
      ∨ (∃ rest, IsBlankLine ended input rest ∧ front ended input = .blank rest)
      ∨ ∃ ending, front ended input = .stop ending := by
  unfold front
  split
  next hmarker =>
    obtain ⟨after, rfl⟩ : ∃ after, input = Interleaved.marker :: after :=
      List.head?_eq_some_iff.1 hmarker
    split
    next f rest hpayload => exact .inl ⟨_, .frame hpayload, rfl⟩
    next => exact .inr (.inr ⟨_, rfl⟩)
    next => exact .inr (.inr ⟨_, rfl⟩)
  next hmarker =>
    split
    next => exact .inr (.inr ⟨_, rfl⟩)
    next => exact .inr (.inr ⟨_, rfl⟩)
    next line r₁ hfirst =>
      split
      next hblank => exact .inr (.inl ⟨r₁, ⟨hmarker, line, hfirst, hblank⟩, rfl⟩)
      next hblank =>
        split
        next => exact .inr (.inr ⟨_, rfl⟩)
        next => exact .inr (.inr ⟨_, rfl⟩)
        next headers r₂ hhead =>
          dsimp only
          split
          next => exact .inr (.inr ⟨_, rfl⟩)
          next => exact .inr (.inr ⟨_, rfl⟩)
          next body r₃ hlength =>
            exact .inl ⟨_, .message hmarker hfirst (by simpa using hblank) hhead hlength, rfl⟩

/-! ## Bytes of a unit -/

theorem IsUnit.start_isSuffix {ended : Bool} {input : Bytes} {u : Located}
    (h : IsUnit ended input u) : u.start <:+ input := by
  cases h with
  | frame => exact List.suffix_rfl
  | message => exact Line.start_isSuffix _

theorem IsUnit.rest_isSuffix {ended : Bool} {input : Bytes} {u : Located}
    (h : IsUnit ended input u) : u.rest <:+ input := by
  cases h with
  | frame payload => exact (Interleaved.cautious_read.isSuffix payload).trans (List.suffix_cons _ _)
  | message marker first blank head length =>
    have hbody := (Reading.cautious_exactly _).isSuffix length
    exact hbody.trans ((Headers.isSuffix_of_read head).trans (Line.isSuffix_of_read first))

theorem IsUnit.rest_length_lt {ended : Bool} {input : Bytes} {u : Located}
    (h : IsUnit ended input u) : u.rest.length < input.length := by
  cases h with
  | frame payload => exact Nat.lt_succ_of_le (Interleaved.read_length_le payload)
  | message marker first blank head length =>
    have hbody := Reading.exactly_length_le length
    have hhead := Headers.read_length_lt head
    have hfirst := Line.read_length_lt first
    dsimp only
    omega

theorem IsBlankLine.isSuffix {ended : Bool} {input rest : Bytes}
    (h : IsBlankLine ended input rest) : rest <:+ input := by
  obtain ⟨-, line, hread, -⟩ := h
  exact Line.isSuffix_of_read hread

theorem IsBlankLine.length_lt {ended : Bool} {input rest : Bytes}
    (h : IsBlankLine ended input rest) : rest.length < input.length := by
  obtain ⟨-, line, hread, -⟩ := h
  exact Line.read_length_lt hread

/-! ## Arrival -/

theorem head?_append_ne {input more : Bytes} {b : UInt8} (hne : input ≠ [])
    (h : input.head? ≠ some b) : (input ++ more).head? ≠ some b := by
  rwa [List.head?_append_of_ne_nil _ hne]

theorem ne_nil_of_read {ended : Bool} {input rest : Bytes} {line : String}
    (h : Line.read ended input = .done line rest) : input ≠ [] := by
  rintro rfl
  exact absurd (Line.read_length_lt h) (Nat.not_lt_zero _)

/-- A unit that has arrived stays what it is. -/
theorem IsUnit.append {input : Bytes} {u : Located} (h : IsUnit false input u) (ended : Bool)
    (more : Bytes) : IsUnit ended (input ++ more) (u.append more) := by
  cases h with
  | frame payload => exact .frame (Interleaved.cautious_read.append payload ended more)
  | message marker first blank head length =>
    have hwhole := IsUnit.message (head?_append_ne (ne_nil_of_read first) marker)
      (Line.cautious_read.append first ended more) blank
      ((Headers.cautious_read {}).append head ended more)
      ((Reading.cautious_exactly _).append length ended more)
    rw [Line.start_append first] at hwhole
    exact hwhole

/-- A unit in front of the last arrival was there before. -/
theorem IsUnit.of_append {ended : Bool} {input more : Bytes} {u : Located}
    (h : IsUnit ended (input ++ more) u) (hmore : more ≠ [])
    (hlength : more.length ≤ u.rest.length) :
    ∃ v, u = v.append more ∧ IsUnit false input v := by
  generalize hwhole : input ++ more = whole at h
  cases h with
  | @frame after rest f payload =>
    cases input with
    | nil =>
      have hshort := Interleaved.read_length_le payload
      rw [List.nil_append] at hwhole
      rw [hwhole, List.length_cons] at hlength
      dsimp only at hlength
      omega
    | cons b begun =>
      obtain ⟨rfl, rfl⟩ := List.cons.inj hwhole
      obtain ⟨before, hrest, hread⟩ := Interleaved.cautious_read.of_append payload hmore hlength
      refine ⟨⟨_, before, some (.data f)⟩, ?_, .frame hread⟩
      rw [hrest]
      rfl
  | @message _ r₁ r₂ r₃ body line headers marker first blank head length =>
    -- The readers follow each other, so what the last one leaves bounds what the others leave.
    have hr₃ : more.length ≤ r₃.length := hlength
    have hr₂ := Nat.le_trans hr₃ ((Reading.cautious_exactly _).isSuffix length).length_le
    have hr₁ := Nat.le_trans hr₂ (Headers.isSuffix_of_read head).length_le
    subst hwhole
    obtain ⟨b₁, rfl, hfirst⟩ := Line.cautious_read.of_append first hmore hr₁
    obtain ⟨b₂, rfl, hhead⟩ := (Headers.cautious_read {}).of_append head hmore hr₂
    obtain ⟨b₃, rfl, hlast⟩ := (Reading.cautious_exactly _).of_append length hmore hr₃
    have hmarker : input.head? ≠ some Interleaved.marker := by
      intro hhead?
      rw [List.head?_append_of_ne_nil _ (ne_nil_of_read hfirst)] at marker
      exact marker hhead?
    refine ⟨_, ?_, .message hmarker hfirst blank hhead hlast⟩
    rw [Line.start_append hfirst]
    rfl

theorem IsBlankLine.append {input rest : Bytes} (h : IsBlankLine false input rest) (ended : Bool)
    (more : Bytes) : IsBlankLine ended (input ++ more) (rest ++ more) := by
  obtain ⟨hmarker, line, hread, hblank⟩ := h
  refine ⟨head?_append_ne (ne_nil_of_read hread) hmarker, line, ?_, hblank⟩
  exact Line.cautious_read.append hread ended more

theorem IsBlankLine.of_append {ended : Bool} {input more rest : Bytes}
    (h : IsBlankLine ended (input ++ more) rest) (hmore : more ≠ [])
    (hlength : more.length ≤ rest.length) :
    ∃ before, rest = before ++ more ∧ IsBlankLine false input before := by
  obtain ⟨hmarker, line, hread, hblank⟩ := h
  obtain ⟨before, hrest, hbefore⟩ := Line.cautious_read.of_append hread hmore hlength
  refine ⟨before, hrest, fun hhead => hmarker ?_, line, hbefore, hblank⟩
  rw [List.head?_append_of_ne_nil _ (ne_nil_of_read hbefore)]
  exact hhead

/-! ## Streams -/

/-- What `ended` makes of a reading is decided by its front. -/
theorem read_eq_front (ended : Bool) (input : Bytes) :
    read ended input = match front ended input with
      | .unit u => match u.chunk with
        | some c => .chunk c u.rest
        | none => read ended u.rest
      | .blank rest => read ended rest
      | .stop .starved => .starved
      | .stop (.failed cause) => .failed cause
      | .stop .finished => .finished := by
  cases input with
  | nil =>
    rw [read, front_nil]
    cases ended <;> rfl
  | cons first after =>
    rw [read]
    unfold front
    by_cases hmarker : first = Interleaved.marker
    · simp only [hmarker, List.head?_cons, if_true, List.tail_cons]
      cases Interleaved.read ended after <;> rfl
    · have hhead : ¬(first :: after).head? = some Interleaved.marker := by simpa using hmarker
      rw [if_neg hmarker, if_neg hhead]
      split
      next hl => simp only [hl]
      next hl => simp only [hl]
      next line r₁ hl =>
        simp only [hl]
        by_cases hblank : line.toList.all isBlank
        · rw [if_pos hblank, if_pos hblank]
        · rw [if_neg hblank, if_neg hblank]
          split
          next hh => simp only [hh]
          next hh => simp only [hh]
          next headers r₂ hh =>
            simp only [hh]
            split
            next hb => simp only [hb]
            next hb => simp only [hb]
            next body r₃ hb =>
              simp only [hb]
              split <;> rfl

theorem isUnit_of_front {ended : Bool} {input : Bytes} {u : Located}
    (h : front ended input = .unit u) : IsUnit ended input u := by
  obtain ⟨v, hv, hfront⟩ | ⟨rest, -, hfront⟩ | ⟨ending, hfront⟩ := front_cases ended input
  · obtain rfl := Front.unit.inj (hfront.symm.trans h)
    exact hv
  · cases hfront.symm.trans h
  · cases hfront.symm.trans h

theorem isBlankLine_of_front {ended : Bool} {input rest : Bytes}
    (h : front ended input = .blank rest) : IsBlankLine ended input rest := by
  obtain ⟨u, -, hfront⟩ | ⟨after, hblank, hfront⟩ | ⟨ending, hfront⟩ := front_cases ended input
  · cases hfront.symm.trans h
  · obtain rfl := Front.blank.inj (hfront.symm.trans h)
    exact hblank
  · cases hfront.symm.trans h

/-- A stream begins with a unit or with a blank line, or no unit of it is complete. -/
theorem front_induction (ended : Bool) {P : Bytes → Prop}
    (unit : ∀ input u, IsUnit ended input u → P u.rest → P input)
    (blank : ∀ input rest, IsBlankLine ended input rest → P rest → P input)
    (stop : ∀ input ending, front ended input = .stop ending → P input) (input : Bytes) :
    P input := by
  obtain ⟨u, hu, -⟩ | ⟨rest, hblank, -⟩ | ⟨ending, hstop⟩ := front_cases ended input
  · have := hu.rest_length_lt
    exact unit input u hu (front_induction ended unit blank stop u.rest)
  · have := hblank.length_lt
    exact blank input rest hblank (front_induction ended unit blank stop rest)
  · exact stop input ending hstop
termination_by input.length

/-- The units of a stream, in order. -/
def units (ended : Bool) (input : Bytes) : List Located :=
  match _h : front ended input with
  | .unit u => u :: units ended u.rest
  | .blank rest => units ended rest
  | .stop _ => []
termination_by input.length
decreasing_by
  · exact (isUnit_of_front _h).rest_length_lt
  · exact (isBlankLine_of_front _h).length_lt

theorem units_of_isUnit {ended : Bool} {input : Bytes} {u : Located} (h : IsUnit ended input u) :
    units ended input = u :: units ended u.rest := by
  have hfront := front_of_isUnit h
  rw [units]
  split
  next v hv =>
    obtain rfl := Front.unit.inj (hv.symm.trans hfront)
    rfl
  next hv => cases hv.symm.trans hfront
  next hv => cases hv.symm.trans hfront

theorem units_of_isBlankLine {ended : Bool} {input rest : Bytes}
    (h : IsBlankLine ended input rest) :
    units ended input = units ended rest := by
  have hfront := front_of_isBlankLine h
  rw [units]
  split
  next hv => cases hv.symm.trans hfront
  next after hv =>
    obtain rfl := Front.blank.inj (hv.symm.trans hfront)
    rfl
  next hv => cases hv.symm.trans hfront

theorem units_of_stop {ended : Bool} {input : Bytes} {ending : Ending}
    (h : front ended input = .stop ending) : units ended input = [] := by
  rw [units]
  split
  next hv => cases hv.symm.trans h
  next hv => cases hv.symm.trans h
  next => rfl

/-- No unit begins in front of the stream. -/
theorem start_length_le_of_mem_units {ended : Bool} {input : Bytes} {u : Located}
    (h : u ∈ units ended input) : u.start.length ≤ input.length := by
  induction input using front_induction ended with
  | unit input v hv ih =>
    rw [units_of_isUnit hv] at h
    rcases List.mem_cons.1 h with rfl | h
    · exact hv.start_isSuffix.length_le
    · exact Nat.le_trans (ih h) hv.rest_isSuffix.length_le
  | blank input rest hblank ih =>
    rw [units_of_isBlankLine hblank] at h
    exact Nat.le_trans (ih h) hblank.isSuffix.length_le
  | stop input ending hstop =>
    rw [units_of_stop hstop] at h
    exact absurd h List.not_mem_nil

theorem rest_length_lt_of_mem_units {ended : Bool} {input : Bytes} {u : Located}
    (h : u ∈ units ended input) : u.rest.length < input.length := by
  induction input using front_induction ended with
  | unit input v hv ih =>
    rw [units_of_isUnit hv] at h
    rcases List.mem_cons.1 h with rfl | h
    · exact hv.rest_length_lt
    · exact Nat.lt_trans (ih h) hv.rest_length_lt
  | blank input rest hblank ih =>
    rw [units_of_isBlankLine hblank] at h
    exact Nat.lt_trans (ih h) hblank.length_lt
  | stop input ending hstop =>
    rw [units_of_stop hstop] at h
    exact absurd h List.not_mem_nil

/-! ## Runs over open streams -/

/-- Where the stream may go on, what is incomplete is waited for. -/
theorem eq_starved_of_front {input : Bytes} {ending : Ending}
    (h : front false input = .stop ending) : ending = .starved := by
  unfold front at h
  split at h
  next =>
    split at h
    next => cases h
    next => exact (Front.stop.inj h).symm
    next hended => cases (Interleaved.fits_read false _).ended_eq_true hended
  next =>
    split at h
    next => exact (Front.stop.inj h).symm
    next hended => cases (Line.fits_read false _).ended_eq_true hended
    next =>
      split at h
      next => cases h
      next =>
        split at h
        next => exact (Front.stop.inj h).symm
        next hended => cases (Headers.fits_read false _ _).ended_eq_true hended
        next =>
          dsimp only at h
          split at h
          next => exact (Front.stop.inj h).symm
          next hended => cases (Reading.fits_exactly false _ _).ended_eq_true hended
          next => cases h

/-- An open stream has a unit at its front, or more bytes are needed. -/
theorem read_false_cases (input : Bytes) :
    (∃ c rest, read false input = .chunk c rest) ∨ read false input = .starved := by
  have hread := read_eq_front false
  induction input using front_induction false with
  | unit input u hu ih =>
    rw [hread, front_of_isUnit hu]
    cases hchunk : u.chunk with
    | some c => exact .inl ⟨c, u.rest, by simp only [hchunk]⟩
    | none => simpa only [hchunk] using ih
  | blank input rest hblank ih =>
    rw [hread, front_of_isBlankLine hblank]
    exact ih
  | stop input ending hstop =>
    rw [hread, hstop, eq_starved_of_front hstop]
    exact .inr rfl

/-- Units are read from an open stream until more bytes are needed. -/
theorem open_induction {P : Bytes → Prop}
    (chunk : ∀ input c rest, read false input = .chunk c rest → P rest → P input)
    (starved : ∀ input, read false input = .starved → P input) (input : Bytes) : P input := by
  obtain ⟨c, rest, hread⟩ | hread := read_false_cases input
  · have := read_length_lt hread
    exact chunk input c rest hread (open_induction chunk starved rest)
  · exact starved input hread
termination_by input.length

/-- A unit that was read would have been read whatever arrived behind it. -/
theorem read_append {input rest : Bytes} {c : Chunk} (h : read false input = .chunk c rest)
    (ended : Bool) (more : Bytes) : read ended (input ++ more) = .chunk c (rest ++ more) := by
  induction input using front_induction false with
  | unit input u hu ih =>
    rw [read_eq_front, front_of_isUnit hu] at h
    rw [read_eq_front, front_of_isUnit (hu.append ended more)]
    cases hchunk : u.chunk with
    | some c' =>
      simp only [hchunk] at h
      obtain ⟨rfl, rfl⟩ := Outcome.chunk.inj h
      simp only [Located.append, hchunk]
    | none =>
      simp only [hchunk] at h
      simpa only [Located.append, hchunk] using ih h
  | blank input after hblank ih =>
    rw [read_eq_front, front_of_isBlankLine hblank] at h
    rw [read_eq_front, front_of_isBlankLine (hblank.append ended more)]
    exact ih h
  | stop input ending hstop =>
    rw [read_eq_front, hstop, eq_starved_of_front hstop] at h
    cases h

/-- A run over an open stream waits for more bytes in the end, and goes on with them as if they had
been there at once. -/
theorem run_append (ended : Bool) (input more : Bytes) :
    run ended (input ++ more)
      = { run ended ((run false input).rest ++ more) with
          chunks := (run false input).chunks
            ++ (run ended ((run false input).rest ++ more)).chunks } := by
  induction input using open_induction with
  | chunk input c rest hread ih =>
    rw [run_of_chunk (read_append hread ended more), run_of_chunk hread, ih]
    rfl
  | starved input hread =>
    rw [run_of_starved hread]
    rfl

theorem ending_run_false (input : Bytes) : (run false input).ending = .starved := by
  induction input using open_induction with
  | chunk input c rest hread ih =>
    rw [run_of_chunk hread]
    exact ih
  | starved input hread => rw [run_of_starved hread]

/-! ## Runs over ended streams -/

theorem run_of_isUnit {input : Bytes} {u : Located} (h : IsUnit true input u) :
    (run true input).chunks = u.chunk.toList ++ (run true u.rest).chunks
      ∧ (run true input).ending = (run true u.rest).ending := by
  have hread := read_eq_front true input
  rw [front_of_isUnit h] at hread
  cases hchunk : u.chunk with
  | some c =>
    rw [run_of_chunk (by simpa only [hchunk] using hread)]
    exact ⟨rfl, rfl⟩
  | none =>
    rw [run_of_read_eq (by simpa only [hchunk] using hread) (ending_run_true _)]
    exact ⟨rfl, rfl⟩

theorem run_of_isBlankLine {input rest : Bytes} (h : IsBlankLine true input rest) :
    run true input = run true rest := by
  have hread := read_eq_front true input
  rw [front_of_isBlankLine h] at hread
  exact run_of_read_eq hread (ending_run_true _)

theorem run_of_stop {input : Bytes} {ending : Ending} (h : front true input = .stop ending) :
    run true input = ⟨[], ending, []⟩ := by
  have hread := read_eq_front true input
  rw [h] at hread
  cases ending with
  | starved => exact absurd hread (read_true input)
  | failed cause => exact run_of_failed hread
  | finished => exact run_of_finished hread

/-- A run delivers the chunks of the units. -/
theorem chunks_run (input : Bytes) :
    (run true input).chunks = (units true input).filterMap (·.chunk) := by
  induction input using front_induction true with
  | unit input u hu ih =>
    rw [units_of_isUnit hu, (run_of_isUnit hu).1, ih]
    cases hchunk : u.chunk with
    | some c => rw [List.filterMap_cons_some hchunk]; rfl
    | none => rw [List.filterMap_cons_none hchunk]; rfl
  | blank input rest hblank ih => rw [units_of_isBlankLine hblank, run_of_isBlankLine hblank, ih]
  | stop input ending hstop => rw [units_of_stop hstop, run_of_stop hstop]; rfl

end Chunk
end Rtsp
