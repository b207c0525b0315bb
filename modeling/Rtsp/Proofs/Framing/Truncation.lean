-- SUMMARY: What is read from a stream that ends too early.
import Rtsp.Proofs.Framing.Units

/-!
# Truncation

A stream that is cut off delivers the units in front of the cut, and where the cut is inside a unit
the run fails (`Chunk.run_truncated`). There is one exception to each. A carriage return at the end
of the stream is taken for an empty line, so it ends the headers of a message before the line feed
is there (`Chunk.EndsInBareReturn`), and blanks at the end of the stream are taken for a blank line,
although they may be the first bytes of a start line.
-/

namespace Rtsp.Chunk

open Text

/-- The bytes end in a carriage return, and a line feed behind it would complete a message without
a body. -/
def EndsInBareReturn (input : Bytes) : Prop :=
  input.getLast? = some Line.carriageReturn
    ∧ ∃ u ∈ units true (input ++ [Line.lineFeed]), u.rest = []
      ∧ ∃ m, u.chunk = some (.message m) ∧ m.body = []

/-! ## Units of an ended stream -/

theorem exactly_of_true {n : Nat} {input taken rest : Bytes}
    (h : Reading.exactly true n input = .done taken rest) :
    Reading.exactly false n input = .done taken rest :=
  Reading.exactly_eq_done_iff.2 (Reading.exactly_eq_done_iff.1 h)

/-- What only an ended stream has for a unit is a message that ends in a bare carriage return. -/
theorem IsUnit.of_true {input : Bytes} {u : Located} (h : IsUnit true input u) :
    IsUnit false input u ∨ EndsInBareReturn input := by
  cases h with
  | frame payload =>
    obtain ⟨hi, lo, after, rfl, hread⟩ := Interleaved.read_eq_done_iff.1 payload
    have hopen := Interleaved.read_eq_done_iff.2 ⟨hi, lo, after, rfl, exactly_of_true hread⟩
    exact .inl (.frame hopen)
  | @message _ r₁ r₂ r₃ body line headers marker first blank head length =>
    rcases Line.read_true_cases first with hfirst | ⟨rfl, -⟩
    · rcases Headers.read_true_cases head with hhead | ⟨rfl, hlast, hreturn⟩
      · exact .inl (.message marker hfirst blank hhead (exactly_of_true length))
      · -- Nothing is left for a body, so none can have been declared.
        obtain ⟨hzero, rfl, rfl⟩ := Reading.exactly_eq_done_iff.1 length
        have hunit := IsUnit.message (head?_append_ne (ne_nil_of_read first) marker)
          (Line.cautious_read.append hfirst true [Line.lineFeed]) blank hreturn length
        refine .inr ⟨getLast?_of_isSuffix (Line.isSuffix_of_read first) hlast, ?_⟩
        rw [units_of_isUnit hunit]
        refine ⟨_, List.mem_cons_self, List.drop_nil, _,
          if_pos (Nat.le_trans hzero (Nat.zero_le _)), ?_⟩
        rw [Message.body_ofParts, List.take_nil]
    · exact absurd (Headers.read_length_lt head) (Nat.not_lt_zero _)

theorem IsBlankLine.of_true {input rest : Bytes} (h : IsBlankLine true input rest) :
    IsBlankLine false input rest ∨ rest = [] := by
  obtain ⟨hmarker, line, hread, hblank⟩ := h
  rcases Line.read_true_cases hread with hopen | ⟨hrest, -⟩
  · exact .inl ⟨hmarker, line, hopen, hblank⟩
  · exact .inr hrest

/-- A bare return at the end of what follows a unit is one at the end of the stream. -/
theorem EndsInBareReturn.of_rest {input rest : Bytes} (h : EndsInBareReturn rest)
    (hsuffix : rest <:+ input)
    (hunits : ∀ u ∈ units true (rest ++ [Line.lineFeed]),
      u ∈ units true (input ++ [Line.lineFeed])) : EndsInBareReturn input := by
  obtain ⟨hlast, u, hu, hdelivered⟩ := h
  exact ⟨getLast?_of_isSuffix hsuffix hlast, u, hunits u hu, hdelivered⟩

theorem EndsInBareReturn.of_isUnit {input : Bytes} {u : Located} (h : EndsInBareReturn u.rest)
    (hu : IsUnit false input u) : EndsInBareReturn input := by
  refine h.of_rest hu.rest_isSuffix fun v hv => ?_
  rw [units_of_isUnit (hu.append true _)]
  exact List.mem_cons_of_mem _ hv

theorem EndsInBareReturn.of_isBlankLine {input rest : Bytes} (h : EndsInBareReturn rest)
    (hblank : IsBlankLine false input rest) : EndsInBareReturn input := by
  refine h.of_rest hblank.isSuffix fun v hv => ?_
  rw [units_of_isBlankLine (hblank.append true _)]
  exact hv

theorem IsUnit.ended {input : Bytes} {u : Located} (h : IsUnit false input u) :
    IsUnit true input u := by
  have hwhole := h.append true []
  simpa [Located.append] using hwhole

theorem IsBlankLine.ended {input rest : Bytes} (h : IsBlankLine false input rest) :
    IsBlankLine true input rest := by
  have hwhole := h.append true []
  simpa using hwhole

/-- Where no unit of an open stream is complete, none is when it ends. -/
theorem units_true_of_stop {input : Bytes} {ending : Ending} (h : ¬EndsInBareReturn input)
    (hstop : front false input = .stop ending) : units true input = [] := by
  obtain ⟨u, hu, -⟩ | ⟨rest, hblank, -⟩ | ⟨ending', hstop'⟩ := front_cases true input
  · cases (front_of_isUnit (hu.of_true.resolve_right h)).symm.trans hstop
  · rcases hblank.of_true with hopen | rfl
    · cases (front_of_isBlankLine hopen).symm.trans hstop
    · rw [units_of_isBlankLine hblank, units_of_stop (front_nil true)]
  · exact units_of_stop hstop'

/-- The end of a stream completes no unit, but for a bare carriage return. -/
theorem units_true_eq {input : Bytes} (h : ¬EndsInBareReturn input) :
    units true input = units false input := by
  induction input using front_induction false with
  | unit input u hu ih =>
    rw [units_of_isUnit hu, units_of_isUnit hu.ended, ih fun hrest => h (hrest.of_isUnit hu)]
  | blank input rest hblank ih =>
    rw [units_of_isBlankLine hblank, units_of_isBlankLine hblank.ended,
      ih fun hrest => h (hrest.of_isBlankLine hblank)]
  | stop input ending hstop => rw [units_of_stop hstop, units_true_of_stop h hstop]

/-! ## Units in front of a cut -/

section

variable {before after : Bytes} {ending : Ending} {u : Located} (hafter : after ≠ [])
  (hstop : front false before = .stop ending)

include hafter hstop

/-- Where nothing more is complete in front of a cut, the next unit ends behind it. -/
theorem IsUnit.rest_length_lt_of_stop (hu : IsUnit true (before ++ after) u) :
    u.rest.length < after.length := by
  refine Nat.lt_of_not_le fun hle => ?_
  obtain ⟨v, -, hopen⟩ := hu.of_append hafter hle
  cases (front_of_isUnit hopen).symm.trans hstop

theorem IsBlankLine.length_lt_of_stop {rest : Bytes}
    (hblank : IsBlankLine true (before ++ after) rest) : rest.length < after.length := by
  refine Nat.lt_of_not_le fun hle => ?_
  obtain ⟨begun, -, hopen⟩ := hblank.of_append hafter hle
  cases (front_of_isBlankLine hopen).symm.trans hstop

/-- So the only unit that can begin in front of the cut is the next one. -/
theorem isUnit_of_mem_units (hu : u ∈ units true (before ++ after))
    (hlater : ∀ rest : Bytes, rest.length < after.length → u ∉ units true rest) :
    IsUnit true (before ++ after) u := by
  obtain ⟨v, hv, -⟩ | ⟨rest, hblank, -⟩ | ⟨ending', hstop'⟩ := front_cases true (before ++ after)
  · rw [units_of_isUnit hv] at hu
    rcases List.mem_cons.1 hu with rfl | hu
    · exact hv
    · exact absurd hu (hlater _ (hv.rest_length_lt_of_stop hafter hstop))
  · rw [units_of_isBlankLine hblank] at hu
    exact absurd hu (hlater _ (hblank.length_lt_of_stop hafter hstop))
  · rw [units_of_stop hstop'] at hu
    exact absurd hu List.not_mem_nil

theorem rest_length_lt_of_stop (hu : u ∈ units true (before ++ after)) :
    u.rest.length < after.length := by
  refine Nat.lt_of_not_le fun hle => ?_
  have hunit : IsUnit true (before ++ after) u := by
    refine isUnit_of_mem_units hafter hstop hu fun rest hshort hlater => ?_
    have hlt := rest_length_lt_of_mem_units hlater
    omega
  exact absurd (hunit.rest_length_lt_of_stop hafter hstop) (Nat.not_lt.2 hle)

end

/-- The units of a stream that end in front of a cut are those that are complete there. -/
theorem filter_units_append (before : Bytes) {after : Bytes} (hafter : after ≠ []) :
    (units true (before ++ after)).filter (after.length ≤ ·.rest.length)
      = (units false before).map (·.append after) := by
  induction before using front_induction false with
  | unit before u hu ih =>
    rw [units_of_isUnit hu, units_of_isUnit (hu.append true after)]
    exact (List.filter_cons_of_pos (by simp [Located.append])).trans (congrArg (_ :: ·) ih)
  | blank before rest hblank ih =>
    rw [units_of_isBlankLine hblank, units_of_isBlankLine (hblank.append true after)]
    exact ih
  | stop before ending hstop =>
    rw [units_of_stop hstop, List.map_nil, List.filter_eq_nil_iff]
    intro u hu
    have := rest_length_lt_of_stop hafter hstop hu
    simpa using this

/-! ## Units around a cut -/

/-- The failures of a stream that ends inside a unit. -/
def endedInside : List Ending :=
  [.failed .endedInMessage, .failed .endedInPayload]

/-- Behind a marker there is a frame or an error. -/
theorem ending_of_marker {input : Bytes}
    (hnone : ∀ u, ¬IsUnit true (Interleaved.marker :: input) u) :
    (run true (Interleaved.marker :: input)).ending ∈ endedInside := by
  have hfront : front true (Interleaved.marker :: input) = .stop (.failed .endedInPayload) := by
    simp only [front, List.head?_cons, if_true, List.tail_cons]
    cases hread : Interleaved.read true input with
    | done f rest => exact absurd (.frame hread) (hnone _)
    | starved => exact absurd hread (Interleaved.read_true _)
    | ended => rfl
  rw [run_of_stop hfront]
  simp [endedInside]

/-- Behind a start line there is a message or an error. -/
theorem ending_of_line {input rest : Bytes} {line : String} (hnone : ∀ u, ¬IsUnit true input u)
    (marker : input.head? ≠ some Interleaved.marker)
    (first : Line.read true input = .done line rest)
    (blank : line.toList.all isBlank = false) : (run true input).ending ∈ endedInside := by
  cases hhead : Headers.read true {} rest with
  | starved => exact absurd hhead (Headers.read_true _ _)
  | ended =>
    have hfront : front true input = .stop (.failed .endedInMessage) := by
      simp [front, marker, first, blank, hhead]
    rw [run_of_stop hfront]
    simp [endedInside]
  | done headers rest' =>
    cases hbody : Reading.exactly true (headers.contentLength?.getD 0) rest' with
    | done body left => exact absurd (.message marker first blank hhead hbody) (hnone _)
    | starved => exact absurd hbody (Reading.exactly_true _ _)
    | ended =>
      have hfront : front true input = .stop (.failed
          (if headers.contentLength?.getD 0 ≤ bodyLimit then .endedInPayload
            else .endedInMessage)) := by
        simp [front, marker, first, blank, hhead, hbody]
      rw [run_of_stop hfront]
      split <;> simp [endedInside]

/-- Bytes that are taken for a blank line when the stream ends with them. -/
def IsBlankEnd (part : Bytes) : Prop :=
  Line.lineFeed ∉ part ∧ (Line.text part).toList.all isBlank = true

/-- A stream that ends inside a unit leaves an error, unless only blanks of the unit are there. -/
theorem ending_of_isUnit_append {before after part : Bytes} {ending : Ending} {u : Located}
    (hreturn : ¬EndsInBareReturn before) (hstop : front false before = .stop ending)
    (hu : IsUnit true (before ++ after) u) (hstart : u.start = part ++ after) (hpart : part ≠ []) :
    (run true before).ending ∈ endedInside
      ∨ IsBlankEnd part ∧ (run true before).ending = .finished := by
  have hnone : ∀ v, ¬IsUnit true before v := by
    intro v hv
    cases (front_of_isUnit (hv.of_true.resolve_right hreturn)).symm.trans hstop
  generalize hwhole : before ++ after = whole at hu
  cases hu with
  | @frame later rest f payload =>
    obtain rfl : before = part := List.append_cancel_right (hwhole.trans hstart)
    obtain ⟨b, begun, rfl⟩ := List.exists_cons_of_ne_nil hpart
    obtain ⟨rfl, rfl⟩ := List.cons.inj hwhole
    exact .inl (ending_of_marker hnone)
  | @message _ r₁ r₂ r₃ body line headers marker first blank head length =>
    subst hwhole
    rcases Line.read_of_start_eq first hstart hpart with ⟨-, rest, hopen, rfl⟩ | ⟨hfeed, hread⟩
    · have hread : Line.read true before = .done line rest := by
        simpa using Line.cautious_read.append hopen true []
      rw [List.head?_append_of_ne_nil _ (ne_nil_of_read hread)] at marker
      exact .inl (ending_of_line hnone marker hread blank)
    · rw [List.head?_append_of_ne_nil _ (ne_nil_of_read hread)] at marker
      cases hblank : (Line.text part).toList.all isBlank with
      | false => exact .inl (ending_of_line hnone marker hread hblank)
      | true =>
        refine .inr ⟨⟨hfeed, hblank⟩, ?_⟩
        rw [run_of_isBlankLine ⟨marker, _, hread, hblank⟩, run_nil]

/-- The end of a run over a stream that is cut off inside one of its units. -/
theorem ending_of_mem_units {before after part : Bytes} {u : Located} (hafter : after ≠ [])
    (hreturn : ¬EndsInBareReturn before) (hu : u ∈ units true (before ++ after))
    (hstart : u.start = part ++ after) (hpart : part ≠ []) (hrest : u.rest.length < after.length) :
    (run true before).ending ∈ endedInside
      ∨ IsBlankEnd part ∧ (run true before).ending = .finished := by
  induction before using front_induction false with
  | unit before v hv ih =>
    rw [units_of_isUnit (hv.append true after)] at hu
    rw [(run_of_isUnit hv.ended).2]
    rcases List.mem_cons.1 hu with rfl | hu
    · simp [Located.append] at hrest
    · exact ih (fun hlater => hreturn (hlater.of_isUnit hv)) hu
  | blank before rest hblank ih =>
    rw [units_of_isBlankLine (hblank.append true after)] at hu
    rw [run_of_isBlankLine hblank.ended]
    exact ih (fun hlater => hreturn (hlater.of_isBlankLine hblank)) hu
  | stop before ending hstop =>
    have hlong : after.length < u.start.length := by
      rw [hstart, List.length_append]
      exact Nat.lt_add_of_pos_left (List.length_pos_iff.2 hpart)
    have hunit : IsUnit true (before ++ after) u := by
      refine isUnit_of_mem_units hafter hstop hu fun rest hshort hlater => ?_
      have hle := start_length_le_of_mem_units hlater
      omega
    exact ending_of_isUnit_append hreturn hstop hunit hstart hpart

/-! ## Bare returns -/

theorem getLast?_of_isSuffix_of_ne_nil {bs cs : Bytes} (h : cs <:+ bs) (hne : cs ≠ []) :
    cs.getLast? = bs.getLast? := by
  have hlast := List.getLast?_eq_some_getLast hne
  rw [hlast, getLast?_of_isSuffix h hlast]

/-- A line that has arrived ends with a line feed. -/
theorem getLast?_of_read_false {input : Bytes} {line : String}
    (h : Line.read false input = .done line []) : input.getLast? = some Line.lineFeed := by
  induction input using Line.induction with
  | last input hinput =>
    rw [Line.read_of_not_mem hinput, if_neg (by simp)] at h
    exact absurd h Reading.missing_ne_done
  | cons line' after hline ih =>
    rw [Line.read_cons hline] at h
    split at h
    next =>
      obtain ⟨-, rfl⟩ := Reading.done.inj h
      exact List.getLast?_concat
    next => exact getLast?_of_isSuffix ⟨line' ++ [Line.lineFeed], by simp⟩ (ih h)

/-- At the end of a stream, a line whose line feed is missing is read like a complete one. -/
theorem read_line_of_bare {input : Bytes} {line : String}
    (h : Line.read true (input ++ [Line.lineFeed]) = .done line [])
    (hlast : input.getLast? = some Line.carriageReturn) :
    Line.read true input = .done line [] := by
  induction input using Line.induction with
  | last input hinput =>
    have hne : input ≠ [] := by
      rintro rfl
      cases hlast
    rw [Line.read_cons hinput] at h
    split at h
    next hshort =>
      obtain ⟨rfl, -⟩ := Reading.done.inj h
      rw [Line.read_of_not_mem hinput, if_pos (by simp [hne, hshort])]
    next => exact absurd (Line.read_length_lt h) (Nat.not_lt_zero _)
  | cons line' after hline ih =>
    rw [List.append_assoc, List.cons_append, Line.read_cons hline] at h
    rw [Line.read_cons hline]
    split at h
    next => exact absurd (Reading.done.inj h).2 (by simp)
    next hlong =>
      have hafter : after ≠ [] := by
        rintro rfl
        rw [List.getLast?_concat] at hlast
        exact absurd hlast (by decide)
      rw [if_neg hlong]
      refine ih h ?_
      rw [← hlast]
      exact getLast?_of_isSuffix_of_ne_nil ⟨line' ++ [Line.lineFeed], by simp⟩ hafter

theorem read_headers_of_bare {h h' : Headers} {input : Bytes}
    (hr : Headers.read true h (input ++ [Line.lineFeed]) = .done h' [])
    (hlast : input.getLast? = some Line.carriageReturn) :
    Headers.read true h input = .done h' [] := by
  generalize hwhole : input ++ [Line.lineFeed] = whole at hr
  fun_induction Headers.read true h whole generalizing input with
  | case1 h whole line after hl hempty =>
    obtain ⟨rfl, rfl⟩ := Reading.done.inj hr
    exact Headers.read_of_empty (read_line_of_bare (hwhole ▸ hl) hlast) hempty
  | case2 h whole line after hl hne ih =>
    have hafter : [Line.lineFeed].length ≤ after.length := Headers.read_length_lt hr
    obtain ⟨begun, hbegun, hread⟩ :=
      Line.cautious_read.of_append (hwhole ▸ hl) (List.cons_ne_nil _ _) hafter
    have hne' : begun ≠ [] := by
      rintro rfl
      rw [getLast?_of_read_false hread] at hlast
      exact absurd hlast (by decide)
    have hlater := getLast?_of_isSuffix_of_ne_nil (Line.isSuffix_of_read hread) hne'
    have hread' : Line.read true input = .done line begun := by
      simpa using Line.cautious_read.append hread true []
    rw [Headers.read_of_line hread' (by simpa using hne)]
    exact ih (hlater.trans hlast) hbegun.symm hr
  | case3 => cases hr
  | case4 => cases hr

/-- A message without a body is complete at the end of a stream without its last line feed. -/
theorem IsUnit.of_bare {input : Bytes} {u : Located} {m : Message}
    (h : IsUnit true (input ++ [Line.lineFeed]) u) (hrest : u.rest = [])
    (hchunk : u.chunk = some (.message m)) (hbody : m.body = [])
    (hlast : input.getLast? = some Line.carriageReturn) :
    ∃ v, IsUnit true input v ∧ v.rest = [] ∧ v.chunk = u.chunk := by
  have hne : input ≠ [] := by
    rintro rfl
    cases hlast
  generalize hwhole : input ++ [Line.lineFeed] = whole at h
  cases h with
  | frame payload => cases hchunk
  | @message _ r₁ r₂ r₃ body line headers marker first blank head length =>
    subst hwhole
    obtain rfl : r₃ = [] := hrest
    rw [List.head?_append_of_ne_nil _ hne] at marker
    obtain ⟨hle, hm⟩ := Option.ite_none_right_eq_some.1 hchunk
    obtain rfl : body = [] := by
      rw [← Message.body_ofParts line headers body, ← hbody]
      exact congrArg Message.body (Chunk.message.inj (Option.some.inj hm))
    obtain rfl : r₂ = [] := by
      obtain ⟨-, htaken, hleft⟩ := Reading.exactly_eq_done_iff.1 length
      rw [← List.take_append_drop (headers.contentLength?.getD 0) r₂, ← htaken, ← hleft]
      rfl
    -- The headers are not over with the start line, so its line feed is not the last one.
    have hr₁ : [Line.lineFeed].length ≤ r₁.length := Headers.read_length_lt head
    obtain ⟨begun, rfl, hfirst⟩ :=
      Line.cautious_read.of_append first (List.cons_ne_nil _ _) hr₁
    have hbegun : begun ≠ [] := by
      rintro rfl
      rw [getLast?_of_read_false hfirst] at hlast
      exact absurd hlast (by decide)
    have hlater := getLast?_of_isSuffix_of_ne_nil (Line.isSuffix_of_read hfirst) hbegun
    have hfirst' : Line.read true input = .done line begun := by
      simpa using Line.cautious_read.append hfirst true []
    exact ⟨_, .message marker hfirst' blank (read_headers_of_bare head (hlater.trans hlast)) length,
      rfl, rfl⟩

/-- A bare return at the end of the stream is one at the end of what follows a unit. -/
theorem EndsInBareReturn.rest {input rest : Bytes} {u : Located} {m : Message}
    (hlast : input.getLast? = some Line.carriageReturn) (hsuffix : rest <:+ input)
    (hu : u ∈ units true (rest ++ [Line.lineFeed])) (hrest : u.rest = [])
    (hchunk : u.chunk = some (.message m)) (hbody : m.body = []) : EndsInBareReturn rest := by
  have hne : rest ≠ [] := by
    rintro rfl
    have hread : Line.read true ([] ++ [Line.lineFeed]) = .done (Line.text []) [] :=
      Line.read_append List.not_mem_nil (by decide) true []
    have htext : Line.text [] = "" := by
      simp [Line.text, Utf8.decodeLossy, Utf8.scan]
    have hblank : IsBlankLine true ([] ++ [Line.lineFeed]) [] := ⟨by decide, _, hread, htext ▸ rfl⟩
    rw [units_of_isBlankLine hblank, units_of_stop (front_nil true)] at hu
    exact absurd hu List.not_mem_nil
  exact ⟨(getLast?_of_isSuffix_of_ne_nil hsuffix hne).trans hlast, u, hu, hrest, m, hchunk, hbody⟩

/-- A bare return at the end of a stream delivers what it delivers with the line feed. -/
theorem EndsInBareReturn.chunks_run {input : Bytes} (h : EndsInBareReturn input) :
    (run true input).chunks = (run true (input ++ [Line.lineFeed])).chunks := by
  induction input using front_induction false with
  | unit input v hv ih =>
    obtain ⟨hlast, u, hu, hrest, m, hchunk, hbody⟩ := h
    rw [(run_of_isUnit hv.ended).1, (run_of_isUnit (hv.append true [Line.lineFeed])).1]
    rw [units_of_isUnit (hv.append true [Line.lineFeed])] at hu
    rcases List.mem_cons.1 hu with rfl | hu
    · simp [Located.append] at hrest
    · exact congrArg (_ ++ ·) (ih (.rest hlast hv.rest_isSuffix hu hrest hchunk hbody))
  | blank input rest hblank ih =>
    obtain ⟨hlast, u, hu, hrest, m, hchunk, hbody⟩ := h
    rw [run_of_isBlankLine hblank.ended, run_of_isBlankLine (hblank.append true [Line.lineFeed])]
    rw [units_of_isBlankLine (hblank.append true [Line.lineFeed])] at hu
    exact ih (.rest hlast hblank.isSuffix hu hrest hchunk hbody)
  | stop input ending hstop =>
    obtain ⟨hlast, u, hu, hrest, m, hchunk, hbody⟩ := h
    have hunit : IsUnit true (input ++ [Line.lineFeed]) u := by
      refine isUnit_of_mem_units (List.cons_ne_nil _ _) hstop hu fun rest hshort hlater => ?_
      have hlt := rest_length_lt_of_mem_units hlater
      rw [List.length_singleton] at hshort
      omega
    obtain ⟨v, hv, hvrest, hvchunk⟩ := hunit.of_bare hrest hchunk hbody hlast
    rw [(run_of_isUnit hv).1, (run_of_isUnit hunit).1, hvrest, hrest, hvchunk]

/-! ## Cut streams -/

/-- A stream that is cut off delivers the units that end in front of the cut, and a bare return at
its end as if it were complete. Without one, a cut inside a unit leaves an error, unless only blanks
of the unit are there. -/
theorem run_truncated (before after : Bytes) :
    (run true (before ++ after)).chunks = (units true (before ++ after)).filterMap (·.chunk)
      ∧ (EndsInBareReturn before →
        (run true before).chunks = (run true (before ++ [Line.lineFeed])).chunks)
      ∧ (¬EndsInBareReturn before →
        (run true before).chunks
            = ((units true (before ++ after)).filter
                (after.length ≤ ·.rest.length)).filterMap (·.chunk)
          ∧ ∀ u ∈ units true (before ++ after), ∀ part, u.start = part ++ after → part ≠ [] →
            u.rest.length < after.length →
            (run true before).ending ∈ endedInside
              ∨ IsBlankEnd part ∧ (run true before).ending = .finished) := by
  refine ⟨chunks_run _, EndsInBareReturn.chunks_run, fun hreturn => ⟨?_, ?_⟩⟩
  · rw [chunks_run, units_true_eq hreturn]
    by_cases hafter : after = []
    · subst hafter
      rw [List.append_nil, units_true_eq hreturn, List.filter_eq_self.2 (by simp)]
    · rw [filter_units_append before hafter, List.filterMap_map]
      rfl
  · intro u hu part hstart hpart hrest
    have hafter : after ≠ [] := List.length_pos_iff.1 (Nat.lt_of_le_of_lt (Nat.zero_le _) hrest)
    exact ending_of_mem_units hafter hreturn hu hstart hpart hrest

/-- A response without its last byte, which is the line feed of the empty line, is delivered. -/
theorem run_response_without_lineFeed :
    let before := Utf8.encode "RTSP/1.0 200 OK\r\n" ++ [Line.carriageReturn]
    let after := [Line.lineFeed]
    (∃ u ∈ units true (before ++ after), u.start = before ++ after ∧ u.rest = [])
      ∧ (run true before).chunks
        ≠ ((units true (before ++ after)).filter (after.length ≤ ·.rest.length)).filterMap (·.chunk)
      ∧ (run true before).ending ∉ endedInside := by
  intro before after
  have hfirst : ∀ rest, Line.read true (Utf8.encode ("RTSP/1.0 200 OK" ++ "\r\n") ++ rest)
      = .done "RTSP/1.0 200 OK" rest :=
    Line.read_encode (by decide) (by decide) true
  have htext : Line.text [Line.carriageReturn] = "" := Line.text_encode ""
  have hbare : Line.read true [Line.carriageReturn] = .done "" [] := by
    rw [Line.read_of_not_mem (by decide), if_pos (by decide), htext]
  have hempty : Line.read true ([Line.carriageReturn] ++ Line.lineFeed :: []) = .done "" [] := by
    rw [Line.read_append (by decide) (by decide), htext]
  have hlength : ({} : Headers).contentLength?.getD 0 = 0 := by decide
  have hbody : Reading.exactly true (({} : Headers).contentLength?.getD 0) [] = .done [] [] := by
    rw [hlength]
    rfl
  have hcut : IsUnit true before _ := .message (by decide) (hfirst _) (by decide)
    (Headers.read_of_empty hbare rfl) hbody
  have hwhole : IsUnit true (before ++ after) _ := .message (by decide) (hfirst _) (by decide)
    (Headers.read_of_empty hempty rfl) hbody
  have hstart : Line.start (before ++ after) = before ++ after := by
    have hlines : before ++ after = Utf8.encode "RTSP/1.0 200 OK\r" ++ Line.lineFeed ::
        [Line.carriageReturn, Line.lineFeed] := by decide
    rw [hlines, Line.start_cons (by decide), if_pos (by decide)]
  rw [units_of_isUnit hwhole, units_of_stop (front_nil true), (run_of_isUnit hcut).1,
    (run_of_isUnit hcut).2, run_nil, hlength]
  refine ⟨⟨_, List.mem_cons_self, hstart, rfl⟩, ?_, ?_⟩
  · simp [after]
  · simp [endedInside]

end Rtsp.Chunk
