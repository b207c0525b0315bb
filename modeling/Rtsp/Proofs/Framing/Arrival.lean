-- SUMMARY: What is read from the bytes that have arrived does not change when more arrive.
import Rtsp.Proofs.Framing.Line
import Rtsp.Proofs.Framing.Run

/-!
# Arrival

While a stream is open, a reader answers only if no later byte could change the answer, and it
answers as soon as the bytes of the answer are there (`Reading.Cautious`). Once the stream has
ended, the reader of a line takes what is left for a line. Nothing else is read from an ended
stream that is not read from an open one.
-/

namespace Rtsp

theorem getLast?_of_isSuffix {bs cs : Bytes} {b : UInt8} (h : cs <:+ bs)
    (hlast : cs.getLast? = some b) : bs.getLast? = some b := by
  obtain ⟨before, rfl⟩ := h
  rw [List.getLast?_append, hlast]
  rfl

/-! ## Cautious readers -/

namespace Reading

variable {α : Type}

/-- A reader takes bytes from the front. What it reads from an open stream stays what it is,
whatever arrives or if the stream ends; and what it reads without touching the bytes that arrived
last could be read before they arrived. -/
structure Cautious (read : Bool → Bytes → Reading α) : Prop where
  isSuffix : ∀ {ended input value rest}, read ended input = .done value rest → rest <:+ input
  append : ∀ {input value rest}, read false input = .done value rest →
    ∀ ended more, read ended (input ++ more) = .done value (rest ++ more)
  of_append : ∀ {ended input more value rest}, read ended (input ++ more) = .done value rest →
    more ≠ [] → more.length ≤ rest.length →
    ∃ before, rest = before ++ more ∧ read false input = .done value before

theorem cautious_exactly (n : Nat) : Cautious fun ended input => exactly ended n input where
  isSuffix := by
    intro ended input taken rest h
    obtain ⟨-, -, rfl⟩ := exactly_eq_done_iff.1 h
    exact List.drop_suffix _ _
  append := by
    intro input taken rest h ended more
    obtain ⟨hn, rfl, rfl⟩ := exactly_eq_done_iff.1 h
    refine exactly_eq_done_iff.2 ⟨by simp; omega, ?_, ?_⟩
    · rw [List.take_append_of_le_length hn]
    · rw [List.drop_append_of_le_length hn]
  of_append := by
    intro ended input more taken rest h hne hlength
    obtain ⟨hn, rfl, rfl⟩ := exactly_eq_done_iff.1 h
    have hmore : 0 < more.length := List.length_pos_iff.2 hne
    have hn : n ≤ input.length := by
      simp only [List.length_drop, List.length_append] at hlength hn
      omega
    refine ⟨input.drop n, List.drop_append_of_le_length hn, exactly_eq_done_iff.2 ⟨hn, ?_, rfl⟩⟩
    rw [List.take_append_of_le_length hn]

end Reading

/-! ## Lines -/

namespace Line

open Reading

theorem isSuffix_of_read {ended : Bool} {input rest : Bytes} {line : String}
    (h : read ended input = .done line rest) : rest <:+ input := by
  induction input using Line.induction with
  | last input hinput =>
    rw [read_of_not_mem hinput] at h
    split at h
    · obtain ⟨-, rfl⟩ := Reading.done.inj h
      exact List.nil_suffix
    · exact absurd h missing_ne_done
  | cons line' after hline ih =>
    have hafter : after <:+ line' ++ lineFeed :: after := ⟨line' ++ [lineFeed], by simp⟩
    rw [read_cons hline] at h
    split at h
    · obtain ⟨-, rfl⟩ := Reading.done.inj h
      exact hafter
    · exact (ih h).trans hafter

/-- A line that begins in front of the last arrival and has no line feed there ends inside it. -/
theorem length_lt_of_read_append {ended : Bool} {input more rest : Bytes} {line : String}
    (hinput : lineFeed ∉ input) (hne : more ≠ [])
    (h : read ended (input ++ more) = .done line rest) : rest.length < more.length := by
  by_cases hmore : lineFeed ∈ more
  · obtain ⟨begun, after, rfl, hbegun⟩ := List.eq_append_cons_of_mem hmore
    have hfirst : lineFeed ∉ input ++ begun := by simp [hinput, hbegun]
    have hafter : after.length < (begun ++ lineFeed :: after).length := by simp; omega
    rw [← List.append_assoc, read_cons hfirst] at h
    split at h
    · obtain ⟨-, rfl⟩ := Reading.done.inj h
      exact hafter
    · exact Nat.lt_of_le_of_lt (isSuffix_of_read h).length_le hafter
  · have hall : lineFeed ∉ input ++ more := by simp [hinput, hmore]
    rw [read_of_not_mem hall] at h
    split at h
    · obtain ⟨-, rfl⟩ := Reading.done.inj h
      exact List.length_pos_iff.2 hne
    · exact absurd h missing_ne_done

theorem cautious_read : Cautious read where
  isSuffix := isSuffix_of_read
  append := by
    intro input line rest h ended more
    induction input using Line.induction with
    | last input hinput =>
      rw [read_of_not_mem hinput, if_neg (by simp)] at h
      exact absurd h missing_ne_done
    | cons line' after hline ih =>
      rw [read_cons hline] at h
      rw [List.append_assoc, List.cons_append, read_cons hline]
      split at h
      next hshort =>
        obtain ⟨rfl, rfl⟩ := Reading.done.inj h
        rw [if_pos hshort]
      next hlong =>
        rw [if_neg hlong]
        exact ih h
  of_append := by
    intro ended input more line rest h hne hlength
    induction input using Line.induction with
    | last input hinput =>
      exact absurd (length_lt_of_read_append hinput hne h) (Nat.not_lt.2 hlength)
    | cons line' after hline ih =>
      rw [List.append_assoc, List.cons_append, read_cons hline] at h
      rw [read_cons hline]
      split at h
      next hshort =>
        obtain ⟨rfl, rfl⟩ := Reading.done.inj h
        exact ⟨after, rfl, by rw [if_pos hshort]⟩
      next hlong =>
        rw [if_neg hlong]
        exact ih h

/-- What only an ended stream has for a line is its last line, which has no line feed. -/
theorem read_true_cases {input rest : Bytes} {line : String}
    (h : read true input = .done line rest) :
    read false input = .done line rest
      ∨ rest = [] ∧ ∃ last, lineFeed ∉ last ∧ last ≠ [] ∧ last <:+ input ∧ line = text last
        ∧ read true (input ++ [lineFeed]) = .done line [] := by
  induction input using Line.induction with
  | last input hinput =>
    rw [read_of_not_mem hinput] at h
    split at h
    next hlast =>
      obtain ⟨rfl, rfl⟩ := Reading.done.inj h
      simp only [Bool.true_and, Bool.and_eq_true, Bool.not_eq_true', decide_eq_true_eq] at hlast
      refine .inr ⟨rfl, input, hinput, ?_, List.suffix_rfl, rfl, read_append hinput hlast.2 _ _⟩
      exact List.isEmpty_eq_false_iff.1 hlast.1
    next => exact absurd h missing_ne_done
  | cons line' after hline ih =>
    rw [read_cons hline] at h
    rw [List.append_assoc, List.cons_append, read_cons hline, read_cons hline]
    split at h
    next hshort =>
      rw [if_pos hshort]
      exact .inl h
    next hlong =>
      rw [if_neg hlong, if_neg hlong]
      refine (ih h).imp_right fun ⟨hrest, last, hlast, hne, hsuffix, hread⟩ => ?_
      exact ⟨hrest, last, hlast, hne, hsuffix.trans ⟨line' ++ [lineFeed], by simp⟩, hread⟩

end Line

/-! ## Headers -/

namespace Headers

theorem isSuffix_of_read {ended : Bool} {h h' : Headers} {input rest : Bytes}
    (hr : read ended h input = .done h' rest) : rest <:+ input := by
  fun_induction read ended h input with
  | case1 h input line after hl _ =>
    obtain ⟨-, rfl⟩ := Reading.done.inj hr
    exact Line.isSuffix_of_read hl
  | case2 h input line after hl _ ih => exact (ih hr).trans (Line.isSuffix_of_read hl)
  | case3 => cases hr
  | case4 => cases hr

theorem cautious_read (h : Headers) : Reading.Cautious fun ended input => read ended h input where
  isSuffix := isSuffix_of_read
  append := by
    intro input h' rest hr ended more
    fun_induction read false h input with
    | case1 h input line after hl hempty =>
      obtain ⟨rfl, rfl⟩ := Reading.done.inj hr
      exact read_of_empty (Line.cautious_read.append hl ended more) hempty
    | case2 h input line after hl hne ih =>
      rw [read_of_line (Line.cautious_read.append hl ended more) (by simpa using hne)]
      exact ih hr
    | case3 => cases hr
    | case4 => cases hr
  of_append := by
    intro ended input more h' rest hr hmore hlength
    generalize hwhole : input ++ more = whole at hr
    fun_induction read ended h whole generalizing input with
    | case1 h whole line after hl hempty =>
      obtain ⟨rfl, rfl⟩ := Reading.done.inj hr
      obtain ⟨before, hafter, hread⟩ := Line.cautious_read.of_append (hwhole ▸ hl) hmore hlength
      exact ⟨before, hafter, read_of_empty hread hempty⟩
    | case2 h whole line after hl hne ih =>
      have hlater := Nat.le_trans hlength (isSuffix_of_read hr).length_le
      obtain ⟨before, hafter, hread⟩ := Line.cautious_read.of_append (hwhole ▸ hl) hmore hlater
      obtain ⟨left, hleft, hrest⟩ := ih hafter.symm hr
      refine ⟨left, hleft, ?_⟩
      rw [read_of_line hread (by simpa using hne)]
      exact hrest
    | case3 => cases hr
    | case4 => cases hr

/-- What only an ended stream has for the end of the headers is a carriage return without a line
feed. -/
theorem read_true_cases {h h' : Headers} {input rest : Bytes}
    (hr : read true h input = .done h' rest) :
    read false h input = .done h' rest
      ∨ rest = [] ∧ input.getLast? = some Line.carriageReturn
        ∧ read true h (input ++ [Line.lineFeed]) = .done h' [] := by
  fun_induction read true h input with
  | case1 h input line after hl hempty =>
    obtain ⟨rfl, rfl⟩ := Reading.done.inj hr
    rcases Line.read_true_cases hl with hread | ⟨hrest, last, -, hne, hsuffix, hline, hread⟩
    · exact .inl (read_of_empty hread hempty)
    · obtain rfl := Line.eq_return_of_isEmpty_text (hline ▸ hempty) hne
      exact .inr ⟨hrest, getLast?_of_isSuffix hsuffix rfl, read_of_empty hread hempty⟩
  | case2 h input line after hl hne ih =>
    have hne' : line.isEmpty = false := by simpa using hne
    rcases Line.read_true_cases hl with hread | ⟨hrest, -⟩
    · rcases ih hr with hopen | ⟨hrest, hlast, hreturn⟩
      · rw [read_of_line hread hne']
        exact .inl hopen
      · refine .inr ⟨hrest, getLast?_of_isSuffix (Line.isSuffix_of_read hl) hlast, ?_⟩
        rw [read_of_line (Line.cautious_read.append hread true _) hne']
        exact hreturn
    · rw [hrest] at hr
      exact absurd (read_length_lt hr) (Nat.not_lt_zero _)
  | case3 => cases hr
  | case4 => cases hr

end Headers

/-! ## Interleaved frames -/

namespace Interleaved

theorem cautious_read : Reading.Cautious read where
  isSuffix := by
    intro ended input f rest h
    obtain ⟨hi, lo, after, rfl, hread⟩ := read_eq_done_iff.1 h
    exact ((Reading.cautious_exactly _).isSuffix hread).trans ⟨[f.channel, hi, lo], rfl⟩
  append := by
    intro input f rest h ended more
    obtain ⟨hi, lo, after, rfl, hread⟩ := read_eq_done_iff.1 h
    exact read_eq_done_iff.2 ⟨hi, lo, after ++ more, rfl,
      (Reading.cautious_exactly _).append hread ended more⟩
  of_append := by
    intro ended input more f rest h hmore hlength
    obtain ⟨hi, lo, after, hinput, hread⟩ := read_eq_done_iff.1 h
    have hshort := ((Reading.cautious_exactly _).isSuffix hread).length_le
    match input with
    | [] | [_] | [_, _] =>
      have hwhole := congrArg List.length hinput
      simp only [List.length_append, List.length_cons, List.length_nil] at hwhole
      omega
    | channel :: hi' :: lo' :: begun =>
      obtain ⟨rfl, rfl, rfl, rfl⟩ :
          channel = f.channel ∧ hi' = hi ∧ lo' = lo ∧ begun ++ more = after := by
        simpa using hinput
      obtain ⟨before, hrest, hpayload⟩ :=
        (Reading.cautious_exactly _).of_append hread hmore hlength
      exact ⟨before, hrest, read_eq_done_iff.2 ⟨hi', lo', begun, rfl, hpayload⟩⟩

end Interleaved
end Rtsp
