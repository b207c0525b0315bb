-- SUMMARY: Each line of a description acts on the last section, and a text is read line by line.
import Rtsp.Description.Parse
import Rtsp.Proofs.Text.Words

/-!
# Lines of a description

A description is read line by line: a media line opens a section, and any other line acts on the
section that was opened last, or on the session where there is none
(`SessionDescription.ofLines_eq_foldl`). How the lines of a text end does not matter, and neither
does the empty line behind the last ending (`SessionDescription.parse_eq_foldl`).
-/

namespace Rtsp

open Text

/-! ## Sections -/

namespace SessionDescription

/-- A line acts on the last section, or on the session where no section is open. -/
def applyLine (d : SessionDescription) : DescriptionLine → SessionDescription
  | .media value => { d with media := d.media ++ [.ofMediaLine value] }
  | line =>
    match d.media.getLast? with
    | none => { d with control := line.control?.or d.control }
    | some m => { d with media := d.media.dropLast ++ [m.applyLine line] }

theorem applyLine_session {line : DescriptionLine} (h : line.isMedia = false)
    (control : Option String) :
    applyLine ⟨control, []⟩ line = ⟨line.control?.or control, []⟩ := by
  cases line with
  | media value => cases h
  | _ => rfl

theorem applyLine_section {line : DescriptionLine} (h : line.isMedia = false)
    (control : Option String) (before : List MediaSection) (m : MediaSection) :
    applyLine ⟨control, before ++ [m]⟩ line = ⟨control, before ++ [m.applyLine line]⟩ := by
  cases line with
  | media value => cases h
  | _ => simp [applyLine]

theorem applyLine_other (d : SessionDescription) : d.applyLine .other = d := by
  obtain ⟨control, media⟩ := d
  rcases List.eq_nil_or_concat' media with rfl | ⟨before, m, rfl⟩
  · exact applyLine_session rfl control
  · exact applyLine_section rfl control before m

/-- In front of the sections the last control attribute counts. -/
theorem foldl_session {lines : List DescriptionLine} (h : ∀ line ∈ lines, line.isMedia = false)
    (control : Option String) :
    lines.foldl applyLine ⟨control, []⟩
      = ⟨(lines.filterMap DescriptionLine.control?).getLast?.or control, []⟩ := by
  induction lines generalizing control with
  | nil => rfl
  | cons line lines ih =>
    rw [List.foldl_cons, applyLine_session (h line List.mem_cons_self),
      ih fun l hl => h l (List.mem_cons_of_mem _ hl)]
    cases hcontrol : line.control? with
    | none => rw [List.filterMap_cons_none hcontrol, Option.none_or]
    | some value =>
      rw [List.filterMap_cons_some hcontrol, List.getLast?_cons]
      cases (lines.filterMap DescriptionLine.control?).getLast? <;> rfl

theorem foldl_section {lines : List DescriptionLine} (h : ∀ line ∈ lines, line.isMedia = false)
    (control : Option String) (before : List MediaSection) (m : MediaSection) :
    lines.foldl applyLine ⟨control, before ++ [m]⟩
      = ⟨control, before ++ [lines.foldl MediaSection.applyLine m]⟩ := by
  induction lines generalizing m with
  | nil => rfl
  | cons line lines ih =>
    rw [List.foldl_cons, applyLine_section (h line List.mem_cons_self),
      ih fun l hl => h l (List.mem_cons_of_mem _ hl), List.foldl_cons]

theorem not_isMedia_of_mem_takeWhile {lines : List DescriptionLine} :
    ∀ line ∈ lines.takeWhile (!·.isMedia), line.isMedia = false := by
  intro line hline
  simpa using List.mem_takeWhile_imp hline

theorem isMedia_head?_dropWhile (lines : List DescriptionLine) :
    ∀ line ∈ (lines.dropWhile (!·.isMedia)).head?, line.isMedia = true := by
  intro line hline
  have hnot := List.head?_dropWhile_not (!·.isMedia) lines
  rw [Option.mem_def.1 hline] at hnot
  simpa using hnot

theorem foldl_sections {lines : List DescriptionLine}
    (h : ∀ line ∈ lines.head?, line.isMedia = true) (control : Option String)
    (before : List MediaSection) :
    lines.foldl applyLine ⟨control, before⟩ = ⟨control, before ++ sections lines⟩ := by
  fun_induction sections lines generalizing before with
  | case1 value lines own later ih =>
    -- The lines up to the next media line act on the section just opened; then comes that line.
    have hlines : lines = own ++ later := List.takeWhile_append_dropWhile.symm
    have hopen : applyLine ⟨control, before⟩ (.media value)
        = ⟨control, before ++ [.ofMediaLine value]⟩ := rfl
    rw [List.foldl_cons, hopen, hlines, List.foldl_append,
      foldl_section not_isMedia_of_mem_takeWhile, ih (isMedia_head?_dropWhile lines),
      List.append_assoc]
    rfl
  | case2 lines hnot =>
    cases lines with
    | nil => rw [List.append_nil]; rfl
    | cons line lines =>
      cases line with
      | media value => exact absurd rfl (hnot value lines)
      | _ => cases h _ rfl

theorem ofLines_eq_foldl (lines : List DescriptionLine) :
    ofLines lines = lines.foldl applyLine ⟨none, []⟩ := by
  have hlines := List.takeWhile_append_dropWhile (p := fun line => !line.isMedia) (l := lines)
  conv_rhs => rw [← hlines]
  rw [List.foldl_append, foldl_session not_isMedia_of_mem_takeWhile, Option.or_none,
    foldl_sections (isMedia_head?_dropWhile lines), List.nil_append]
  rfl

/-! ## Line endings -/

/-- A text whose lines are `lines`: each ends with a line feed, which a carriage return may stand in
front of, and the last one need not. -/
inductive Ended : List (List Char) → List Char → Prop
  | nil : Ended [] []
  | last (line : List Char) : Ended [line] line
  | lf (line : List Char) {lines text} (h : Ended lines text) :
    Ended (line :: lines) (line ++ '\n' :: text)
  | crlf (line : List Char) {lines text} (h : Ended lines text) :
    Ended (line :: lines) (line ++ '\r' :: '\n' :: text)

end SessionDescription

/-- White space at the end of a line does not matter. -/
theorem DescriptionLine.read_append_blank {b : Char} (hb : isBlank b) (line : List Char) :
    read (line ++ [b]) = read line := by
  unfold read
  rw [trim_append_blank hb]

namespace SessionDescription

theorem Ended.foldl_splitOn {lines : List (List Char)} {text : List Char} (h : Ended lines text)
    (hline : ∀ line ∈ lines, '\n' ∉ line) (d : SessionDescription) :
    ((text.splitOn '\n').map DescriptionLine.read).foldl applyLine d
      = (lines.map DescriptionLine.read).foldl applyLine d := by
  induction h generalizing d with
  -- Behind the last ending stands an empty line, which is no line of the description.
  | nil => exact applyLine_other d
  | last line => rw [List.splitOn_eq_singleton (hline line List.mem_cons_self)]
  | lf line _ ih =>
    rw [List.splitOn_append_cons_self_of_not_mem (hline line List.mem_cons_self), List.map_cons,
      List.foldl_cons, ih fun l hl => hline l (List.mem_cons_of_mem _ hl)]
    rfl
  | crlf line _ ih =>
    have hreturn : '\n' ∉ line ++ ['\r'] := by
      simpa using hline line List.mem_cons_self
    rw [List.append_cons line '\r', List.splitOn_append_cons_self_of_not_mem hreturn,
      List.map_cons, List.foldl_cons, DescriptionLine.read_append_blank (by decide),
      ih fun l hl => hline l (List.mem_cons_of_mem _ hl)]
    rfl

theorem parse_eq_foldl {lines : List (List Char)} {text : String}
    (h : Ended lines text.toList) (hline : ∀ line ∈ lines, '\n' ∉ line) :
    parse text = (lines.map DescriptionLine.read).foldl applyLine ⟨none, []⟩ := by
  rw [parse, ofLines_eq_foldl, h.foldl_splitOn hline]

end SessionDescription

end Rtsp
