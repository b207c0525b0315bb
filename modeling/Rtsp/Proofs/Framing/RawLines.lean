-- SUMMARY: Reading a line is splitting at each line feed and passing over what is too long.
import Rtsp.Proofs.Framing.Source

/-!
# Raw lines

A reader of lines takes a bounded front of a line, and uses up the rest of it without a bound if
that front has no line feed. What it comes to is plain: the bytes that are left are split behind
each line feed, pieces that are too long are passed over, and the next one is the line
(`Line.plain`, `Source.readLine_plain`).
-/

namespace Rtsp

open Text

namespace Line

/-! ## The plain reader -/

/-- The lines of a byte string, each with the line feed that ends it. The last one may have none. -/
def rawLines : Bytes → List Bytes
  | [] => []
  | b :: bs =>
    if b = lineFeed then [b] :: rawLines bs
    else
      match rawLines bs with
      | [] => [[b]]
      | line :: lines => (b :: line) :: lines

/-- As many bytes as a line may have, and no line feed among them. -/
def isSkipped (line : Bytes) : Bool :=
  limit ≤ line.length && lineFeed ∉ line.take limit

/-- The line without this byte at its end. -/
def withoutLast (b : UInt8) (line : Bytes) : Bytes :=
  if line.getLast? = some b then line.dropLast else line

/-- The text of a raw line. -/
def content (line : Bytes) : String :=
  String.ofList (Utf8.decodeLossy (withoutLast carriageReturn (withoutLast lineFeed line)))

/-- The next line, if there is one, and the bytes that are used up. -/
def plain (input : Bytes) : Option String × Bytes :=
  match (rawLines input).dropWhile isSkipped with
  | line :: _ => (some (content line), ((rawLines input).takeWhile isSkipped).flatten ++ line)
  | [] => (none, input)

/-! ## Splitting -/

theorem rawLines_append {line : Bytes} (h : lineFeed ∉ line) (rest : Bytes) :
    rawLines (line ++ lineFeed :: rest) = (line ++ [lineFeed]) :: rawLines rest := by
  induction line with
  | nil => simp [rawLines]
  | cons b line ih =>
    obtain ⟨hb, hline⟩ := not_or.1 (mt List.mem_cons.2 h)
    rw [List.cons_append, rawLines, if_neg (Ne.symm hb), ih hline]
    rfl

theorem rawLines_of_not_mem {line : Bytes} (h : lineFeed ∉ line) (hne : line ≠ []) :
    rawLines line = [line] := by
  induction line with
  | nil => exact absurd rfl hne
  | cons b line ih =>
    obtain ⟨hb, hline⟩ := not_or.1 (mt List.mem_cons.2 h)
    rw [rawLines, if_neg (Ne.symm hb)]
    cases line with
    | nil => rfl
    | cons c line => rw [ih hline (List.cons_ne_nil c line)]

theorem isSkipped_of_not_mem {line : Bytes} (h : lineFeed ∉ line) :
    isSkipped line = decide (limit ≤ line.length) := by
  have hfront : lineFeed ∉ line.take limit := fun hmem => h (List.mem_of_mem_take hmem)
  simp [isSkipped, hfront]

/-- The line feed itself counts only if it is among the first bytes. -/
theorem isSkipped_append_lineFeed {line : Bytes} (h : lineFeed ∉ line) :
    isSkipped (line ++ [lineFeed]) = decide (limit ≤ line.length) := by
  by_cases hlong : limit ≤ line.length
  · have hfront : lineFeed ∉ line.take limit := fun hmem => h (List.mem_of_mem_take hmem)
    have hlength : limit ≤ line.length + 1 := Nat.le_succ_of_le hlong
    simp [isSkipped, List.take_append_of_le_length hlong, hfront, hlong, hlength]
  · have hall : (line ++ [lineFeed]).take limit = line ++ [lineFeed] :=
      List.take_of_length_le (by simp; omega)
    simp [isSkipped, hall, hlong]

theorem content_of_not_mem {line : Bytes} (h : lineFeed ∉ line) : content line = text line := by
  rw [content, withoutLast, withoutLast, if_neg (mt List.mem_of_getLast? h)]
  rfl

theorem content_append_lineFeed (line : Bytes) : content (line ++ [lineFeed]) = text line := by
  have hlast : withoutLast lineFeed (line ++ [lineFeed]) = line := by
    simp [withoutLast]
  rw [content, hlast]
  rfl

section

variable {line : Bytes} (h : lineFeed ∉ line)
include h

theorem plain_of_not_mem (hne : line ≠ []) :
    plain line = (if line.length < limit then some (text line) else none, line) := by
  have hlines := rawLines_of_not_mem h hne
  have hskipped := isSkipped_of_not_mem h
  by_cases hshort : line.length < limit
  · simp [plain, hlines, hskipped, hshort, Nat.not_le.2 hshort, content_of_not_mem h]
  · simp [plain, hlines, hskipped, hshort, Nat.not_lt.1 hshort]

theorem plain_of_short (hshort : line.length < limit) (rest : Bytes) :
    plain (line ++ lineFeed :: rest) = (some (text line), line ++ [lineFeed]) := by
  have hskipped := isSkipped_append_lineFeed h
  simp [plain, rawLines_append h, hskipped, Nat.not_le.2 hshort, content_append_lineFeed]

theorem plain_of_long (hlong : limit ≤ line.length) (rest : Bytes) :
    plain (line ++ lineFeed :: rest)
      = ((plain rest).1, (line ++ [lineFeed]) ++ (plain rest).2) := by
  have hskipped := isSkipped_append_lineFeed h
  simp only [plain, rawLines_append h]
  rw [List.dropWhile_cons_of_pos (by simp [hskipped, hlong]),
    List.takeWhile_cons_of_pos (by simp [hskipped, hlong])]
  split <;> simp [*]

end

/-- Reading gives a line and uses up these bytes, or it gives none and these are all. -/
def Gives (input : Bytes) : Option String × Bytes → Prop
  | (some line, used) => ∃ rest, read true input = .done line rest ∧ input = used ++ rest
  | (none, used) => read true input = .ended ∧ input = used

theorem gives_plain (input : Bytes) : Gives input (plain input) := by
  induction input using Line.induction with
  | last input hinput =>
    by_cases hne : input = []
    · rw [hne]
      exact ⟨read_nil true, rfl⟩
    · have hempty : input.isEmpty = false := List.isEmpty_eq_false_iff.2 hne
      rw [plain_of_not_mem hinput hne]
      by_cases hshort : input.length < limit
      · rw [if_pos hshort]
        refine ⟨[], ?_, (List.append_nil _).symm⟩
        rw [read_of_not_mem hinput, if_pos (by simp [hempty, hshort])]
      · rw [if_neg hshort]
        refine ⟨?_, rfl⟩
        rw [read_of_not_mem hinput, if_neg (by simp [hshort])]
        rfl
  | cons line rest hline ih =>
    by_cases hshort : line.length < limit
    · rw [plain_of_short hline hshort]
      exact ⟨rest, read_append hline hshort true rest, by simp⟩
    · -- The line is passed over, and what is read behind it is read here.
      have hlong := Nat.not_lt.1 hshort
      have hread := read_cons_of_long hline hlong true rest
      rw [plain_of_long hline hlong]
      cases hplain : plain rest with
      | mk found used =>
        rw [hplain] at ih
        cases found with
        | none =>
          obtain ⟨hended, rfl⟩ := ih
          exact ⟨hread.trans hended, by simp⟩
        | some next =>
          obtain ⟨after, hdone, rfl⟩ := ih
          exact ⟨after, hread.trans hdone, by simp⟩

end Line

/-- A line is read from a source as it is from its bytes by the plain reader, and the same bytes are
used up. -/
theorem Source.readLine_plain (s : Source) :
    s.readLine.1 = (Line.plain s.bytes).1
      ∧ s.bytes = (Line.plain s.bytes).2 ++ s.readLine.2.bytes := by
  have hgives := Line.gives_plain s.bytes
  have hgave := s.gave_readLine
  cases hplain : Line.plain s.bytes with
  | mk found used =>
    cases hline : s.readLine with
    | mk line rest =>
      rw [hplain] at hgives
      rw [hline] at hgave
      cases found with
      | none =>
        obtain ⟨hended, hbytes⟩ := hgives
        cases line with
        | none => exact ⟨rfl, by rw [hgave.2, List.append_nil]; exact hbytes⟩
        | some line => cases hended.symm.trans hgave
      | some text =>
        obtain ⟨after, hdone, hbytes⟩ := hgives
        cases line with
        | none => cases hdone.symm.trans hgave.1
        | some line =>
          obtain ⟨rfl, rfl⟩ := Reading.done.inj (hdone.symm.trans hgave)
          exact ⟨rfl, hbytes⟩

end Rtsp
