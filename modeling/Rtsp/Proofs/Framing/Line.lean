-- SUMMARY: A line is read back as it was written, whatever follows it.
import Mathlib.Data.List.Basic
import Mathlib.Data.List.TakeWhile
import Rtsp.Framing.Line
import Rtsp.Proofs.Text.Utf8

/-!
# Lines round trip

The bytes before the first line feed are one line, and decoding them inverts encoding: a text
without line feeds that is written with a line ending is read as that text, and what follows is
left for the next reader (`Line.read_encode`).
-/

namespace Rtsp

/-- The reading of bytes that are all there, whether the stream goes on or not. -/
theorem Reading.exactly_append (ended : Bool) (taken rest : Bytes) :
    exactly ended taken.length (taken ++ rest) = .done taken rest := by
  simp [exactly]

namespace Line

open Text

theorem ne_lineFeed_of_mem {line : Bytes} (h : lineFeed ∉ line) :
    ∀ b ∈ line, (b != lineFeed) = true := by
  intro b hb
  simpa using ne_of_mem_of_not_mem hb h

theorem dropWhile_append_lineFeed {line : Bytes} (h : lineFeed ∉ line) (rest : Bytes) :
    (line ++ lineFeed :: rest).dropWhile (· != lineFeed) = lineFeed :: rest := by
  rw [List.dropWhile_append_of_pos (ne_lineFeed_of_mem h)]
  simp

theorem takeWhile_append_lineFeed {line : Bytes} (h : lineFeed ∉ line) (rest : Bytes) :
    (line ++ lineFeed :: rest).takeWhile (· != lineFeed) = line := by
  rw [List.takeWhile_append_of_pos (ne_lineFeed_of_mem h)]
  simp

theorem dropWhile_of_not_mem {input : Bytes} (h : lineFeed ∉ input) :
    input.dropWhile (· != lineFeed) = [] :=
  List.dropWhile_eq_nil_iff.2 (ne_lineFeed_of_mem h)

/-- The first line is what stands in front of the first line feed, and is dropped if too long. -/
theorem read_cons {line : Bytes} (h : lineFeed ∉ line) (ended : Bool) (rest : Bytes) :
    read ended (line ++ lineFeed :: rest)
      = if line.length < limit then .done (text line) rest else read ended rest := by
  rw [read]
  split
  next b after hd =>
    obtain ⟨-, rfl⟩ := List.cons.inj (hd.symm.trans (dropWhile_append_lineFeed h rest))
    rw [takeWhile_append_lineFeed h]
  next hd => cases hd.symm.trans (dropWhile_append_lineFeed h rest)

/-- A line is read up to its line feed. -/
theorem read_append {line : Bytes} (h : lineFeed ∉ line) (hlength : line.length < limit)
    (ended : Bool) (rest : Bytes) :
    read ended (line ++ lineFeed :: rest) = .done (text line) rest := by
  rw [read_cons h, if_pos hlength]

/-- A line that is too long is dropped, and the one after it is read instead. -/
theorem read_cons_of_long {line : Bytes} (h : lineFeed ∉ line) (hlength : limit ≤ line.length)
    (ended : Bool) (rest : Bytes) :
    read ended (line ++ lineFeed :: rest) = read ended rest := by
  rw [read_cons h, if_neg (Nat.not_lt.2 hlength)]

/-- Without a line feed there is no line, but at the end of the stream what is there is one. -/
theorem read_of_not_mem {input : Bytes} (h : lineFeed ∉ input) (ended : Bool) :
    read ended input
      = if ended && !input.isEmpty && input.length < limit then .done (text input) []
        else .missing ended := by
  rw [read]
  split
  next hd => cases hd.symm.trans (dropWhile_of_not_mem h)
  next => rw [List.takeWhile_eq_self_iff.2 (ne_lineFeed_of_mem h)]

theorem read_nil (ended : Bool) : read ended [] = .missing ended := by
  rw [read_of_not_mem List.not_mem_nil, if_neg (by simp)]

/-- Every byte string is a line without an end, or a line feed follows its first line. -/
theorem induction {P : Bytes → Prop} (last : ∀ input, lineFeed ∉ input → P input)
    (cons : ∀ line rest, lineFeed ∉ line → P rest → P (line ++ lineFeed :: rest))
    (input : Bytes) : P input := by
  by_cases h : lineFeed ∈ input
  · obtain ⟨line, rest, hinput, hline⟩ := List.eq_append_cons_of_mem h
    have hlength : rest.length < input.length := by
      rw [hinput, List.length_append, List.length_cons]
      omega
    rw [hinput]
    exact cons line rest hline (induction last cons rest)
  · exact last input h
termination_by input.length

/-- The carriage return in front of the line feed belongs to the ending. -/
theorem text_encode (s : String) : text (Utf8.encode s ++ [carriageReturn]) = s := by
  simp [text, Utf8.decodeLossy_encode]

/-- Without a carriage return at its end, a text is read back as it is. -/
theorem text_encode_of_getLast? {s : String} (h : s.toList.getLast? ≠ some '\r') :
    text (Utf8.encode s) = s := by
  have hlast : (Utf8.encode s).getLast? ≠ some carriageReturn := fun hreturn =>
    h (Utf8.getLast?_of_getLast?_encode (by decide) hreturn)
  simp [text, hlast, Utf8.decodeLossy_encode]

/-- A line without text is empty, but for a carriage return. -/
theorem eq_return_of_isEmpty_text {line : Bytes} (h : (text line).isEmpty = true)
    (hne : line ≠ []) : line = [carriageReturn] := by
  have hempty : (text line).toList = [] := String.toList_eq_nil_iff.2 (String.isEmpty_iff.1 h)
  unfold text at hempty
  rw [String.toList_ofList] at hempty
  split at hempty
  next hreturn =>
    have hline := List.dropLast_append_getLast? _ hreturn
    rw [Decidable.not_imp_not.1 Utf8.decodeLossy_ne_nil hempty] at hline
    exact hline.symm
  next => exact absurd hempty (Utf8.decodeLossy_ne_nil hne)

/-- What is read has no character that was not written. -/
theorem mem_of_mem_text {s : String} {c : Char} (h : c ∈ (text (Utf8.encode s)).toList) :
    c ∈ s.toList := by
  by_cases hreturn : s.toList.getLast? = some '\r'
  · have hs : s = String.ofList s.toList.dropLast ++ "\r" := by
      apply String.toList_injective
      simpa using (List.dropLast_append_getLast? _ hreturn).symm
    have hcr : Utf8.encode "\r" = [carriageReturn] := by decide
    rw [hs, Utf8.encode_append, hcr, text_encode, String.toList_ofList] at h
    exact List.dropLast_subset _ h
  · rwa [text_encode_of_getLast? hreturn] at h

theorem lineFeed_not_mem_encode {s : String} (h : '\n' ∉ s.toList) :
    lineFeed ∉ Utf8.encode s :=
  fun hmem => h (Utf8.mem_toList_of_mem_encode (by decide) hmem)

/-- A line that is read holds no line feed. -/
theorem lineFeed_not_mem_text {line : Bytes} (h : lineFeed ∉ line) : '\n' ∉ (text line).toList := by
  unfold text
  dsimp only
  rw [String.toList_ofList]
  intro hmem
  have hbyte : lineFeed ∈ if line.getLast? = some carriageReturn then line.dropLast else line :=
    Utf8.mem_of_mem_decodeLossy (by decide) hmem
  split at hbyte
  · exact h (List.dropLast_subset _ hbyte)
  · exact h hbyte

theorem lineFeed_not_mem_of_read {ended : Bool} {input rest : Bytes} {line : String}
    (h : read ended input = .done line rest) : '\n' ∉ line.toList := by
  have hfront : ∀ input : Bytes, lineFeed ∉ input.takeWhile (· != lineFeed) := by
    intro input hmem
    simpa using List.mem_takeWhile_imp hmem
  fun_induction read ended input with
  | case1 input _ b after hd hlength =>
    obtain ⟨rfl, -⟩ := Reading.done.inj h
    exact lineFeed_not_mem_text (hfront input)
  | case2 input _ b after hd hlength ih => exact ih h
  | case3 input _ hd hne =>
    obtain ⟨rfl, -⟩ := Reading.done.inj h
    exact lineFeed_not_mem_text (hfront input)
  | case4 =>
    unfold Reading.missing at h
    split at h <;> cases h

/-- A text that is written with a bare line feed is read back, if no carriage return ends it. -/
theorem read_encode_bare {s : String} (h : '\n' ∉ s.toList)
    (hreturn : s.toList.getLast? ≠ some '\r') (hlength : (Utf8.encode s).length < limit)
    (ended : Bool) (rest : Bytes) :
    read ended (Utf8.encode s ++ lineFeed :: rest) = .done s rest := by
  rw [read_append (lineFeed_not_mem_encode h) hlength, text_encode_of_getLast? hreturn]

theorem encode_crlf : Utf8.encode "\r\n" = [carriageReturn, lineFeed] := by
  decide

/-- A text that is written as a line is read back. -/
theorem read_encode {s : String} (h : '\n' ∉ s.toList)
    (hlength : (Utf8.encode (s ++ "\r\n")).length ≤ limit) (ended : Bool) (rest : Bytes) :
    read ended (Utf8.encode (s ++ "\r\n") ++ rest) = .done s rest := by
  have hline : Utf8.encode (s ++ "\r\n") ++ rest
      = (Utf8.encode s ++ [carriageReturn]) ++ lineFeed :: rest := by
    simp [encode_crlf]
  have hne : lineFeed ≠ carriageReturn := by decide
  have hfeed : lineFeed ∉ Utf8.encode s ++ [carriageReturn] := by
    simp [lineFeed_not_mem_encode h, hne]
  have hshort : (Utf8.encode s ++ [carriageReturn]).length < limit := by
    simp only [Utf8.encode_append, encode_crlf, List.length_append, List.length_cons,
      List.length_nil] at hlength ⊢
    omega
  rw [hline, read_append hfeed hshort, text_encode]

end Line
end Rtsp
