-- SUMMARY: Where the head of a message ends, however its lines end.
import Rtsp.Message.Parse
import Rtsp.Proofs.Framing.Arrival

/-!
# Layouts

The lines of a message may end in different ways, and its head ends with the first empty line
(`Message.Layout`). `Message.parse` finds that line by its bytes alone. It misses one that ends in
carriage return and line feed where the line in front of it ends in a line feed alone: then the
headers are still those in front of the empty line, for they are taken line by line, but the body is
cut elsewhere (`Message.parse_layout`, `Message.parse_layout_cut_late`). Where all lines end in the
same way, the line is found (`Message.Layout.parse_uniform`).

Decoding keeps the lines apart (`Line.splitOn_decodeLossy`) and carriage returns at their ends
(`Line.dropReturn_decodeLossy`), so it does not matter that the head is decoded in one piece.
-/

namespace Rtsp

open Text

/-! ## Lines -/

namespace Line

/-- A carriage return, if there is one. -/
def returns (withReturn : Bool) : Bytes :=
  if withReturn then [carriageReturn] else []

/-- The two ways to end a line. -/
def ending (withReturn : Bool) : Bytes :=
  returns withReturn ++ [lineFeed]

end Line

/-- A line and how it ends. -/
structure RawLine where
  content : Bytes
  withReturn : Bool
  deriving DecidableEq, Repr

namespace RawLine

def bytes (l : RawLine) : Bytes :=
  l.content ++ Line.ending l.withReturn

/-- The content is told from the ending. A carriage return in front of the line feed belongs to the
ending, so it ends the content only where there is another one. -/
structure WellFormed (l : RawLine) : Prop where
  lineFeed_not_mem : Line.lineFeed ∉ l.content
  getLast?_ne : l.withReturn = false → l.content.getLast? ≠ some Line.carriageReturn

variable {l : RawLine} (h : l.WellFormed)

include h

theorem WellFormed.text_eq :
    Line.text (l.content ++ Line.returns l.withReturn)
      = String.ofList (Utf8.decodeLossy l.content) := by
  cases hreturn : l.withReturn with
  | false => simp [Line.text, Line.returns, h.getLast?_ne hreturn]
  | true => simp [Line.text, Line.returns]

theorem WellFormed.lineFeed_not_mem_append :
    Line.lineFeed ∉ l.content ++ Line.returns l.withReturn := by
  have hreturns : Line.lineFeed ∉ Line.returns l.withReturn := by cases l.withReturn <;> decide
  simp [h.lineFeed_not_mem, hreturns]

/-- A line that is not empty does not begin like an empty one. -/
theorem WellFormed.bytes_append_ne (hne : l.content ≠ []) (rest after : Bytes) :
    l.bytes ++ rest ≠ Line.lineFeed :: after
      ∧ l.bytes ++ rest ≠ Line.carriageReturn :: Line.lineFeed :: after := by
  obtain ⟨content, withReturn⟩ := l
  obtain ⟨b, content, rfl⟩ := List.exists_cons_of_ne_nil hne
  have hfeed := h.lineFeed_not_mem
  dsimp only at hfeed
  constructor
  · intro heq
    obtain rfl := (List.cons.inj heq).1
    exact hfeed List.mem_cons_self
  · intro heq
    obtain ⟨rfl, hrest⟩ := List.cons.inj heq
    cases content with
    | nil =>
      cases withReturn with
      | false => exact h.getLast?_ne rfl rfl
      | true => cases (List.cons.inj hrest).1
    | cons c content =>
      obtain rfl := (List.cons.inj hrest).1
      exact hfeed (List.mem_cons_of_mem _ List.mem_cons_self)

/-- From a stream, a line that is not too long is read as its content. -/
theorem WellFormed.read (hlength : l.bytes.length ≤ Line.limit) (ended : Bool) (rest : Bytes) :
    Line.read ended (l.bytes ++ rest)
      = .done (String.ofList (Utf8.decodeLossy l.content)) rest := by
  have hshort : (l.content ++ Line.returns l.withReturn).length < Line.limit := by
    simp only [bytes, Line.ending, List.length_append, List.length_singleton] at hlength ⊢
    omega
  have hread := Line.read_append h.lineFeed_not_mem_append hshort ended rest
  rw [h.text_eq] at hread
  simpa [bytes, Line.ending] using hread

end RawLine

/-! ## Texts -/

namespace Line

/-- Decoding keeps the lines apart, whatever bytes they hold. -/
theorem splitOn_decodeLossy (bs : Bytes) :
    (Utf8.decodeLossy bs).splitOn '\n' = (bs.splitOn lineFeed).map Utf8.decodeLossy := by
  have hchars : ∀ {line : Bytes}, lineFeed ∉ line → '\n' ∉ Utf8.decodeLossy line := fun h hmem =>
    h (Utf8.mem_of_mem_decodeLossy (b := lineFeed) (by decide) hmem)
  induction bs using Line.induction with
  | last line hline =>
    rw [List.splitOn_eq_singleton (hchars hline), List.splitOn_eq_singleton hline]
    rfl
  | cons line rest hline ih =>
    have hdecode : Utf8.decodeLossy (line ++ lineFeed :: rest)
        = Utf8.decodeLossy line ++ '\n' :: Utf8.decodeLossy rest :=
      Utf8.decodeLossy_append_ascii (by decide) line rest
    rw [hdecode, List.splitOn_append_cons_self_of_not_mem (hchars hline),
      List.splitOn_append_cons_self_of_not_mem hline, ih]
    rfl

/-- The carriage return of the ending may be dropped before decoding or after it. -/
theorem dropReturn_decodeLossy (line : Bytes) :
    Message.dropReturn (Utf8.decodeLossy line) = (text line).toList := by
  unfold text
  rw [String.toList_ofList]
  split
  next hreturn =>
    have hdecode : Utf8.decodeLossy (line.dropLast ++ [carriageReturn])
        = Utf8.decodeLossy line.dropLast ++ ['\r'] := by
      have hparts := Utf8.decodeLossy_append_ascii (b := carriageReturn) (by decide)
        line.dropLast []
      rwa [Utf8.decodeLossy_nil] at hparts
    rw [List.dropLast_append_getLast? _ hreturn] at hdecode
    rw [hdecode]
    simp [Message.dropReturn]
  next hne =>
    have hlast : (Utf8.decodeLossy line).getLast? ≠ some '\r' := fun hreturn =>
      hne (Utf8.getLast?_of_getLast?_decodeLossy (b := carriageReturn) (by decide) hreturn)
    rw [Message.dropReturn, if_neg hlast]

/-- The texts of the lines in some bytes. -/
def texts (bs : Bytes) : List (List Char) :=
  (bs.splitOn lineFeed).map fun line => (text line).toList

theorem texts_of_not_mem {line : Bytes} (h : lineFeed ∉ line) :
    texts line = [(text line).toList] := by
  rw [texts, List.splitOn_eq_singleton h, List.map_singleton]

theorem head?_texts_returns (withReturn : Bool) :
    (texts (returns withReturn)).head? = some [] := by
  have hfeed : lineFeed ∉ returns withReturn := by cases withReturn <;> decide
  rw [texts_of_not_mem hfeed, List.head?_cons]
  cases withReturn <;> simp [text, returns, Utf8.decodeLossy_nil]

theorem texts_append_cons {line : Bytes} (h : lineFeed ∉ line) (rest : Bytes) :
    texts (line ++ lineFeed :: rest) = (text line).toList :: texts rest := by
  rw [texts, List.splitOn_append_cons_self_of_not_mem h, List.map_cons]
  rfl

theorem texts_bytes_append {l : RawLine} (h : l.WellFormed) (rest : Bytes) :
    texts (l.bytes ++ rest) = Utf8.decodeLossy l.content :: texts rest := by
  have hbytes : l.bytes ++ rest = (l.content ++ returns l.withReturn) ++ lineFeed :: rest := by
    simp [RawLine.bytes, ending]
  rw [hbytes, texts_append_cons h.lineFeed_not_mem_append, h.text_eq, String.toList_ofList]

end Line

/-! ## Header lines -/

namespace Headers

/-- Add a line that is given by its bytes. -/
def addBytes (h : Headers) (line : Bytes) : Headers :=
  h.addLine (String.ofList (Utf8.decodeLossy line))

/-- A carriage return at the end of a header line is trimmed. -/
theorem addLine_append_return (h : Headers) (cs : List Char) :
    h.addLine (String.ofList (cs ++ ['\r'])) = h.addLine (String.ofList cs) := by
  unfold addLine addLine?
  rw [String.toList_ofList, String.toList_ofList]
  by_cases hmem : ':' ∈ cs
  · obtain ⟨name, value, rfl, hcolon⟩ := List.eq_append_cons_of_mem hmem
    rw [List.append_assoc, List.cons_append, cut_append hcolon, cut_append hcolon]
    simp only [trim_append_blank (show isBlank '\r' by decide)]
  · rw [cut_eq_none hmem, cut_eq_none (by simpa using hmem)]

/-- The headers of the lines in front of the first empty one, added to those read before. -/
def addLines (h : Headers) (lines : List (List Char)) : Headers :=
  (lines.takeWhile (!·.isEmpty)).foldl (fun h line => h.addLine (String.ofList line)) h

theorem addLines_of_head? {lines : List (List Char)} (hempty : lines.head? = some [])
    (h : Headers) : h.addLines lines = h := by
  obtain ⟨rest, rfl⟩ := List.head?_eq_some_iff.1 hempty
  rfl

theorem addLines_cons {line : List Char} (hne : line ≠ []) (h : Headers)
    (lines : List (List Char)) :
    h.addLines (line :: lines) = (h.addLine (String.ofList line)).addLines lines := by
  rw [addLines, List.takeWhile_cons_of_pos (by simpa using hne), List.foldl_cons]
  rfl

end Headers

namespace Message

/-! ## Heads -/

/-- The lines of a head, found in the text as they are found in the bytes. -/
theorem headLines_eq (head : Bytes) :
    headLines head = (Line.texts head).dropWhile fun line => line.all isBlank := by
  have hlines : ((Utf8.decodeLossy head).splitOn '\n').map dropReturn = Line.texts head := by
    rw [Line.splitOn_decodeLossy, List.map_map]
    exact List.map_congr_left fun line _ => Line.dropReturn_decodeLossy line
  rw [headLines, hlines]
  simp only [isEmpty_trim]

/-- No blank line begins inside a line, but one may begin with its last byte. -/
theorem splitHead_content {content rest : Bytes} (hfeed : Line.lineFeed ∉ content)
    (hreturn : content.getLast? = some Line.carriageReturn → rest.head? ≠ some Line.lineFeed) :
    splitHead (content ++ rest) = (content ++ (splitHead rest).1, (splitHead rest).2) := by
  induction content with
  | nil => rfl
  | cons b content ih =>
    have htail : splitHead (content ++ rest)
        = (content ++ (splitHead rest).1, (splitHead rest).2) := by
      refine ih (List.not_mem_of_not_mem_cons hfeed) fun hlast => hreturn ?_
      exact getLast?_of_isSuffix (List.suffix_cons _ _) hlast
    rw [List.cons_append, splitHead, htail]
    · rfl
    · rintro after rfl hafter
      cases content with
      | nil => exact hreturn rfl (by rw [← List.nil_append rest, hafter]; rfl)
      | cons c content =>
        obtain rfl := (List.cons.inj hafter).1
        exact hfeed (List.mem_cons_of_mem _ List.mem_cons_self)
    · rintro after rfl
      exact absurd List.mem_cons_self hfeed

/-- An ending that no other one follows does not end the head. -/
theorem splitHead_ending {rest : Bytes} (hfeed : ∀ after, rest ≠ Line.lineFeed :: after)
    (hreturn : ∀ after, rest ≠ Line.carriageReturn :: Line.lineFeed :: after) (withReturn : Bool) :
    splitHead (Line.ending withReturn ++ rest)
      = (Line.ending withReturn ++ (splitHead rest).1, (splitHead rest).2) := by
  have hcons : splitHead (Line.lineFeed :: rest)
      = (Line.lineFeed :: (splitHead rest).1, (splitHead rest).2) := by
    rw [splitHead]
    · rintro after ⟨⟩
    · exact fun after _ => hfeed after
  cases withReturn with
  | false => exact hcons
  | true =>
    change splitHead (Line.carriageReturn :: Line.lineFeed :: rest) = _
    rw [splitHead, hcons]
    · rfl
    · exact fun after _ hafter => hreturn after (List.cons.inj hafter).2
    · rintro after ⟨⟩

/-- The head goes on behind a line that no ending follows. -/
theorem splitHead_bytes_append {l : RawLine} (h : l.WellFormed) {rest : Bytes}
    (hfeed : ∀ after, rest ≠ Line.lineFeed :: after)
    (hreturn : ∀ after, rest ≠ Line.carriageReturn :: Line.lineFeed :: after) :
    splitHead (l.bytes ++ rest) = (l.bytes ++ (splitHead rest).1, (splitHead rest).2) := by
  have hcontent : l.content.getLast? = some Line.carriageReturn →
      (Line.ending l.withReturn ++ rest).head? ≠ some Line.lineFeed := by
    intro hlast
    cases hwith : l.withReturn with
    | false => exact absurd hlast (h.getLast?_ne hwith)
    | true => exact ne_of_beq_false rfl
  rw [RawLine.bytes, List.append_assoc, splitHead_content h.lineFeed_not_mem hcontent,
    splitHead_ending hfeed hreturn, List.append_assoc]

/-- The head ends with the line in front of the empty one, unless there is a bare line feed in front
of a carriage return. -/
theorem splitHead_stop {l : RawLine} (h : l.WellFormed) {withReturn : Bool}
    (hfound : l.withReturn = true ∨ withReturn = false) (rest : Bytes) :
    ∃ head, splitHead (l.bytes ++ (Line.ending withReturn ++ rest)) = (head, rest)
      ∧ (head = l.content ∨ head = l.content ++ Line.returns l.withReturn) := by
  obtain ⟨content, before⟩ := l
  unfold RawLine.bytes
  rw [List.append_assoc]
  cases before with
  | false =>
    obtain rfl : withReturn = false := by simpa using hfound
    have hsplit : splitHead (Line.ending false ++ (Line.ending false ++ rest)) = ([], rest) := rfl
    rw [splitHead_content h.lineFeed_not_mem fun hlast => absurd hlast (h.getLast?_ne rfl), hsplit]
    exact ⟨_, rfl, .inl (List.append_nil content)⟩
  | true =>
    rw [splitHead_content h.lineFeed_not_mem fun _ => ne_of_beq_false rfl]
    cases withReturn with
    | false => exact ⟨_, rfl, .inr rfl⟩
    | true => exact ⟨_, rfl, .inl (List.append_nil content)⟩

/-- An empty line that is not found becomes a line of the head. -/
theorem splitHead_passed {l : RawLine} (h : l.WellFormed) (hbare : l.withReturn = false)
    (rest : Bytes) :
    ∃ after, (splitHead (l.bytes ++ (Line.ending true ++ rest))).1 = l.bytes ++ after
      ∧ (Line.texts after).head? = some [] := by
  obtain ⟨content, before⟩ := l
  obtain rfl : before = false := hbare
  have hhead : (splitHead (RawLine.bytes ⟨content, false⟩ ++ (Line.ending true ++ rest))).1
      = RawLine.bytes ⟨content, false⟩ ++ (splitHead (Line.ending true ++ rest)).1 := by
    unfold RawLine.bytes
    rw [List.append_assoc, splitHead_content h.lineFeed_not_mem fun hlast =>
      absurd hlast (h.getLast?_ne rfl), List.append_assoc]
    rfl
  refine ⟨_, hhead, ?_⟩
  by_cases hreturn : ∃ after, rest = Line.carriageReturn :: Line.lineFeed :: after
  · obtain ⟨after, rfl⟩ := hreturn
    exact Line.head?_texts_returns false
  · by_cases hfeed : ∃ after, rest = Line.lineFeed :: after
    · obtain ⟨after, rfl⟩ := hfeed
      exact Line.head?_texts_returns true
    · rw [splitHead_ending (fun after heq => hfeed ⟨after, heq⟩)
        fun after heq => hreturn ⟨after, heq⟩]
      have hempty : RawLine.WellFormed ⟨[], true⟩ := ⟨List.not_mem_nil, by simp⟩
      change (Line.texts (RawLine.bytes ⟨[], true⟩ ++ _)).head? = _
      rw [Line.texts_bytes_append hempty, Utf8.decodeLossy_nil, List.head?_cons]

theorem dropReturn_cases (cs : List Char) :
    dropReturn cs = cs ∨ cs = dropReturn cs ++ ['\r'] := by
  unfold dropReturn
  split
  next hreturn => exact .inr (List.dropLast_append_getLast? _ hreturn).symm
  next => exact .inl rfl

/-! ## Layouts -/

/-- The bytes of a message, cut into lines up to the first empty one. -/
structure Layout where
  first : RawLine
  /-- The lines between the first one and the empty one. -/
  fields : List RawLine
  /-- How the empty line ends and what follows it, if there is an empty line. -/
  stop : Option (Bool × Bytes)
  deriving DecidableEq, Repr

namespace Layout

/-- What follows the lines. -/
def tail (w : Layout) : Bytes :=
  match w.stop with
  | none => []
  | some (withReturn, rest) => Line.ending withReturn ++ rest

def bytes (w : Layout) : Bytes :=
  (w.first :: w.fields).flatMap RawLine.bytes ++ w.tail

/-- The headers that the lines in front of the empty one make. -/
def headers (w : Layout) : Headers :=
  w.fields.foldl (fun h l => h.addBytes l.content) {}

/-- The line in front of the empty one. -/
def last (w : Layout) : RawLine :=
  w.fields.getLastD w.first

structure WellFormed (w : Layout) : Prop where
  first_not_blank : (Utf8.decodeLossy w.first.content).all isBlank = false
  fields_ne_nil : ∀ l ∈ w.fields, l.content ≠ []
  lines : ∀ l ∈ w.first :: w.fields, l.WellFormed

section

variable {first next : RawLine} {fields : List RawLine}

theorem bytes_last (first : RawLine) (withReturn : Bool) (rest : Bytes) :
    bytes ⟨first, [], some (withReturn, rest)⟩
      = first.bytes ++ (Line.ending withReturn ++ rest) := by
  simp [bytes, tail]

/-- The head does not end in front of a line that is not empty. -/
theorem splitHead_bytes_cons (hfirst : first.WellFormed) (hnext : next.WellFormed)
    (hne : next.content ≠ []) (stop : Option (Bool × Bytes)) :
    splitHead (bytes ⟨first, next :: fields, stop⟩)
      = (first.bytes ++ (splitHead (bytes ⟨next, fields, stop⟩)).1,
        (splitHead (bytes ⟨next, fields, stop⟩)).2) := by
  have hbytes : bytes ⟨first, next :: fields, stop⟩
      = first.bytes ++ bytes ⟨next, fields, stop⟩ := by
    simp only [bytes, tail, List.flatMap_cons, List.append_assoc]
  have hbehind : bytes ⟨next, fields, stop⟩
      = next.bytes ++ (fields.flatMap RawLine.bytes ++ tail ⟨next, fields, stop⟩) := by
    simp only [bytes, List.flatMap_cons, List.append_assoc]
  rw [hbytes, splitHead_bytes_append hfirst]
  · intro after
    rw [hbehind]
    exact (hnext.bytes_append_ne hne _ after).1
  · intro after
    rw [hbehind]
    exact (hnext.bytes_append_ne hne _ after).2

/-- What the last line leaves in the head: its text, perhaps without a carriage return, and then
nothing or an empty line. -/
theorem exists_texts_last (h : first.WellFormed) (stop : Option (Bool × Bytes)) :
    ∃ t ts, Line.texts (splitHead (bytes ⟨first, [], stop⟩)).1 = t :: ts
      ∧ (t = Utf8.decodeLossy first.content ∨ Utf8.decodeLossy first.content = t ++ ['\r'])
      ∧ (ts = [] ∨ ts.head? = some []) := by
  match stop with
  | none =>
    have hsplit : splitHead (first.bytes ++ []) = (first.bytes ++ [], []) :=
      splitHead_bytes_append h (by simp) (by simp)
    have hbytes : bytes ⟨first, [], none⟩ = first.bytes ++ [] := by simp [bytes, tail]
    rw [hbytes, hsplit, Line.texts_bytes_append h]
    exact ⟨_, _, rfl, .inl rfl, .inr (Line.head?_texts_returns false)⟩
  | some (withReturn, rest) =>
    rw [bytes_last]
    by_cases hfound : first.withReturn = true ∨ withReturn = false
    · obtain ⟨head, hsplit, hhead⟩ := splitHead_stop h hfound rest
      rw [hsplit]
      rcases hhead with rfl | rfl
      · rw [Line.texts_of_not_mem h.lineFeed_not_mem, ← Line.dropReturn_decodeLossy]
        exact ⟨_, _, rfl, dropReturn_cases _, .inl rfl⟩
      · rw [Line.texts_of_not_mem h.lineFeed_not_mem_append, h.text_eq, String.toList_ofList]
        exact ⟨_, _, rfl, .inl rfl, .inl rfl⟩
    · obtain ⟨hbare, hreturn⟩ := not_or.1 hfound
      obtain rfl : withReturn = true := by simpa using hreturn
      obtain ⟨after, hsplit, hafter⟩ := splitHead_passed h (by simpa using hbare) rest
      rw [hsplit, Line.texts_bytes_append h]
      exact ⟨_, _, rfl, .inl rfl, .inr hafter⟩

/-- The lines of the head are those in front of the empty line, whether it is found or not. -/
theorem exists_texts (hlines : ∀ l ∈ first :: fields, l.WellFormed)
    (hne : ∀ l ∈ fields, l.content ≠ []) (stop : Option (Bool × Bytes)) :
    ∃ t ts, Line.texts (splitHead (bytes ⟨first, fields, stop⟩)).1 = t :: ts
      ∧ (t = Utf8.decodeLossy first.content
        ∨ fields = [] ∧ Utf8.decodeLossy first.content = t ++ ['\r'])
      ∧ ∀ h : Headers, h.addLines ts = fields.foldl (fun h l => h.addBytes l.content) h := by
  induction fields generalizing first with
  | nil =>
    obtain ⟨t, ts, htexts, ht, hts⟩ := exists_texts_last (hlines first List.mem_cons_self) stop
    refine ⟨t, ts, htexts, ht.imp_right fun hreturn => ⟨rfl, hreturn⟩, fun h => ?_⟩
    rcases hts with rfl | hempty
    · rfl
    · exact Headers.addLines_of_head? hempty h
  | cons next fields ih =>
    have hfirst := hlines first List.mem_cons_self
    have hnext := hlines next (List.mem_cons_of_mem _ List.mem_cons_self)
    have hcontent := hne next List.mem_cons_self
    have hbehind : ∀ l ∈ next :: fields, l.WellFormed := fun l hl =>
      hlines l (List.mem_cons_of_mem _ hl)
    obtain ⟨t, ts, htexts, ht, hts⟩ := ih hbehind fun l hl => hne l (List.mem_cons_of_mem _ hl)
    have hadd (h : Headers) : h.addLine (String.ofList t) = h.addBytes next.content := by
      rcases ht with rfl | ⟨-, hreturn⟩
      · rfl
      · rw [Headers.addBytes, hreturn, Headers.addLine_append_return]
    refine ⟨_, t :: ts, ?_, .inl rfl, fun h => ?_⟩
    · rw [splitHead_bytes_cons hfirst hnext hcontent, Line.texts_bytes_append hfirst, htexts]
    · rw [List.foldl_cons, ← hadd]
      by_cases hempty : t = []
      · -- A carriage return alone, in front of the empty line, is no header line.
        have hlast : fields = [] := by
          rcases ht with rfl | ⟨hfields, -⟩
          · exact absurd hempty (Utf8.decodeLossy_ne_nil hcontent)
          · exact hfields
        rw [hlast, hempty]
        rfl
      · rw [Headers.addLines_cons hempty, hts]

end

section

variable {w : Layout} (h : w.WellFormed)

include h

/-- The body begins behind the empty line, if that line is found. -/
theorem WellFormed.splitHead_snd {withReturn : Bool} {rest : Bytes}
    (hstop : w.stop = some (withReturn, rest))
    (hfound : w.last.withReturn = true ∨ withReturn = false) : (splitHead w.bytes).2 = rest := by
  obtain ⟨first, fields, stop⟩ := w
  obtain rfl : stop = some (withReturn, rest) := hstop
  obtain ⟨-, hne, hlines⟩ := h
  dsimp only at hne hlines
  induction fields generalizing first with
  | nil =>
    obtain ⟨head, hsplit, -⟩ := splitHead_stop (hlines first List.mem_cons_self) hfound rest
    rw [bytes_last, hsplit]
  | cons next fields ih =>
    rw [splitHead_bytes_cons (hlines first List.mem_cons_self)
      (hlines next (List.mem_cons_of_mem _ List.mem_cons_self)) (hne next List.mem_cons_self)]
    have hlast : last ⟨first, next :: fields, some (withReturn, rest)⟩
        = last ⟨next, fields, some (withReturn, rest)⟩ := List.getLastD_cons
    rw [hlast] at hfound
    exact ih next hfound (fun l hl => hne l (List.mem_cons_of_mem _ hl))
      fun l hl => hlines l (List.mem_cons_of_mem _ hl)

/-- What is made of a message: its first line, the headers in front of the empty line, and a body
from what follows the head. -/
theorem WellFormed.parse_eq :
    ∃ line, (w.first.content.getLast? ≠ some Line.carriageReturn →
        line = String.ofList (Utf8.decodeLossy w.first.content))
      ∧ parse w.bytes = match w.headers.contentLength? with
        | none => .error (.parse .contentLength)
        | some length =>
          if (splitHead w.bytes).2.length < length then .error (.parse .contentLength)
          else .ok (ofParts line w.headers ((splitHead w.bytes).2.take length)) := by
  obtain ⟨t, ts, htexts, ht, hts⟩ := exists_texts h.lines h.fields_ne_nil w.stop
  have hblank : ¬t.all isBlank = true := by
    have hfirst := h.first_not_blank
    rcases ht with rfl | ⟨-, hreturn⟩
    · simpa using hfirst
    · rw [hreturn, List.all_append] at hfirst
      simpa [isBlank] using hfirst
  have hlines : headLines (splitHead w.bytes).1 = t :: ts := by
    rw [headLines_eq]
    exact (congrArg _ htexts).trans (List.dropWhile_cons_of_neg hblank)
  have hheaders : headersOfLines ts = w.headers := hts {}
  refine ⟨String.ofList t, fun hlast => ?_, ?_⟩
  · rcases ht with rfl | ⟨-, hreturn⟩
    · rfl
    · refine absurd (Utf8.getLast?_of_getLast?_decodeLossy (by decide) ?_) hlast
      rw [hreturn, List.getLast?_concat]
      rfl
  · rw [parse]
    cases hlength : w.headers.contentLength? <;> simp only [hlines, hheaders, hlength]

end

/-! ## Uniform layouts -/

/-- A layout whose lines all end in the same way. -/
def uniform (withReturn : Bool) (first : Bytes) (lines : List Bytes) (rest : Bytes) : Layout where
  first := ⟨first, withReturn⟩
  fields := lines.map fun line => ⟨line, withReturn⟩
  stop := some (withReturn, rest)

variable {withReturn : Bool} {first rest : Bytes} {lines : List Bytes}

theorem bytes_uniform :
    (uniform withReturn first lines rest).bytes
      = (first :: lines).flatMap (· ++ Line.ending withReturn)
        ++ (Line.ending withReturn ++ rest) := by
  rw [bytes, uniform, List.flatMap_cons, List.flatMap_map]
  rfl

theorem headers_uniform :
    (uniform withReturn first lines rest).headers = lines.foldl Headers.addBytes {} := by
  rw [headers, uniform, List.foldl_map]

theorem withReturn_last_uniform :
    (uniform withReturn first lines rest).last.withReturn = withReturn := by
  have hlast : (uniform withReturn first lines rest).last
      ∈ ⟨first, withReturn⟩ :: lines.map fun line => RawLine.mk line withReturn :=
    List.getLastD_mem_cons
  rcases List.mem_cons.1 hlast with hfirst | hfield
  · rw [hfirst]
  · obtain ⟨line, -, hline⟩ := List.mem_map.1 hfield
    rw [← hline]

theorem wellFormed_uniform (hblank : (Utf8.decodeLossy first).all isBlank = false)
    (hne : ∀ line ∈ lines, line ≠ [])
    (hlines : ∀ line ∈ first :: lines, RawLine.WellFormed ⟨line, withReturn⟩) :
    (uniform withReturn first lines rest).WellFormed where
  first_not_blank := hblank
  fields_ne_nil := by
    intro l hl
    obtain ⟨line, hline, rfl⟩ := List.mem_map.1 hl
    exact hne line hline
  lines := by
    intro l hl
    rcases List.mem_cons.1 hl with rfl | hl
    · exact hlines first List.mem_cons_self
    · obtain ⟨line, hline, rfl⟩ := List.mem_map.1 hl
      exact hlines line (List.mem_cons_of_mem _ hline)

/-- Where all lines end in the same way, the empty line is found. -/
theorem parse_uniform (h : (uniform withReturn first lines rest).WellFormed)
    (hfirst : first.getLast? ≠ some Line.carriageReturn) {n : Nat}
    (hlength : (lines.foldl Headers.addBytes {}).contentLength? = some n) (hle : n ≤ rest.length) :
    parse (uniform withReturn first lines rest).bytes
      = .ok (ofParts (String.ofList (Utf8.decodeLossy first)) (lines.foldl Headers.addBytes {})
        (rest.take n)) := by
  have hfound : (uniform withReturn first lines rest).last.withReturn = true
      ∨ withReturn = false := by
    rw [withReturn_last_uniform]
    cases withReturn <;> simp
  obtain ⟨line, hline, hparse⟩ := h.parse_eq
  rw [hparse, headers_uniform, hlength, h.splitHead_snd rfl hfound, hline hfirst]
  exact if_neg (Nat.not_lt.2 hle)

end Layout

/-! ## Messages -/

/-- However its lines end, a message gets the headers that stand in front of its first empty line.
The body is what follows that line, if the line is found: it ends in a line feed alone, or the line
in front of it does not. -/
theorem parse_layout {w : Layout} (h : w.WellFormed) {n : Nat}
    (hlength : w.headers.contentLength? = some n) :
    (∀ m, parse w.bytes = .ok m → m.headers = w.headers)
      ∧ ∀ withReturn rest, w.stop = some (withReturn, rest) → n ≤ rest.length →
        n = 0 ∨ w.last.withReturn = true ∨ withReturn = false →
        ∃ m, parse w.bytes = .ok m ∧ m.headers = w.headers ∧ m.body = rest.take n := by
  obtain ⟨line, -, hparse⟩ := h.parse_eq
  rw [hlength] at hparse
  dsimp only at hparse
  constructor
  · intro m hm
    rw [hparse] at hm
    split at hm
    next => cases hm
    next => rw [← Except.ok.inj hm, headers_ofParts]
  · intro withReturn rest hstop hle hfound
    rcases hfound with rfl | hfound
    · rw [if_neg (Nat.not_lt_zero _)] at hparse
      exact ⟨_, hparse, headers_ofParts _ _ _, body_ofParts _ _ _⟩
    · rw [h.splitHead_snd hstop hfound, if_neg (Nat.not_lt.2 hle)] at hparse
      exact ⟨_, hparse, headers_ofParts _ _ _, body_ofParts _ _ _⟩

/-- Lines with both endings, a carriage return that belongs to no ending, a header that is no UTF-8,
and a body that ends before the bytes do. -/
theorem parse_layout_mixed :
    let w : Layout :=
      { first := ⟨Utf8.encode "RTSP/1.0 200 OK", false⟩
        fields := [⟨Utf8.encode "Content-Length : 2\r", true⟩, ⟨[0xC3], false⟩,
          ⟨Utf8.encode "CSeq: 1", true⟩]
        stop := some (true, Utf8.encode "\r\nhi") }
    w.WellFormed ∧ w.headers.contentLength? = some 2
      ∧ ∃ m, parse w.bytes = .ok m ∧ m.headers = w.headers ∧ m.body = Utf8.encode "\r\n" := by
  intro w
  have hw : w.WellFormed :=
    { first_not_blank := by decide +kernel
      fields_ne_nil := by decide +kernel
      lines := fun l hl => ⟨by revert l; decide +kernel, by revert l; decide +kernel⟩ }
  have hlength : w.headers.contentLength? = some 2 := by decide +kernel
  obtain ⟨m, hparse, hheaders, hbody⟩ := (parse_layout hw hlength).2 true (Utf8.encode "\r\nhi") rfl
    (by decide) (.inr (.inl rfl))
  exact ⟨hw, hlength, m, hparse, hheaders, hbody.trans (by decide)⟩

/-- Behind a bare line feed, an empty line with a carriage return is not found: no body is left, or
the body is cut behind a later empty line. -/
theorem parse_layout_cut_late :
    let layout (rest : String) : Layout :=
      { first := ⟨Utf8.encode "RTSP/1.0 200 OK", false⟩
        fields := [⟨Utf8.encode "Content-Length: 2", false⟩]
        stop := some (true, Utf8.encode rest) }
    (∀ rest, (layout rest).WellFormed ∧ (layout rest).headers.contentLength? = some 2)
      ∧ parse (layout "hi").bytes = .error (.parse .contentLength)
      ∧ ∃ m, parse (layout "hi\n\nno").bytes = .ok m ∧ m.body = Utf8.encode "no" := by
  intro layout
  have hfirst : (Utf8.decodeLossy (Utf8.encode "RTSP/1.0 200 OK")).all isBlank = false := by
    decide +kernel
  have hlength : (Headers.addBytes {} (Utf8.encode "Content-Length: 2")).contentLength?
      = some 2 := by
    decide +kernel
  have hfields : ∀ l ∈ [RawLine.mk (Utf8.encode "Content-Length: 2") false], l.content ≠ [] := by
    decide
  have hlines : ∀ l ∈ [RawLine.mk (Utf8.encode "RTSP/1.0 200 OK") false,
      ⟨Utf8.encode "Content-Length: 2", false⟩], l.WellFormed := fun l hl =>
    ⟨by revert l; decide, by revert l; decide⟩
  refine ⟨fun rest => ⟨⟨hfirst, hfields, hlines⟩, hlength⟩, by decide +kernel, ?_⟩
  exact ⟨.response ⟨200, "OK", "RTSP/1.0", ⟨[("Content-Length", "2")]⟩, Utf8.encode "no", none⟩,
    by decide +kernel, rfl⟩

end Message
end Rtsp
