-- SUMMARY: A message is the same whether it is read from a stream or from a byte string.
import Rtsp.Proofs.Framing.RoundTrip
import Rtsp.Proofs.Message.Layout

/-!
# Whole messages

There are two readers of messages. `Message.parse` looks for the blank line, decodes the head in
one piece and cuts the text into lines; `Chunk.read` cuts the bytes into lines and decodes each of
them. Both find the same lines, so of a message that is laid out as such, with lines that all end in
the same way (`Message.Raw`), both make the same (`Message.parse_and_read`).
-/

namespace Rtsp

open Text

/-! ## Lines -/

namespace Line

/-- Bytes that are told from the ending behind them. -/
structure IsContent (line : Bytes) : Prop where
  lineFeed_not_mem : lineFeed ∉ line
  getLast?_ne : line.getLast? ≠ some carriageReturn

theorem isContent_nil : IsContent [] :=
  ⟨List.not_mem_nil, by simp⟩

namespace IsContent

variable {line : Bytes}

theorem wellFormed (h : IsContent line) (withReturn : Bool) :
    RawLine.WellFormed ⟨line, withReturn⟩ :=
  ⟨h.lineFeed_not_mem, fun _ => h.getLast?_ne⟩

theorem read (h : IsContent line) {withReturn : Bool}
    (hlength : (line ++ ending withReturn).length ≤ limit) (ended : Bool) (rest : Bytes) :
    Line.read ended (line ++ ending withReturn ++ rest)
      = .done (String.ofList (Utf8.decodeLossy line)) rest :=
  (h.wellFormed withReturn).read hlength ended rest

theorem text_eq (h : IsContent line) : text line = String.ofList (Utf8.decodeLossy line) := by
  simpa [returns] using (h.wellFormed false).text_eq

end IsContent

/-- Joined lines with an ending behind them are lines that each have their ending. -/
theorem intercalate_append_ending {e : Bytes} {lines : List Bytes} (h : lines ≠ []) :
    List.intercalate e lines ++ e = lines.flatMap (· ++ e) := by
  induction lines with
  | nil => exact absurd rfl h
  | cons line lines ih =>
    cases lines with
    | nil => simp
    | cons next lines =>
      rw [List.intercalate_cons_cons, List.append_assoc, ih (List.cons_ne_nil _ _)]
      rfl

end Line

/-! ## Headers -/

namespace Headers

theorem isEmpty_decode {line : Bytes} (h : line ≠ []) :
    (String.ofList (Utf8.decodeLossy line)).isEmpty = false := by
  rw [Bool.eq_false_iff, ne_eq, String.isEmpty_iff, ← String.toList_eq_nil_iff,
    String.toList_ofList]
  exact Utf8.decodeLossy_ne_nil h

/-- The empty line ends the headers, with a carriage return or without. -/
theorem read_ending (withReturn ended : Bool) (h : Headers) (rest : Bytes) :
    read ended h (Line.ending withReturn ++ rest) = .done h rest := by
  have hshort : ([] ++ Line.ending withReturn).length ≤ Line.limit := by
    cases withReturn <;> decide
  have hline := Line.isContent_nil.read hshort ended rest
  rw [Utf8.decodeLossy_nil] at hline
  exact read_of_empty hline rfl

variable {withReturn : Bool} {lines : List Bytes}

/-- From a stream, the headers are read line by line. -/
theorem read_lines (hcontent : ∀ l ∈ lines, Line.IsContent l) (hne : ∀ l ∈ lines, l ≠ [])
    (hfits : ∀ l ∈ lines, (l ++ Line.ending withReturn).length ≤ Line.limit) (ended : Bool)
    (h : Headers) (rest : Bytes) :
    read ended h (lines.flatMap (· ++ Line.ending withReturn) ++ (Line.ending withReturn ++ rest))
      = .done (lines.foldl addBytes h) rest := by
  induction lines generalizing h with
  | nil => exact read_ending withReturn ended h rest
  | cons line lines ih =>
    have hline := (hcontent line List.mem_cons_self).read (hfits line List.mem_cons_self) ended
      (lines.flatMap (· ++ Line.ending withReturn) ++ (Line.ending withReturn ++ rest))
    rw [List.flatMap_cons, List.append_assoc,
      read_of_line hline (isEmpty_decode (hne line List.mem_cons_self)),
      ih (fun l hl => hcontent l (List.mem_cons_of_mem _ hl))
        (fun l hl => hne l (List.mem_cons_of_mem _ hl))
        (fun l hl => hfits l (List.mem_cons_of_mem _ hl))]
    rfl

end Headers

/-! ## Messages -/

namespace Message

/-- A message as its bytes are laid out. All of its lines end in the same way. -/
structure Raw where
  withReturn : Bool
  first : Bytes
  lines : List Bytes
  body : Bytes
  deriving DecidableEq, Repr

namespace Raw

def bytes (w : Raw) : Bytes :=
  List.intercalate (Line.ending w.withReturn) (w.first :: w.lines)
    ++ Line.ending w.withReturn ++ Line.ending w.withReturn ++ w.body

/-- The headers that the lines behind the first make. -/
def headers (w : Raw) : Headers :=
  w.lines.foldl Headers.addBytes {}

def message (w : Raw) : Message :=
  .ofParts (String.ofList (Utf8.decodeLossy w.first)) w.headers w.body

/-- The lines hold any bytes, but none that would end them, and each fits the limit of a line. The
first is not blank and begins no binary frame, the others are not empty, and the body has the
length that the headers declare. -/
structure WellFormed (w : Raw) : Prop where
  first_not_blank : (Utf8.decodeLossy w.first).all isBlank = false
  head?_first : w.first.head? ≠ some Interleaved.marker
  lines_ne_nil : ∀ l ∈ w.lines, l ≠ []
  content : ∀ l ∈ w.first :: w.lines, Line.IsContent l
  fits : ∀ l ∈ w.first :: w.lines, (l ++ Line.ending w.withReturn).length ≤ Line.limit
  declared : w.headers.contentLength? = some w.body.length
  body_le : w.body.length ≤ Chunk.bodyLimit

variable {w : Raw} (h : w.WellFormed) (after : Bytes)

include h

theorem WellFormed.parse_bytes : parse (w.bytes ++ after) = .ok w.message := by
  have hbytes : w.bytes ++ after
      = (Layout.uniform w.withReturn w.first w.lines (w.body ++ after)).bytes := by
    rw [Layout.bytes_uniform, bytes, Line.intercalate_append_ending (List.cons_ne_nil _ _)]
    simp only [List.append_assoc]
  have hlayout : (Layout.uniform w.withReturn w.first w.lines (w.body ++ after)).WellFormed :=
    Layout.wellFormed_uniform h.first_not_blank h.lines_ne_nil fun l hl =>
      (h.content l hl).wellFormed w.withReturn
  have hfirst := (h.content w.first List.mem_cons_self).getLast?_ne
  rw [hbytes, Layout.parse_uniform hlayout hfirst h.declared (by simp), List.take_left]
  rfl

theorem WellFormed.read_bytes (ended : Bool) :
    Chunk.read ended (w.bytes ++ after) = .chunk (.message w.message) after := by
  have hbytes : w.bytes ++ after
      = w.first ++ Line.ending w.withReturn
        ++ (w.lines.flatMap (· ++ Line.ending w.withReturn)
          ++ (Line.ending w.withReturn ++ (w.body ++ after))) := by
    rw [bytes, Line.intercalate_append_ending (List.cons_ne_nil _ _), List.flatMap_cons]
    simp only [List.append_assoc]
  have hne : w.first ≠ [] := by
    intro hnil
    have hblank := h.first_not_blank
    rw [hnil, Utf8.decodeLossy_nil] at hblank
    cases hblank
  have hmarker : (w.bytes ++ after).head? ≠ some Interleaved.marker := by
    obtain ⟨b, first, hfirst⟩ := List.exists_cons_of_ne_nil hne
    have hhead := h.head?_first
    rw [hbytes, hfirst]
    rwa [hfirst] at hhead
  have hline := (h.content _ List.mem_cons_self).read (h.fits _ List.mem_cons_self) ended
    (w.lines.flatMap (· ++ Line.ending w.withReturn)
      ++ (Line.ending w.withReturn ++ (w.body ++ after)))
  have hheaders := Headers.read_lines (fun l hl => h.content l (List.mem_cons_of_mem _ hl))
    h.lines_ne_nil (fun l hl => h.fits l (List.mem_cons_of_mem _ hl)) ended {} (w.body ++ after)
  have hbody : Reading.exactly ended (w.headers.contentLength?.getD 0) (w.body ++ after)
      = .done w.body after := by
    rw [h.declared]
    exact Reading.exactly_append ended w.body after
  rw [← hbytes] at hline
  refine Chunk.read_message hmarker hline ?_ hheaders hbody ?_
  · rw [String.toList_ofList]
    exact h.first_not_blank
  · rw [h.declared]
    exact h.body_le

end Raw

/-- Whatever follows a message, both readers get the same from its bytes, and the reader of the
stream uses no other bytes. -/
theorem parse_and_read {w : Raw} (h : w.WellFormed) (after : Bytes) (ended : Bool) :
    parse (w.bytes ++ after) = .ok w.message
      ∧ Chunk.read ended (w.bytes ++ after) = .chunk (.message w.message) after :=
  ⟨h.parse_bytes after, h.read_bytes after ended⟩

/-- A start line and a header line that are no UTF-8, a line that is no header, a header that stands
there twice, a body that begins like a binary frame, and a blank line behind the message. -/
theorem parse_and_read_malformed :
    let w : Raw :=
      { withReturn := false
        first := Utf8.encode "PLAY rtsp://h/" ++ 0xFF :: Utf8.encode " RTSP/1.0"
        lines := [Utf8.encode "CSeq: 1", [0xC3], 0xC3 :: Utf8.encode ": v", Utf8.encode "cseq: 2",
          Utf8.encode "Content-Length: 2"]
        body := [0x24, 0x0A] }
    w.WellFormed
      ∧ (parse (w.bytes ++ [0x0A]) = .ok w.message
        ∧ Chunk.read false (w.bytes ++ [0x0A]) = .chunk (.message w.message) [0x0A]) := by
  intro w
  have hw : w.WellFormed :=
    { first_not_blank := by decide +kernel
      head?_first := by decide +kernel
      lines_ne_nil := by decide +kernel
      content := fun l hl => ⟨by revert l; decide +kernel, by revert l; decide +kernel⟩
      fits := by decide +kernel
      declared := by decide +kernel
      body_le := by decide +kernel }
  exact ⟨hw, parse_and_read hw [0x0A] false⟩

end Message
end Rtsp
