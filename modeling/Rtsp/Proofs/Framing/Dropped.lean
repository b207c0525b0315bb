-- SUMMARY: What the reader of a stream drops leaves no trace in what follows.
import Rtsp.Proofs.Framing.Units
import Rtsp.Proofs.Framing.WholeMessage

/-!
# Dropped bytes

Two things are read and not delivered: a message whose declared body is too long, and a line that is
too long. Behind a skipped message the stream is read as if it began there (`Chunk.run_skipped`).

A line that is too long is dropped by the reader of lines, which then reads the next line. Inside a
head, and in front of text, the stream is read as if the line had never been there
(`Chunk.run_dropped`). In front of a binary frame it is not: that the next unit is text has been
decided by the first byte of the dropped line, so the frame is read as text
(`Chunk.run_dropped_frame`).
-/

namespace Rtsp

open Text

/-- A line that is dropped. -/
structure Line.IsOverlong (line : Bytes) : Prop where
  lineFeed_not_mem : lineFeed ∉ line
  limit_le : limit ≤ line.length

theorem Line.IsOverlong.ne_nil {line : Bytes} (h : IsOverlong line) : line ≠ [] := by
  rintro rfl
  exact absurd h.limit_le (by decide)

theorem Line.IsOverlong.read {line : Bytes} (h : IsOverlong line) (ended : Bool) (rest : Bytes) :
    Line.read ended (line ++ lineFeed :: rest) = Line.read ended rest :=
  read_cons_of_long h.lineFeed_not_mem h.limit_le ended rest

theorem Line.isOverlong_replicate {b : UInt8} (h : b ≠ lineFeed) :
    IsOverlong (List.replicate limit b) where
  lineFeed_not_mem hmem := h (List.eq_of_mem_replicate hmem).symm
  limit_le := by rw [List.length_replicate]

/-! ## Heads -/

/-- The lines in front of the empty line of a message, without their line feeds. -/
structure Head where
  first : Bytes
  fields : List Bytes
  deriving DecidableEq, Repr

namespace Head

def fieldBytes (h : Head) : Bytes :=
  h.fields.flatMap (· ++ [Line.lineFeed])

def bytes (h : Head) : Bytes :=
  h.first ++ Line.lineFeed :: h.fieldBytes

/-- The headers that the lines behind the first make. -/
def headers (h : Head) : Headers :=
  h.fields.foldl (fun headers line => headers.addLine (Line.text line)) {}

/-- Every line fits its limit. A carriage return may stand at the end of some and not of others. The
first is not blank and begins no binary frame, and none of the others ends the head. -/
structure WellFormed (h : Head) : Prop where
  lineFeed_not_mem : ∀ l ∈ h.first :: h.fields, Line.lineFeed ∉ l
  fits : ∀ l ∈ h.first :: h.fields, l.length < Line.limit
  first_not_blank : (Line.text h.first).toList.all isBlank = false
  head?_first : h.first.head? ≠ some Interleaved.marker
  fields_nonempty : ∀ l ∈ h.fields, (Line.text l).isEmpty = false

end Head

/-- The lines of a head are read one by one, whatever follows them. -/
theorem Headers.read_fields {fields : List Bytes} (hfeed : ∀ l ∈ fields, Line.lineFeed ∉ l)
    (hfits : ∀ l ∈ fields, l.length < Line.limit)
    (hne : ∀ l ∈ fields, (Line.text l).isEmpty = false) (ended : Bool) (h : Headers)
    (rest : Bytes) :
    read ended h (fields.flatMap (· ++ [Line.lineFeed]) ++ rest)
      = read ended (fields.foldl (fun headers line => headers.addLine (Line.text line)) h)
        rest := by
  induction fields generalizing h with
  | nil => rfl
  | cons line fields ih =>
    have hline := Line.read_append (hfeed line List.mem_cons_self)
      (hfits line List.mem_cons_self) ended
      (fields.flatMap (· ++ [Line.lineFeed]) ++ rest)
    have hbytes : (line :: fields).flatMap (· ++ [Line.lineFeed]) ++ rest
        = line ++ Line.lineFeed :: (fields.flatMap (· ++ [Line.lineFeed]) ++ rest) := by simp
    rw [hbytes, read_of_line hline (hne line List.mem_cons_self)]
    apply ih
    · exact fun l hl => hfeed l (List.mem_cons_of_mem _ hl)
    · exact fun l hl => hfits l (List.mem_cons_of_mem _ hl)
    · exact fun l hl => hne l (List.mem_cons_of_mem _ hl)

namespace Head.WellFormed

variable {h : Head} (hw : h.WellFormed) (ended : Bool) (rest : Bytes)

include hw

theorem read_first :
    Line.read ended (h.bytes ++ rest) = .done (Line.text h.first) (h.fieldBytes ++ rest) := by
  have hbytes : h.bytes ++ rest = h.first ++ Line.lineFeed :: (h.fieldBytes ++ rest) := by
    simp [bytes]
  rw [hbytes]
  apply Line.read_append
  · exact hw.lineFeed_not_mem _ List.mem_cons_self
  · exact hw.fits _ List.mem_cons_self

theorem read_fields :
    Headers.read ended {} (h.fieldBytes ++ rest) = Headers.read ended h.headers rest := by
  apply Headers.read_fields
  · exact fun l hl => hw.lineFeed_not_mem l (List.mem_cons_of_mem _ hl)
  · exact fun l hl => hw.fits l (List.mem_cons_of_mem _ hl)
  · exact hw.fields_nonempty

theorem head?_bytes : (h.bytes ++ rest).head? ≠ some Interleaved.marker := by
  have hne : h.first ≠ [] := by
    intro hnil
    have hblank := hw.first_not_blank
    rw [hnil, Line.isContent_nil.text_eq, Utf8.decodeLossy_nil] at hblank
    cases hblank
  obtain ⟨b, first, hfirst⟩ := List.exists_cons_of_ne_nil hne
  have hhead := hw.head?_first
  rw [bytes, hfirst]
  rwa [hfirst] at hhead

end Head.WellFormed

namespace Chunk

/-! ## Skipped messages -/

section

variable {h : Head} (hw : h.WellFormed) (withReturn : Bool) {n : Nat}
  (hlength : h.headers.contentLength? = some n) (hlimit : bodyLimit < n)

include hw hlength hlimit

/-- A message whose body is too long is a unit, but none that is delivered. -/
theorem isUnit_skipped (ended : Bool) {body : Bytes} (hbody : body.length = n) (after : Bytes) :
    ∃ start, IsUnit ended (h.bytes ++ (Line.ending withReturn ++ (body ++ after)))
      ⟨start, after, none⟩ := by
  have hhead : Headers.read ended {} (h.fieldBytes ++ (Line.ending withReturn ++ (body ++ after)))
      = .done h.headers (body ++ after) := by
    rw [hw.read_fields, Headers.read_ending]
  have hrest : Reading.exactly ended (h.headers.contentLength?.getD 0) (body ++ after)
      = .done body after := by
    rw [hlength, Option.getD_some, ← hbody]
    exact Reading.exactly_append ended body after
  have hunit := IsUnit.message (hw.head?_bytes _) (hw.read_first ended _) hw.first_not_blank
    hhead hrest
  rw [if_neg (by rw [hlength]; exact Nat.not_le.2 hlimit)] at hunit
  exact ⟨_, hunit⟩

theorem read_skipped (ended : Bool) {body : Bytes} (hbody : body.length = n) (after : Bytes) :
    read ended (h.bytes ++ (Line.ending withReturn ++ (body ++ after))) = read ended after := by
  obtain ⟨start, hunit⟩ := isUnit_skipped hw withReturn hlength hlimit ended hbody after
  rw [read_eq_front, front_of_isUnit hunit]

/-- A skipped message that the end of the stream cuts off is a failure. -/
theorem read_skipped_short {body : Bytes} (hbody : body.length < n) :
    read true (h.bytes ++ (Line.ending withReturn ++ body)) = .failed .endedInMessage := by
  have hhead : Headers.read true {} (h.fieldBytes ++ (Line.ending withReturn ++ body))
      = .done h.headers body := by
    rw [hw.read_fields, Headers.read_ending]
  have hrest : Reading.exactly true (h.headers.contentLength?.getD 0) body = .ended := by
    rw [hlength, Option.getD_some, Reading.exactly, if_neg]
    · rfl
    · rw [List.length_take]
      omega
  have hover : ¬h.headers.contentLength?.getD 0 ≤ bodyLimit := by
    rw [hlength]
    exact Nat.not_le.2 hlimit
  rw [read_eq_front, front, if_neg (hw.head?_bytes _), hw.read_first]
  simp only [hw.first_not_blank, hhead, hrest, if_neg hover, Bool.false_eq_true, if_false]

end

/-- The stream behind a skipped message is read as if the message had never been there, whatever its
body looks like. Where the body is cut off, nothing is delivered. -/
theorem run_skipped {h : Head} (hw : h.WellFormed) (withReturn : Bool) {n : Nat}
    (hlength : h.headers.contentLength? = some n) (hlimit : bodyLimit < n) :
    (∀ body after : Bytes, body.length = n →
        run true (h.bytes ++ Line.ending withReturn ++ body ++ after) = run true after)
      ∧ ∀ body : Bytes, body.length < n →
        run true (h.bytes ++ Line.ending withReturn ++ body)
          = ⟨[], .failed .endedInMessage, []⟩ := by
  constructor
  · intro body after hbody
    have hread := read_skipped hw withReturn hlength hlimit true hbody after
    rw [List.append_assoc, List.append_assoc]
    exact run_of_read_eq hread (ending_run_true after)
  · intro body hbody
    rw [List.append_assoc]
    exact run_of_failed (read_skipped_short hw withReturn hlength hlimit hbody)

/-- The lines end differently, the body reads like binary frames and messages, and a binary frame
follows it. A declared length that is far too long is not waited for. -/
theorem run_skipped_disguised :
    let h : Head := ⟨Utf8.encode "RTSP/1.0 200 OK\r",
      [Utf8.encode "CSeq: 1", Utf8.encode "Content-Length: 4194311\r"]⟩
    let body := (List.replicate 381301 (Utf8.encode "$\nRTSP/1.0\n")).flatten
    let after : Bytes := [0x24, 0, 0, 1, 0x41]
    h.WellFormed ∧ h.headers.contentLength? = some 4194311 ∧ bodyLimit < 4194311
      ∧ body.length = 4194311
      ∧ run true (h.bytes ++ Line.ending true ++ body ++ after) = run true after
      ∧ run true (h.bytes ++ Line.ending true ++ after) = ⟨[], .failed .endedInMessage, []⟩ := by
  intro h body after
  have hw : h.WellFormed :=
    { lineFeed_not_mem := by decide +kernel
      fits := by decide +kernel
      first_not_blank := by decide +kernel
      head?_first := by decide +kernel
      fields_nonempty := by decide +kernel }
  have hdeclared : h.headers.contentLength? = some 4194311 := by decide +kernel
  have hlimit : bodyLimit < 4194311 := by decide
  have hunit : (Utf8.encode "$\nRTSP/1.0\n").length = 11 := by decide
  have hbody : body.length = 4194311 := by
    rw [List.length_flatten, List.map_replicate, List.sum_replicate_nat, hunit]
  obtain ⟨hskipped, hshort⟩ := run_skipped hw true hdeclared hlimit
  exact ⟨hw, hdeclared, hlimit, hbody, hskipped body after hbody, hshort after (by decide)⟩

/-! ## Dropped lines -/

/-- Where the first lines are the same, and what follows them is read as the same headers, the same
is read. -/
theorem read_eq_of_head {ended : Bool} {input input' r r' : Bytes} {line : String}
    (hmarker : input.head? ≠ some Interleaved.marker)
    (hmarker' : input'.head? ≠ some Interleaved.marker)
    (hfirst : Line.read ended input = .done line r)
    (hfirst' : Line.read ended input' = .done line r')
    (hhead : Headers.read ended {} r = Headers.read ended {} r')
    (hblank : line.toList.all isBlank = false) : read ended input = read ended input' := by
  rw [read_eq_front, read_eq_front ended input', front, front, if_neg hmarker, if_neg hmarker',
    hfirst, hfirst']
  simp only [hblank, hhead, Bool.false_eq_true, if_false]
  cases Headers.read ended {} r' with
  | starved => rfl
  | ended => rfl
  | done headers after =>
    dsimp only
    cases Reading.exactly ended (headers.contentLength?.getD 0) after <;> rfl

/-- In front of text, only the line that is read counts. -/
theorem read_eq_of_line {ended : Bool} {input input' : Bytes}
    (hmarker : input.head? ≠ some Interleaved.marker)
    (hmarker' : input'.head? ≠ some Interleaved.marker)
    (hline : Line.read ended input = Line.read ended input') :
    read ended input = read ended input' := by
  cases hread : Line.read ended input' with
  | starved | ended =>
    rw [read_eq_front, read_eq_front ended input', front, front, if_neg hmarker, if_neg hmarker',
      hline, hread]
  | done line rest =>
    cases hblank : line.toList.all isBlank with
    | false => exact read_eq_of_head hmarker hmarker' (hline.trans hread) hread rfl hblank
    | true =>
      rw [read_eq_front, read_eq_front ended input', front, front, if_neg hmarker,
        if_neg hmarker', hline, hread]
      simp only [hblank, if_true]

section

variable {long : Bytes} (hlong : Line.IsOverlong long)

include hlong

theorem read_dropped (hmarker : long.head? ≠ some Interleaved.marker) {rest : Bytes}
    (hrest : rest.head? ≠ some Interleaved.marker) (ended : Bool) :
    read ended (long ++ Line.lineFeed :: rest) = read ended rest :=
  read_eq_of_line (head?_append_ne hlong.ne_nil hmarker) hrest (hlong.read ended rest)

/-- Where a field may stand, a line that is too long is not seen. -/
theorem read_dropped_in_head {h : Head} (hw : h.WellFormed) (ended : Bool) (rest : Bytes) :
    read ended (h.bytes ++ (long ++ Line.lineFeed :: rest)) = read ended (h.bytes ++ rest) := by
  refine read_eq_of_head (hw.head?_bytes _) (hw.head?_bytes _) (hw.read_first ended _)
    (hw.read_first ended _) ?_ hw.first_not_blank
  rw [hw.read_fields, hw.read_fields]
  exact Headers.read_of_line_eq (hlong.read ended rest)

end

/-- A line that is too long changes nothing where text follows it. Inside a head anything may follow
it. -/
theorem run_dropped {long : Bytes} (hlong : Line.IsOverlong long) :
    (∀ rest : Bytes, long.head? ≠ some Interleaved.marker →
        rest.head? ≠ some Interleaved.marker →
        run true (long ++ Line.lineFeed :: rest) = run true rest)
      ∧ ∀ (h : Head) (rest : Bytes), h.WellFormed →
        run true (h.bytes ++ (long ++ Line.lineFeed :: rest)) = run true (h.bytes ++ rest) := by
  constructor
  · intro rest hmarker hrest
    exact run_of_read_eq (read_dropped hlong hmarker hrest true) (ending_run_true rest)
  · intro h rest hw
    exact run_of_read_eq (read_dropped_in_head hlong hw true rest) (ending_run_true _)

/-- The shortest line that is too long, in front of a blank line and of what looks like a binary
frame, and behind the last field of a head. -/
theorem run_dropped_shortest :
    let long : Bytes := List.replicate Line.limit 0x61
    let h : Head := ⟨Utf8.encode "RTSP/1.0 200 OK\r", [Utf8.encode "Content-Length: 5\r"]⟩
    let rest := Utf8.encode "\r\n$body"
    Line.IsOverlong long ∧ long.head? ≠ some Interleaved.marker
      ∧ rest.head? ≠ some Interleaved.marker ∧ h.WellFormed
      ∧ run true (long ++ Line.lineFeed :: rest) = run true rest
      ∧ run true (h.bytes ++ (long ++ Line.lineFeed :: rest)) = run true (h.bytes ++ rest) := by
  intro long h rest
  have hlong : Line.IsOverlong long := Line.isOverlong_replicate (by decide)
  have hmarker : long.head? ≠ some Interleaved.marker := by
    rw [List.head?_replicate, if_neg (by decide)]
    decide
  have hrest : rest.head? ≠ some Interleaved.marker := by decide
  have hw : h.WellFormed :=
    { lineFeed_not_mem := by decide +kernel
      fits := by decide +kernel
      first_not_blank := by decide +kernel
      head?_first := by decide +kernel
      fields_nonempty := by decide +kernel }
  obtain ⟨htext, hhead⟩ := run_dropped hlong
  exact ⟨hlong, hmarker, hrest, hw, htext rest hmarker hrest, hhead h rest hw⟩

/-! ## Frames behind a dropped line -/

theorem run_encode_data {f : Interleaved} {wire : Bytes} (hwire : f.encode = .ok wire) :
    run true wire = ⟨[.data f], .finished, []⟩ := by
  obtain ⟨hfits, rfl⟩ := Interleaved.eq_of_encode hwire
  have hread := read_encode_data hfits true []
  rw [List.append_nil] at hread
  rw [run_of_chunk hread, run_nil]

/-- The text that a binary frame is taken for begins with a dollar sign. -/
theorem not_blank_marker (after : Bytes) :
    (Line.text (Interleaved.marker :: after)).toList.all isBlank = false := by
  have hdecode (bs : Bytes) :
      (Utf8.decodeLossy (Interleaved.marker :: bs)).all isBlank = false := by
    have hfirst := Utf8.decodeLossy_append_ascii (b := Interleaved.marker) (by decide) [] bs
    rw [List.nil_append, Utf8.decodeLossy_nil, List.nil_append] at hfirst
    rw [hfirst]
    rfl
  unfold Line.text
  rw [String.toList_ofList]
  split
  next hreturn =>
    cases after with
    | nil => cases hreturn
    | cons b after => exact hdecode _
  next => exact hdecode _

/-- The frame behind a dropped line is read as text, and is lost with everything that it is taken to
be the beginning of. -/
theorem run_dropped_frame {long : Bytes} (hlong : Line.IsOverlong long)
    (hmarker : long.head? ≠ some Interleaved.marker) {f : Interleaved}
    {wire : Bytes} (hwire : f.encode = .ok wire) (hline : Line.lineFeed ∉ wire)
    (hshort : wire.length < Line.limit) :
    run true wire = ⟨[.data f], .finished, []⟩
      ∧ run true (long ++ Line.lineFeed :: wire) = ⟨[], .failed .endedInMessage, []⟩ := by
  obtain ⟨after, rfl⟩ : ∃ after, wire = Interleaved.marker :: after :=
    ⟨_, (Interleaved.eq_of_encode hwire).2⟩
  constructor
  · exact run_encode_data hwire
  · have hfirst : Line.read true (long ++ Line.lineFeed :: Interleaved.marker :: after)
        = .done (Line.text (Interleaved.marker :: after)) [] := by
      rw [hlong.read, Line.read_of_not_mem hline, if_pos]
      simpa using hshort
    have hhead : Headers.read true {} [] = .ended := Headers.read_of_ended (Line.read_nil true)
    apply run_of_failed
    rw [read_eq_front, front, if_neg (head?_append_ne hlong.ne_nil hmarker), hfirst]
    simp only [hhead, not_blank_marker, Bool.false_eq_true, if_false]

/-- A frame of one byte is lost behind the shortest line that is too long. -/
theorem run_dropped_frame_lost :
    let long : Bytes := List.replicate Line.limit 0x61
    let wire : Bytes := [0x24, 0, 0, 1, 0x41]
    run true wire = ⟨[.data ⟨0, [0x41]⟩], .finished, []⟩
      ∧ run true (long ++ Line.lineFeed :: wire) = ⟨[], .failed .endedInMessage, []⟩ := by
  intro long wire
  have hlong : Line.IsOverlong long := Line.isOverlong_replicate (by decide)
  have hmarker : long.head? ≠ some Interleaved.marker := by
    rw [List.head?_replicate, if_neg (by decide)]
    decide
  exact run_dropped_frame hlong hmarker (f := ⟨0, [0x41]⟩) rfl (by decide) (by decide)

end Chunk
end Rtsp
