-- SUMMARY: The reader of a connection gets back every unit that was written to it.
import Rtsp.Proofs.Framing.Line
import Rtsp.Proofs.Framing.Run
import Rtsp.Proofs.Message.Headers
import Rtsp.Proofs.Message.StartLine

/-!
# Stream round trip

What one side writes, the other side reads. A stream is a list of items: units, and blank lines
anywhere between them. Each reader takes exactly the bytes of what it reads, whatever they are and
whatever follows them (`Item.run_append`), so reading a whole stream gives its units in order and
then the end.
-/

namespace Rtsp

open Text

/-! ## Headers -/

/-- The lines of fields with distinct names, and the empty line behind them, are read as these
fields, behind those that were read before. -/
theorem Headers.read_encode {fields before : List (String × String)}
    (hfield : ∀ e ∈ fields, IsField e) (hfits : ∀ e ∈ fields, (encodeEntry e).length ≤ Line.limit)
    (hdistinct : Distinct (before ++ fields)) (ended : Bool) (rest : Bytes) :
    Headers.read ended ⟨before⟩ (fields.flatMap encodeEntry ++ (Utf8.encode "\r\n" ++ rest))
      = .done ⟨before ++ fields⟩ rest := by
  induction fields generalizing before with
  | nil =>
    have hl : Line.read ended (Utf8.encode "\r\n" ++ rest) = .done "" rest :=
      Line.read_encode (s := "") (by simp) (by decide) ended rest
    rw [List.flatMap_nil, List.nil_append, List.append_nil, Headers.read_of_empty hl rfl]
  | cons e fields ih =>
    have he := hfield e List.mem_cons_self
    have hl := Line.read_encode (lineFeed_not_mem_fieldLine he) (hfits e List.mem_cons_self) ended
      (fields.flatMap encodeEntry ++ (Utf8.encode "\r\n" ++ rest))
    rw [← encodeEntry_eq] at hl
    rw [List.flatMap_cons, List.append_assoc, Headers.read_of_line hl (fieldLine_ne_empty e),
      addLine_fieldLine he, set_of_distinct hdistinct]
    have hdistinct' : Distinct ((before ++ [e]) ++ fields) := by simpa using hdistinct
    have hih := ih (fun f hf => hfield f (List.mem_cons_of_mem _ hf))
      (fun f hf => hfits f (List.mem_cons_of_mem _ hf)) hdistinct'
    simpa using hih

theorem Headers.WellFormed.read_received {h : Headers} (hw : h.WellFormed) {body : Bytes}
    (hb : body.length ≤ Chunk.bodyLimit) (ended : Bool) (rest : Bytes) :
    Headers.read ended {} ((h.received body).entries.flatMap encodeEntry
        ++ (Utf8.encode "\r\n" ++ rest))
      = .done (h.received body) rest := by
  have hdistinct : Distinct ([] ++ (h.received body).entries) := distinct_received hw.distinct body
  exact Headers.read_encode (fun _ he => isField_received hw.fields he)
    (fun _ he => hw.fits_received hb he) hdistinct ended rest

/-! ## Messages -/

namespace Message

/-- A message that is read as what it is: so are its start line and its headers, its lines fit
into lines, and its body is not too long. -/
structure WellFormed (m : Message) : Prop where
  startLine : m.startLine.WellFormed
  headers : m.headers.WellFormed
  fits : (Utf8.encode (m.startLine.text ++ "\r\n")).length ≤ Line.limit
  body_le : m.body.length ≤ Chunk.bodyLimit

/-- A message as its reader sees it: a method is the one that its token names (see
`Method.ofToken_token`), the body has its length declared behind the other headers, and no response
has been matched to a request yet. -/
def received : Message → Message
  | request r =>
    request { r with method := .ofToken r.method.token, headers := r.headers.received r.body }
  | response r => response { r with headers := r.headers.received r.body, answers := none }
  | unknown u => unknown { u with headers := u.headers.received u.body }

theorem ofParts_received {m : Message} (h : m.WellFormed) :
    ofParts m.startLine.text (m.headers.received m.body) m.body = m.received := by
  have hread := StartLine.read_text h.startLine
  rw [ofParts, hread]
  cases m <;> rfl

end Message

/-! ## Units -/

namespace Interleaved

theorem eq_of_encode {f : Interleaved} {wire : Bytes} (h : f.encode = .ok wire) :
    f.payload.length ≤ 65535
      ∧ wire = marker :: f.channel :: (be16 (UInt16.ofNat f.payload.length) ++ f.payload) := by
  by_cases hfits : f.payload.length ≤ 65535
  · rw [encode, if_pos hfits] at h
    exact ⟨hfits, (Except.ok.inj h).symm⟩
  · rw [encode, if_neg hfits] at h
    cases h

theorem read_encode {f : Interleaved} (h : f.payload.length ≤ 65535) (ended : Bool)
    (rest : Bytes) :
    read ended (f.channel :: (be16 (UInt16.ofNat f.payload.length) ++ f.payload ++ rest))
      = .done f rest := by
  simp only [be16, List.cons_append, List.nil_append, read]
  rw [toNat_ofBe16_be16 h, Reading.exactly_append]

end Interleaved

namespace Chunk

/-- A unit that is read as what it is. -/
def WellFormed : Chunk → Prop
  | message m => m.WellFormed
  | data f => f.payload.length ≤ 65535

/-- A unit as its reader sees it. -/
def received : Chunk → Chunk
  | message m => message m.received
  | data f => data f

/-- A message is read from its first line, the headers behind it, and its body. -/
theorem read_message {ended : Bool} {input r₁ r₂ r₃ : Bytes} {line : String} {headers : Headers}
    {body : Bytes} (hmarker : input.head? ≠ some Interleaved.marker)
    (hline : Line.read ended input = .done line r₁)
    (hblank : line.toList.all isBlank = false)
    (hheaders : Headers.read ended {} r₁ = .done headers r₂)
    (hbody : Reading.exactly ended (headers.contentLength?.getD 0) r₂ = .done body r₃)
    (hlength : headers.contentLength?.getD 0 ≤ bodyLimit) :
    read ended input = .chunk (.message (.ofParts line headers body)) r₃ := by
  cases input with
  | nil => exact absurd (Line.read_length_lt hline) (Nat.not_lt_zero _)
  | cons first after =>
    have hfirst : first ≠ Interleaved.marker := by simpa using hmarker
    rw [read, if_neg hfirst]
    split
    next hl => cases hl.symm.trans hline
    next hl => cases hl.symm.trans hline
    next line' r₁' hl =>
      obtain ⟨rfl, rfl⟩ := Reading.done.inj (hl.symm.trans hline)
      rw [if_neg (by simp [hblank])]
      split
      next hh => cases hh.symm.trans hheaders
      next hh => cases hh.symm.trans hheaders
      next headers' r₂' hh =>
        obtain ⟨rfl, rfl⟩ := Reading.done.inj (hh.symm.trans hheaders)
        dsimp only
        split
        next hb => cases hb.symm.trans hbody
        next hb => cases hb.symm.trans hbody
        next body' r₃' hb =>
          obtain ⟨rfl, rfl⟩ := Reading.done.inj (hb.symm.trans hbody)
          rw [if_pos hlength]

/-- Nothing is read from a blank line. -/
theorem read_blank {ended : Bool} {input rest : Bytes} {line : String}
    (hmarker : input.head? ≠ some Interleaved.marker)
    (hline : Line.read ended input = .done line rest) (hblank : line.toList.all isBlank) :
    read ended input = read ended rest := by
  cases input with
  | nil => exact absurd (Line.read_length_lt hline) (Nat.not_lt_zero _)
  | cons first after =>
    have hfirst : first ≠ Interleaved.marker := by simpa using hmarker
    rw [read, if_neg hfirst]
    split
    next hl => cases hl.symm.trans hline
    next hl => cases hl.symm.trans hline
    next line' rest' hl =>
      obtain ⟨rfl, rfl⟩ := Reading.done.inj (hl.symm.trans hline)
      rw [if_pos hblank]

theorem head?_encode_ne_marker {s : String} (h : s.toList.head? ≠ some '$') (hs : s.toList ≠ [])
    (rest : Bytes) : (Utf8.encode s ++ rest).head? ≠ some Interleaved.marker := fun hmarker =>
  h (Utf8.head?_of_head?_encode (by decide) hs hmarker)

/-- A well-formed message is read up to its last byte. -/
theorem read_encode_message {m : Message} (h : m.WellFormed) (ended : Bool) (rest : Bytes) :
    read ended (m.encode ++ rest) = .chunk (.message m.received) rest := by
  have hbytes : m.encode ++ rest
      = Utf8.encode (m.startLine.text ++ "\r\n")
        ++ ((m.headers.received m.body).entries.flatMap Headers.encodeEntry
          ++ (Utf8.encode "\r\n" ++ (m.body ++ rest))) := by
    simp [Message.encode, encodeParts, Headers.encodeRest_eq]
  obtain ⟨c, hc, hblank⟩ := StartLine.exists_not_blank_text h.startLine
  have hall : m.startLine.text.toList.all isBlank = false :=
    List.all_eq_false.2 ⟨c, hc, by simp [hblank]⟩
  have hmarker : (m.encode ++ rest).head? ≠ some Interleaved.marker := by
    rw [hbytes, Utf8.encode_append, List.append_assoc]
    exact head?_encode_ne_marker (StartLine.head?_text_ne_dollar h.startLine)
      (List.ne_nil_of_mem hc) _
  have hline := Line.read_encode (StartLine.lineFeed_not_mem_text h.startLine) h.fits ended
    ((m.headers.received m.body).entries.flatMap Headers.encodeEntry
      ++ (Utf8.encode "\r\n" ++ (m.body ++ rest)))
  have hheaders := h.headers.read_received h.body_le ended (m.body ++ rest)
  have hlength := Headers.contentLength?_received m.headers
    (Nat.lt_of_le_of_lt h.body_le (by decide))
  have hbody : Reading.exactly ended ((m.headers.received m.body).contentLength?.getD 0)
      (m.body ++ rest) = .done m.body rest := by
    rw [hlength]
    exact Reading.exactly_append ended m.body rest
  rw [← hbytes] at hline
  rw [read_message hmarker hline hall hheaders hbody (by rw [hlength]; exact h.body_le),
    Message.ofParts_received h]

theorem read_encode_data {f : Interleaved} (h : f.payload.length ≤ 65535) (ended : Bool)
    (rest : Bytes) :
    read ended (Interleaved.marker :: f.channel ::
        (be16 (UInt16.ofNat f.payload.length) ++ f.payload ++ rest))
      = .chunk (.data f) rest := by
  rw [read, if_pos rfl, Interleaved.read_encode h]

/-- A well-formed unit has a wire form, and is read up to its last byte. -/
theorem read_encode {c : Chunk} (h : c.WellFormed) (ended : Bool) :
    ∃ wire, c.encode = .ok wire ∧ ∀ rest, read ended (wire ++ rest) = .chunk c.received rest := by
  cases c with
  | message m => exact ⟨m.encode, rfl, read_encode_message h ended⟩
  | data f => exact ⟨_, if_pos h, read_encode_data h ended⟩

end Chunk

/-! ## Streams -/

/-- What stands on a stream: a unit, or a line of white space that means nothing. -/
inductive Item where
  | unit (c : Chunk)
  | blank (line : String)
  deriving DecidableEq, Repr

namespace Item

def WellFormed : Item → Prop
  | unit c => c.WellFormed
  | blank line =>
    (∀ c ∈ line.toList, isBlank c ∧ c ≠ '\n') ∧ (Utf8.encode line).length < Line.limit

def encode : Item → Except Error Bytes
  | unit c => c.encode
  | blank line => .ok (Utf8.encode line ++ [Line.lineFeed])

/-- The units that the reader finds in an item. -/
def received : Item → List Chunk
  | unit c => [c.received]
  | blank _ => []

theorem read_blank {line : String} (hblank : ∀ c ∈ line.toList, isBlank c ∧ c ≠ '\n')
    (hlength : (Utf8.encode line).length < Line.limit) (ended : Bool) (rest : Bytes) :
    Chunk.read ended (Utf8.encode line ++ Line.lineFeed :: rest) = Chunk.read ended rest := by
  have hfeed : '\n' ∉ line.toList := fun hmem => (hblank _ hmem).2 rfl
  have hline := Line.read_append (Line.lineFeed_not_mem_encode hfeed) hlength ended rest
  refine Chunk.read_blank ?_ hline ?_
  · intro hmarker
    cases hcs : line.toList with
    | nil => simp [Utf8.encode, hcs, Line.lineFeed, Interleaved.marker] at hmarker
    | cons c cs =>
      have hne : line.toList ≠ [] := by simp [hcs]
      have hdollar := Utf8.head?_of_head?_encode (by decide) hne hmarker
      have hmem := (hblank _ (List.mem_of_head? hdollar)).1
      exact absurd hmem (by decide)
  · refine List.all_eq_true.2 fun c hc => (hblank c ?_).1
    exact Line.mem_of_mem_text hc

/-- A well-formed item has a wire form, and a run over it and more goes on behind its last byte. -/
theorem run_append {i : Item} (h : i.WellFormed) :
    ∃ wire, i.encode = .ok wire ∧ ∀ rest, (Chunk.run true rest).ending ≠ .starved →
      Chunk.run true (wire ++ rest)
        = { Chunk.run true rest with chunks := i.received ++ (Chunk.run true rest).chunks } := by
  cases i with
  | unit c =>
    obtain ⟨wire, hwire, hread⟩ := Chunk.read_encode h true
    exact ⟨wire, hwire, fun rest _ => Chunk.run_of_chunk (hread rest)⟩
  | blank line =>
    refine ⟨_, rfl, fun rest hrest => ?_⟩
    rw [List.append_assoc, List.singleton_append]
    exact Chunk.run_of_read_eq (read_blank h.1 h.2 true rest) hrest

/-- Reading a stream of well-formed items gives its units in order, and then the end. -/
theorem run_mapM_encode (items : List Item) (h : ∀ i ∈ items, i.WellFormed) :
    ∃ wires, items.mapM encode = .ok wires
      ∧ Chunk.run true wires.flatten = ⟨items.flatMap received, .finished, []⟩ := by
  induction items with
  | nil => exact ⟨[], rfl, Chunk.run_of_finished (by rw [List.flatten_nil, Chunk.read]; rfl)⟩
  | cons i items ih =>
    obtain ⟨wire, hwire, hrun⟩ := run_append (h i List.mem_cons_self)
    obtain ⟨wires, hwires, hruns⟩ := ih fun j hj => h j (List.mem_cons_of_mem _ hj)
    refine ⟨wire :: wires, ?_, ?_⟩
    · rw [List.mapM_cons, hwire, hwires]
      rfl
    · rw [List.flatten_cons, hrun _ (by simp [hruns]), hruns, List.flatMap_cons]

theorem run_mapM_encode_mixed :
    let request (headers : List (String × String)) : Message :=
      .request ⟨.setParameter, "*", "RTSP/1.0", ⟨headers⟩, [36, 13, 10, 13, 10]⟩
    let items : List Item :=
      [blank " \t", unit (.message (request [("cseq", "1"), ("content-length", "9")])),
        unit (.data ⟨1, [13, 10, 36]⟩)]
    (∀ i ∈ items, i.WellFormed)
      ∧ ∃ wires, items.mapM encode = .ok wires
        ∧ Chunk.run true wires.flatten
          = ⟨[.message (request [("cseq", "1"), ("Content-Length", "5")]), .data ⟨1, [13, 10, 36]⟩],
            .finished, []⟩ := by
  intro request items
  have hfields : ∀ e ∈ [("cseq", "1"), ("content-length", "9")], Headers.IsField e := by
    rintro e (_ | ⟨_, _ | ⟨_, ⟨⟩⟩⟩) <;>
      exact ⟨by decide, by decide, by decide, by decide, by decide, by decide⟩
  have hrequest : (request [("cseq", "1"), ("content-length", "9")]).WellFormed := {
    startLine := ⟨⟨by decide, by simp [Method.token, isBlank]⟩, by decide,
      ⟨by decide, by simp [isBlank]⟩, by decide⟩
    headers := ⟨hfields, by unfold Headers.Distinct; decide, by decide⟩
    fits := by decide
    body_le := by decide }
  have hdata : (Chunk.data ⟨1, [13, 10, 36]⟩).WellFormed := Nat.le_of_ble_eq_true rfl
  have hitems : ∀ i ∈ items, i.WellFormed := by
    simp only [items, List.forall_mem_cons, List.not_mem_nil, false_implies, implies_true, and_true]
    exact ⟨⟨by simp [isBlank], by decide⟩, hrequest, hdata⟩
  exact ⟨hitems, run_mapM_encode items hitems⟩

end Item
end Rtsp
