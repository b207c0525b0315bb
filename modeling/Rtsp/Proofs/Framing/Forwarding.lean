-- SUMMARY: A unit that was delivered can be written again, and is delivered as the same unit.
import Rtsp.Proofs.Framing.Delivery

/-!
# Forwarding

Reading brings a unit into the form in which it is written: words of a start line are put one blank
apart, names and values of headers are trimmed, malformed bytes are replaced. What is delivered in
this form is read back as it is (`Chunk.run_encode_delivered`), as long as it is not taken for
something else (`Message.IsForwardable`). A line can become too long, for line endings and
replacement characters have more bytes than what stood in their place, and a method can begin like a
frame, for no blanks stand in front of it any more (`Chunk.run_encode_long_and_marked`).
-/

namespace Rtsp

open Text

/-! ## Start lines -/

namespace StartLine

theorem eq_request_of_readRequest? {ws : List (List Char)} {s : StartLine}
    (h : readRequest? ws = some s) :
    ∃ method uri version more, ws = method :: uri :: version :: more ∧ isVersion version
      ∧ s = request (.ofToken (String.ofList method)) (String.ofList uri)
        (String.ofList version) := by
  unfold readRequest? at h
  split at h
  next method uri version more =>
    split at h
    next hversion => exact ⟨method, uri, version, more, rfl, hversion, (Option.some.inj h).symm⟩
    next => cases h
  next => cases h

theorem eq_response_of_readResponse? {ws : List (List Char)} {s : StartLine}
    (h : readResponse? ws = some s) :
    ∃ version status code reason, ws = version :: status :: reason ∧ isVersion version
      ∧ Status.isValid code ∧ s = response (String.ofList version) code (joinWords reason) := by
  unfold readResponse? at h
  split at h
  next version status reason =>
    split at h
    next hversion =>
      obtain ⟨code, hcode, rfl⟩ := Option.map_eq_some_iff.1 h
      have hvalid := (Option.filter_eq_some_iff.1 hcode).2
      exact ⟨version, status, code, reason, rfl, hversion, hvalid, rfl⟩
    next => cases h
  next => cases h

/-- With a version in third place a line is a request line. -/
theorem not_isVersion_of_readRequest? {first second : List Char} {ws : List (List Char)}
    (h : readRequest? (first :: second :: ws) = none) : ∀ w ∈ ws.head?, isVersion w = false := by
  intro w hw
  obtain ⟨more, rfl⟩ := List.head?_eq_some_iff.1 hw
  simpa [readRequest?] using h

/-- A start line is a request line, else a response line, else it is kept as it is. -/
theorem read_cases (line : String) :
    readRequest? (words line.toList) = some (read line)
      ∨ readRequest? (words line.toList) = none
        ∧ readResponse? (words line.toList) = some (read line)
      ∨ read line = unknown line := by
  cases hrequest : readRequest? (words line.toList) with
  | some s => exact .inl (by simp only [read, hrequest])
  | none =>
    cases hresponse : readResponse? (words line.toList) with
    | some s => exact .inr (.inl ⟨rfl, by simp only [read, hrequest, hresponse, Option.getD_some]⟩)
    | none => exact .inr (.inr (by simp only [read, hrequest, hresponse, Option.getD_none]))

/-- A start line that is read is well-formed, unless it is written like a binary frame. -/
theorem wellFormed_read {line : String} (hfeed : '\n' ∉ line.toList)
    (hblank : line.toList.all isBlank = false)
    (hdollar : (read line).text.toList.head? ≠ some '$') : (read line).WellFormed := by
  have hword : ∀ w ∈ words line.toList, IsWord w := fun w hw => isWord_of_mem_words hw
  rcases read_cases line with hrequest | ⟨hnone, hresponse⟩ | hunknown
  · obtain ⟨method, uri, version, more, hws, hversion, hread⟩ := eq_request_of_readRequest? hrequest
    have hmethod : IsWord method := hword method (by simp [hws])
    have huri : IsWord uri := hword uri (by simp [hws])
    rw [hread, toList_text_request, Method.token_ofToken, String.toList_ofList, List.head?_append,
      List.head?_eq_some_head hmethod.1] at hdollar
    rw [hread]
    refine ⟨?_, ?_, ?_, ?_⟩
    · simpa using hmethod
    · simpa [List.head?_eq_some_head hmethod.1] using hdollar
    · simpa using huri
    · simpa using hversion
  · obtain ⟨version, status, code, reason, hws, hversion, hvalid, hread⟩ :=
      eq_response_of_readResponse? hresponse
    have hreason : IsReason (joinWords reason) :=
      ⟨reason, fun w hw => hword w (by simp [hws, hw]),
        not_isVersion_of_readRequest? (hws ▸ hnone), rfl⟩
    rw [hread]
    exact ⟨by simpa using hversion, hvalid, hreason⟩
  · rw [hunknown] at hdollar ⊢
    obtain ⟨c, hc, hnot⟩ := List.all_eq_false.1 hblank
    exact ⟨hunknown, hfeed, ⟨c, hc, Bool.eq_false_iff.2 hnot⟩, hdollar⟩

end StartLine

/-! ## Units -/

/-- What is written of headers is written again of what their reader gets. -/
theorem Headers.written_received (h : Headers) (body : Bytes) :
    (h.received body).written = h.written := by
  have hlength : (lengthField body).filter (!isLength ·) = [] := by
    refine List.filter_eq_nil_iff.2 fun e he => ?_
    simp [eq_of_mem_lengthField he, isLength, sameIgnoringCase]
  unfold received written
  rw [List.filter_append, hlength, List.append_nil, List.filter_filter]
  simp

theorem StartLine.received_read (line : String) : (read line).received = read line := by
  rcases read_cases line with hrequest | ⟨-, hresponse⟩ | hunknown
  · obtain ⟨method, uri, version, -, -, -, hread⟩ := eq_request_of_readRequest? hrequest
    rw [hread, received, Method.token_ofToken]
  · obtain ⟨version, status, code, reason, -, -, -, hread⟩ :=
      eq_response_of_readResponse? hresponse
    rw [hread, received]
  · rw [hunknown, received]

namespace Message

/-- A message that is not taken for something else when it is written again: the lines in front of
its body are short enough for lines, and its first byte is not that of a frame. -/
structure IsForwardable (m : Message) : Prop where
  startLine_le : (Utf8.encode (m.startLine.text ++ "\r\n")).length ≤ Line.limit
  headers_le : ∀ e ∈ m.headers.written, (Headers.encodeEntry e).length ≤ Line.limit
  head?_ne : m.encode.head? ≠ some Interleaved.marker

/-- The same message, but for the length that is declared for its body. -/
structure Same (m n : Message) : Prop where
  startLine : m.startLine = n.startLine
  headers : m.headers.written = n.headers.written
  body : m.body = n.body

theorem IsForwardable.head?_text_ne {m : Message} (h : m.IsForwardable) :
    m.startLine.text.toList.head? ≠ some '$' := by
  intro hdollar
  obtain ⟨cs, hcs⟩ := List.head?_eq_some_iff.1 hdollar
  have hbyte : String.utf8EncodeChar '$' = [Interleaved.marker] := by decide
  refine h.head?_ne ?_
  rw [encode, encodeParts, Utf8.encode_append, Utf8.encode, hcs, List.flatMap_cons, hbyte]
  rfl

theorem wellFormed_ofParts {line : String} {headers : Headers} {body : Bytes}
    (h : Chunk.AreDelivered line headers body)
    (hforward : (ofParts line headers body).IsForwardable) :
    (ofParts line headers body).WellFormed := by
  have hdollar := hforward.head?_text_ne
  have hstart := hforward.startLine_le
  have hheaders := hforward.headers_le
  rw [startLine_ofParts] at hstart hdollar
  rw [headers_ofParts] at hheaders
  refine ⟨?_, ?_, ?_, ?_⟩
  · rw [startLine_ofParts]
    exact StartLine.wellFormed_read h.lineFeed_not_mem h.not_blank hdollar
  · rw [headers_ofParts]
    exact ⟨h.readable.fields, h.readable.distinct, hheaders⟩
  · rw [startLine_ofParts]
    exact hstart
  · rw [body_ofParts]
    exact h.body_le

theorem startLine_received (m : Message) : m.received.startLine = m.startLine.received := by
  cases m <;> rfl

theorem headers_received (m : Message) : m.received.headers = m.headers.received m.body := by
  cases m <;> rfl

theorem body_received (m : Message) : m.received.body = m.body := by
  cases m <;> rfl

theorem same_received (line : String) (headers : Headers) (body : Bytes) :
    (ofParts line headers body).Same (ofParts line headers body).received where
  startLine := by rw [startLine_received, startLine_ofParts, StartLine.received_read]
  headers := by rw [headers_received, Headers.written_received]
  body := (body_received _).symm

end Message

namespace Chunk

def IsForwardable : Chunk → Prop
  | message m => m.IsForwardable
  | data _ => True

/-- The same unit, but for the length that is declared for the body of a message. -/
def Same : Chunk → Chunk → Prop
  | message m, message n => m.Same n
  | data f, data g => f = g
  | _, _ => False

theorem IsDelivered.wellFormed {c : Chunk} (h : c.IsDelivered) (hforward : c.IsForwardable) :
    c.WellFormed := by
  cases c with
  | message m =>
    obtain ⟨line, headers, body, hparts, rfl⟩ := h
    exact Message.wellFormed_ofParts hparts hforward
  | data f => exact h

theorem IsDelivered.same_received {c : Chunk} (h : c.IsDelivered) : c.Same c.received := by
  cases c with
  | message m =>
    obtain ⟨line, headers, body, -, rfl⟩ := h
    exact Message.same_received line headers body
  | data f => exact rfl

theorem IsDelivered.exists_encode {c : Chunk} (h : c.IsDelivered) :
    ∃ wire, c.encode = .ok wire := by
  cases c with
  | message m => exact ⟨m.encode, rfl⟩
  | data f => exact ⟨_, if_pos h⟩

/-- Whatever bytes arrive, each unit that is delivered can be written, and is delivered again as the
same unit if it is not taken for something else. -/
theorem run_encode_delivered {ended : Bool} {stream : Bytes} {c : Chunk}
    (h : c ∈ (run ended stream).chunks) :
    ∃ wire, c.encode = .ok wire
      ∧ (c.IsForwardable → ∃ c', run true wire = ⟨[c'], .finished, []⟩ ∧ c.Same c') := by
  have hdelivered := isDelivered_of_mem_run h
  obtain ⟨wire, hwire⟩ := hdelivered.exists_encode
  refine ⟨wire, hwire, fun hforward => ⟨c.received, ?_, hdelivered.same_received⟩⟩
  obtain ⟨wire', hwire', hread⟩ := read_encode (hdelivered.wellFormed hforward) true
  obtain rfl := Except.ok.inj (hwire'.symm.trans hwire)
  have hunit := hread []
  rw [List.append_nil] at hunit
  rw [run_of_chunk hunit, run_nil]

/-- A request with odd spacing and bare line feeds. -/
theorem run_encode_delivered_spaced :
    let stream := Utf8.encode " \tDESCRIBE  * RTSP/1.0 \r x\nCSeq  :1\n\n"
    let request : Request := ⟨.describe, "*", "RTSP/1.0", ⟨[("CSeq", "1")]⟩, []⟩
    Chunk.message (.request request) ∈ (run true stream).chunks
      ∧ (Chunk.message (.request request)).IsForwardable
      ∧ ∃ wire, (Chunk.message (.request request)).encode = .ok wire
        ∧ ∃ c', run true wire = ⟨[c'], .finished, []⟩
          ∧ (Chunk.message (.request request)).Same c' := by
  intro stream request
  have hstream : stream = Utf8.encode " \tDESCRIBE  * RTSP/1.0 \r x" ++ Line.lineFeed
      :: (Utf8.encode "CSeq  :1" ++ Line.lineFeed :: (Utf8.encode "" ++ Line.lineFeed :: [])) := by
    decide
  have hstart := Line.read_encode_bare (s := " \tDESCRIBE  * RTSP/1.0 \r x") (by decide) (by decide)
    (by decide) true
    (Utf8.encode "CSeq  :1" ++ Line.lineFeed :: (Utf8.encode "" ++ Line.lineFeed :: []))
  have hfield := Line.read_encode_bare (s := "CSeq  :1") (by decide) (by decide) (by decide) true
    (Utf8.encode "" ++ Line.lineFeed :: [])
  have hempty := Line.read_encode_bare (s := "") (by decide) (by decide) (by decide) true []
  rw [← hstream] at hstart
  have hheaders : Headers.read true {} (Utf8.encode "CSeq  :1" ++ Line.lineFeed ::
      (Utf8.encode "" ++ Line.lineFeed :: [])) = .done ⟨[("CSeq", "1")]⟩ [] := by
    rw [Headers.read_of_line hfield (by decide), Headers.read_of_empty hempty rfl]
    rfl
  have hread := read_message (by decide) hstart (by decide) hheaders
    (Reading.exactly_append true [] []) (by decide)
  have hmem : Chunk.message (.request request) ∈ (run true stream).chunks := by
    rw [run_of_chunk hread]
    exact List.mem_cons_self
  have hforward : (Chunk.message (.request request)).IsForwardable :=
    ⟨by decide, by decide, by decide⟩
  obtain ⟨wire, hwire, hrun⟩ := run_encode_delivered hmem
  exact ⟨hmem, hforward, wire, hwire, hrun hforward⟩

/-- A start line that just fits with a bare line feed is dropped with the ending that it is written
with. -/
theorem run_encode_barely_fitting {r : Request} (hstart : r.startLine.WellFormed)
    (hreceived : r.startLine.received = r.startLine) (hheaders : r.headers = {})
    (hbody : r.body = []) (hreturn : r.startLine.text.toList.getLast? ≠ some '\r')
    (hlength : (Utf8.encode r.startLine.text).length + 1 = Line.limit) :
    run true (Utf8.encode r.startLine.text ++ [Line.lineFeed, Line.lineFeed])
        = ⟨[.message (.request r)], .finished, []⟩
      ∧ run true r.encode = ⟨[], .finished, []⟩ := by
  have hfeed := StartLine.lineFeed_not_mem_text hstart
  obtain ⟨c, hc, hblank⟩ := StartLine.exists_not_blank_text hstart
  have hall : r.startLine.text.toList.all isBlank = false :=
    List.all_eq_false.2 ⟨c, hc, by simp [hblank]⟩
  have hmarker (rest : Bytes) :
      (Utf8.encode r.startLine.text ++ rest).head? ≠ some Interleaved.marker :=
    head?_encode_ne_marker (StartLine.head?_text_ne_dollar hstart) (List.ne_nil_of_mem hc) rest
  constructor
  · have hline := Line.read_encode_bare hfeed hreturn (Nat.lt_of_succ_le hlength.le) true
      [Line.lineFeed]
    have hempty : Line.read true [Line.lineFeed] = .done "" [] :=
      Line.read_encode_bare (s := "") (by decide) (by decide) (by decide) true []
    have hread := read_message (hmarker _) hline hall (Headers.read_of_empty hempty rfl)
      (Reading.exactly_append true [] []) (by decide)
    have hparts : Message.ofParts r.startLine.text {} [] = .request r := by
      rw [Message.ofParts, StartLine.read_text hstart, hreceived, ← hheaders, ← hbody]
      rfl
    rw [run_of_chunk hread, run_nil, hparts]
  · have hbytes : r.encode
        = Utf8.encode (r.startLine.text ++ "\r\n") ++ (Utf8.encode "\r\n" ++ []) := by
      rw [Request.encode, encodeParts, hheaders, hbody]
      rfl
    have hlong : Line.limit < (Utf8.encode (r.startLine.text ++ "\r\n")).length := by
      rw [Utf8.encode_append, Line.encode_crlf, List.length_append, ← hlength]
      exact Nat.lt_succ_self _
    have hline : Line.read true r.encode = .done "" [] := by
      rw [hbytes, Line.read_overlong hfeed hlong]
      exact Line.read_encode (s := "") (by simp) (by decide) true []
    have hfirst : r.encode.head? ≠ some Interleaved.marker := by
      rw [hbytes, Utf8.encode_append, List.append_assoc]
      exact hmarker _
    rw [run_of_read_eq (read_blank hfirst hline rfl) (by simp [run_nil]), run_nil]

theorem run_encode_long {target : String} (hword : IsWord target.toList)
    (hlength : (Utf8.encode target).length = 16366) :
    let request : Request := ⟨.options, target, "RTSP/1.0", {}, []⟩
    run true (Utf8.encode request.startLine.text ++ [Line.lineFeed, Line.lineFeed])
        = ⟨[.message (.request request)], .finished, []⟩
      ∧ run true request.encode = ⟨[], .finished, []⟩ := by
  intro request
  have hmethod : IsWord Method.options.token.toList ∧ Method.options.token.toList.head? ≠ some '$'
      ∧ StartLine.isVersion "RTSP/1.0".toList := by decide
  refine run_encode_barely_fitting ⟨hmethod.1, hmethod.2.1, hword, hmethod.2.2⟩ rfl rfl rfl ?_ ?_
  · rw [Request.startLine, StartLine.toList_text_request]
    simp [request, List.getLast?_append, List.getLast?_cons]
  · have hfixed : (Utf8.encode "OPTIONS").length = 7 ∧ (Utf8.encode " ").length = 1
        ∧ (Utf8.encode "RTSP/1.0").length = 8 := by decide
    simp only [request, Request.startLine, StartLine.text, Method.token, Utf8.encode_append,
      List.length_append, hlength, Line.limit]
    omega

/-- A method that begins with a dollar sign is not taken for a frame behind a blank. -/
theorem run_encode_marked :
    let request : Request := ⟨.other "$X", "u", "RTSP/1.0", {}, []⟩
    run true (Utf8.encode " $X u RTSP/1.0\r\n\r\n")
        = ⟨[.message (.request request)], .finished, []⟩
      ∧ run true request.encode = ⟨[], .failed .endedInPayload, []⟩ := by
  intro request
  have hline : Line.read true
      (Utf8.encode (" $X u RTSP/1.0" ++ "\r\n") ++ (Utf8.encode "\r\n" ++ []))
      = .done " $X u RTSP/1.0" (Utf8.encode "\r\n" ++ []) :=
    Line.read_encode (by decide) (by decide) true _
  have hempty : Line.read true (Utf8.encode "\r\n" ++ []) = .done "" [] :=
    Line.read_encode (s := "") (by simp) (by decide) true []
  have hread := read_message (by decide) hline (by decide) (Headers.read_of_empty hempty rfl)
    (Reading.exactly_append true [] []) (by decide)
  have hstream : Utf8.encode " $X u RTSP/1.0\r\n\r\n"
      = Utf8.encode (" $X u RTSP/1.0" ++ "\r\n") ++ (Utf8.encode "\r\n" ++ []) := by
    decide
  constructor
  · rw [hstream, run_of_chunk hread, run_nil]
    rfl
  · have hframe : Interleaved.read true (request.encode.drop 1) = .ended := by decide
    have hbytes : request.encode = Interleaved.marker :: request.encode.drop 1 := by decide
    refine run_of_failed ?_
    rw [hbytes, read, if_pos rfl, hframe]

/-- Two requests that are delivered, and are not delivered again: the line of one becomes too long,
and the other is taken for a frame. -/
theorem run_encode_long_and_marked :
    let long : Request :=
      ⟨.options, String.ofList (List.replicate 16366 'a'), "RTSP/1.0", {}, []⟩
    let marked : Request := ⟨.other "$X", "u", "RTSP/1.0", {}, []⟩
    (run true (Utf8.encode long.startLine.text ++ [Line.lineFeed, Line.lineFeed])
          = ⟨[.message (.request long)], .finished, []⟩
        ∧ (Chunk.message (.request long)).encode = .ok long.encode
        ∧ run true long.encode = ⟨[], .finished, []⟩)
      ∧ run true (Utf8.encode " $X u RTSP/1.0\r\n\r\n")
          = ⟨[.message (.request marked)], .finished, []⟩
        ∧ (Chunk.message (.request marked)).encode = .ok marked.encode
        ∧ run true marked.encode = ⟨[], .failed .endedInPayload, []⟩ := by
  intro long marked
  have hword : IsWord (String.ofList (List.replicate 16366 'a')).toList := by
    rw [String.toList_ofList]
    exact ⟨mt (List.replicate_eq_nil_iff _).1 (by decide),
      fun c hc => List.eq_of_mem_replicate hc ▸ rfl⟩
  have hlength : (Utf8.encode (String.ofList (List.replicate 16366 'a'))).length = 16366 := by
    rw [Utf8.length_encode_replicate]
    rfl
  obtain ⟨hlong, hdropped⟩ := run_encode_long hword hlength
  obtain ⟨hmarked, hframe⟩ := run_encode_marked
  exact ⟨⟨hlong, rfl, hdropped⟩, hmarked, rfl, hframe⟩

end Chunk

end Rtsp
