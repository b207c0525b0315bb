-- SUMMARY: A message that is written is read back, and what was read is written in a normal form.
import Rtsp.Proofs.Framing.Forwarding
import Rtsp.Proofs.Message.Layout

/-!
# Messages round trip

A request or a response that is written and read as a whole is the same message, whatever its
length, as long as its start line is read as what it is (`Message.parse_encode`). The start lines of
messages that were read are such lines, so writing what was read gives a normal form
(`Message.parse_encode_of_parse`). A status line is one unless the first word of its reason phrase
is a version: then the line is a request line (`Response.parse_encode_phrased`).
-/

namespace Rtsp

open Text

/-! ## Start lines -/

namespace StartLine

/-- A line that is not blank, and has no white space but spaces. -/
structure IsSpaced (s : StartLine) : Prop where
  eq_space : ∀ c ∈ s.text.toList, isBlank c = true → c = ' '
  not_blank : s.text.toList.all isBlank = false

/-- Such a line that is read as the start line that it was written for. -/
structure IsReadable (s : StartLine) : Prop extends IsSpaced s where
  read_text : read s.text = s

theorem IsSpaced.not_mem {s : StartLine} (h : s.IsSpaced) {c : Char} (hblank : isBlank c = true)
    (hne : c ≠ ' ') : c ∉ s.text.toList := fun hmem =>
  hne (h.eq_space c hmem hblank)

theorem eq_space_of_join {before after : List Char}
    (hbefore : ∀ c ∈ before, isBlank c = true → c = ' ')
    (hafter : ∀ c ∈ after, isBlank c = true → c = ' ') :
    ∀ c ∈ before ++ ' ' :: after, isBlank c = true → c = ' ' := by
  intro c hc hblank
  rcases List.mem_append.1 hc with hc | hc
  · exact hbefore c hc hblank
  · rcases List.mem_cons.1 hc with rfl | hc
    · rfl
    · exact hafter c hc hblank

theorem eq_space_of_isWord {w : List Char} (h : IsWord w) :
    ∀ c ∈ w, isBlank c = true → c = ' ' := by
  intro c hc hblank
  rw [h.2 c hc] at hblank
  cases hblank

theorem eq_space_of_joinWords {ws : List (List Char)} (h : ∀ w ∈ ws, IsWord w) :
    ∀ c ∈ (joinWords ws).toList, isBlank c = true → c = ' ' := by
  intro c hc hblank
  rw [joinWords, String.toList_ofList] at hc
  rcases mem_intercalate hc with rfl | ⟨w, hw, hc⟩
  · rfl
  · exact eq_space_of_isWord (h w hw) c hc hblank

theorem not_blank_append {w : List Char} (h : IsWord w) (cs : List Char) :
    (w ++ cs).all isBlank = false := by
  obtain ⟨c, hc⟩ := List.exists_mem_of_ne_nil w h.1
  exact List.all_eq_false.2 ⟨c, List.mem_append_left _ hc, by simp [h.2 c hc]⟩

theorem isReadable_request {method uri version : List Char} (hmethod : IsWord method)
    (huri : IsWord uri) (hversion : isVersion version) :
    (request (.ofToken (String.ofList method)) (String.ofList uri)
      (String.ofList version)).IsReadable where
  read_text := by
    rw [read_text_request (by simpa using hmethod) (by simpa using huri) (by simpa using hversion),
      Method.token_ofToken]
  eq_space := by
    simp only [toList_text_request, Method.token_ofToken, String.toList_ofList]
    exact eq_space_of_join (eq_space_of_isWord hmethod) (eq_space_of_join (eq_space_of_isWord huri)
      (eq_space_of_isWord (isWord_of_isVersion hversion)))
  not_blank := by
    simp only [toList_text_request, Method.token_ofToken, String.toList_ofList]
    exact not_blank_append hmethod _

theorem isSpaced_response {version : String} {ws : List (List Char)}
    (hversion : isVersion version.toList) (hws : ∀ w ∈ ws, IsWord w) (status : Nat) :
    (response version status (joinWords ws)).IsSpaced where
  eq_space := by
    rw [toList_text_response]
    exact eq_space_of_join (eq_space_of_isWord (isWord_of_isVersion hversion))
      (eq_space_of_join (eq_space_of_isWord (isWord_toDigits status)) (eq_space_of_joinWords hws))
  not_blank := by
    rw [toList_text_response]
    exact not_blank_append (isWord_of_isVersion hversion) _

/-- A line that was read as a request line or a status line is written as such a line. -/
theorem isReadable_read {line : String} (h : ∀ kept, read line ≠ unknown kept) :
    (read line).IsReadable := by
  have hword : ∀ w ∈ words line.toList, IsWord w := fun w hw => isWord_of_mem_words hw
  rcases read_cases line with hrequest | ⟨hnone, hresponse⟩ | hunknown
  · obtain ⟨method, uri, version, more, hws, hversion, hread⟩ := eq_request_of_readRequest? hrequest
    rw [hread]
    exact isReadable_request (hword method (by simp [hws])) (hword uri (by simp [hws])) hversion
  · obtain ⟨version, status, code, reason, hws, hversion, hvalid, hread⟩ :=
      eq_response_of_readResponse? hresponse
    have hfirst : ∀ w ∈ reason.head?, isVersion w = false :=
      not_isVersion_of_readRequest? (hws ▸ hnone)
    rw [hread]
    have hversion' : isVersion (String.ofList version).toList := by simpa using hversion
    have hreason : ∀ w ∈ reason, IsWord w := fun w hw => hword w (by simp [hws, hw])
    exact ⟨isSpaced_response hversion' hreason code,
      read_text_response hversion' hvalid hreason hfirst⟩
  · exact absurd hunknown (h line)

end StartLine

/-! ## Headers -/

namespace Headers

/-- The lines of fields with distinct names make these fields, behind those that were there. -/
theorem foldl_addBytes_fieldLine {fields before : List (String × String)}
    (hfield : ∀ e ∈ fields, IsField e) (hdistinct : Distinct (before ++ fields)) :
    fields.foldl (fun h e => addBytes h (Utf8.encode (fieldLine e))) (Headers.mk before)
      = ⟨before ++ fields⟩ := by
  induction fields generalizing before with
  | nil => rw [List.append_nil, List.foldl_nil]
  | cons e fields ih =>
    have hadd : addBytes ⟨before⟩ (Utf8.encode (fieldLine e)) = ⟨before ++ [e]⟩ := by
      rw [addBytes, Utf8.decodeLossy_encode, String.ofList_toList,
        addLine_fieldLine (hfield e List.mem_cons_self), set_of_distinct hdistinct]
    have hdistinct' : Distinct ((before ++ [e]) ++ fields) := by simpa using hdistinct
    rw [List.foldl_cons, hadd, ih (fun f hf => hfield f (List.mem_cons_of_mem _ hf)) hdistinct',
      List.append_assoc, List.singleton_append]

theorem encode_fieldLine_ne_nil (e : String × String) : Utf8.encode (fieldLine e) ≠ [] := by
  intro hnil
  have htext := Utf8.decodeLossy_encode (fieldLine e)
  rw [hnil, Utf8.decodeLossy_nil, toList_fieldLine] at htext
  simp at htext

theorem Readable.foldl_addLine {h : Headers} (hr : h.Readable) {lines : List (List Char)}
    (hlines : ∀ line ∈ lines, '\n' ∉ line) :
    (lines.foldl (fun h line => h.addLine (String.ofList line)) h).Readable := by
  induction lines generalizing h with
  | nil => exact hr
  | cons line lines ih =>
    have hline : '\n' ∉ (String.ofList line).toList := by
      rw [String.toList_ofList]
      exact hlines line List.mem_cons_self
    exact ih (hr.addLine hline) fun l hl => hlines l (List.mem_cons_of_mem _ hl)

/-- The declared length is a number of 64 bits. -/
theorem contentLength?_lt {h : Headers} {n : Nat} (hlength : h.contentLength? = some n) :
    n < UInt64.size := by
  unfold contentLength? at hlength
  split at hlength
  next => exact Option.some.inj hlength ▸ by decide
  next => exact readDecimal_lt hlength

end Headers

/-! ## Messages -/

namespace Message

/-- The lines of the headers that are written for a body. -/
def headerLines (h : Headers) (body : Bytes) : List Bytes :=
  (h.received body).entries.map fun e => Utf8.encode (Headers.fieldLine e)

variable {s : StartLine} {h : Headers}

/-- All lines of a message that is written end in the same way. -/
theorem encodeParts_eq (s : StartLine) (h : Headers) (body : Bytes) :
    encodeParts s h body
      = (Layout.uniform true (Utf8.encode s.text) (headerLines h body) body).bytes := by
  have hending (text : String) :
      Utf8.encode text ++ Line.ending true = Utf8.encode (text ++ "\r\n") := by
    rw [Utf8.encode_append, Line.encode_crlf]
    rfl
  have hfields : (headerLines h body).flatMap (· ++ Line.ending true)
      = (h.received body).entries.flatMap Headers.encodeEntry := by
    rw [headerLines, List.flatMap_map]
    simp only [hending]
    rfl
  rw [Layout.bytes_uniform, List.flatMap_cons, hfields, hending, encodeParts, Headers.encodeRest_eq,
    Line.encode_crlf, List.append_assoc]
  rfl

theorem foldl_headerLines (hh : h.Readable) (body : Bytes) :
    (headerLines h body).foldl Headers.addBytes {} = h.received body := by
  have hdistinct : Headers.Distinct ([] ++ (h.received body).entries) :=
    Headers.distinct_received hh.distinct body
  rw [headerLines, List.foldl_map]
  exact Headers.foldl_addBytes_fieldLine (fun _ he => Headers.isField_received hh.fields he)
    hdistinct

theorem wellFormed_encoded (hs : s.IsSpaced) (hh : h.Readable) (body : Bytes) :
    (Layout.uniform true (Utf8.encode s.text) (headerLines h body) body).WellFormed := by
  have hline {text : String} (hfeed : '\n' ∉ text.toList) :
      RawLine.WellFormed ⟨Utf8.encode text, true⟩ :=
    ⟨Line.lineFeed_not_mem_encode hfeed, by simp⟩
  refine Layout.wellFormed_uniform ?_ ?_ ?_
  · rw [Utf8.decodeLossy_encode]
    exact hs.not_blank
  · intro line hmem
    obtain ⟨e, -, rfl⟩ := List.mem_map.1 hmem
    exact Headers.encode_fieldLine_ne_nil e
  · intro line hmem
    rcases List.mem_cons.1 hmem with rfl | hmem
    · exact hline (hs.not_mem (by decide) (by decide))
    · obtain ⟨e, he, rfl⟩ := List.mem_map.1 hmem
      have hfield : Headers.IsField e := Headers.isField_received hh.fields he
      exact hline (Headers.lineFeed_not_mem_fieldLine hfield)

/-- What is written is read back. -/
theorem parse_encodeParts (hs : s.IsSpaced) (hh : h.Readable) {body : Bytes}
    (hb : body.length < UInt64.size) :
    parse (encodeParts s h body) = .ok (ofParts s.text (h.received body) body) := by
  have hreturn : (Utf8.encode s.text).getLast? ≠ some Line.carriageReturn := by
    intro hlast
    have hmem := List.mem_of_getLast? (Utf8.getLast?_of_getLast?_encode (by decide) hlast)
    exact hs.not_mem (by decide) (by decide) hmem
  have hlength : ((headerLines h body).foldl Headers.addBytes {}).contentLength?
      = some body.length := by
    rw [foldl_headerLines hh]
    exact Headers.contentLength?_received h hb
  rw [encodeParts_eq,
    Layout.parse_uniform (wellFormed_encoded hs hh body) hreturn hlength (Nat.le_refl _),
    foldl_headerLines hh, Utf8.decodeLossy_encode, String.ofList_toList, List.take_length]

/-- A message is read back as the same message, whatever its length. -/
theorem parse_encode {m : Message} (hs : m.startLine.IsReadable) (hh : m.headers.Readable)
    (hb : m.body.length < UInt64.size) : ∃ m', parse m.encode = .ok m' ∧ m.Same m' := by
  refine ⟨_, parse_encodeParts hs.toIsSpaced hh hb, ?_, ?_, ?_⟩
  · rw [startLine_ofParts, hs.read_text]
  · rw [headers_ofParts, Headers.written_received]
  · rw [body_ofParts]

theorem Same.encode_eq {m n : Message} (h : m.Same n) : m.encode = n.encode := by
  simp only [encode, encodeParts, Headers.encodeRest_eq, Headers.received, h.startLine, h.headers,
    h.body]

/-! ## What was read -/

theorem lineFeed_not_mem_headLines {head : Bytes} {line : List Char} (h : line ∈ headLines head) :
    '\n' ∉ line := by
  rw [headLines_eq] at h
  obtain ⟨bytes, hbytes, rfl⟩ := List.mem_map.1 ((List.dropWhile_sublist _).subset h)
  refine Line.lineFeed_not_mem_text fun hmem => ?_
  simpa using (not_and_mem_of_mem_splitOnP hbytes hmem).1

theorem readable_headersOfLines {lines : List (List Char)} (h : ∀ line ∈ lines, '\n' ∉ line) :
    (headersOfLines lines).Readable :=
  Headers.readable_empty.foldl_addLine fun line hline =>
    h line ((List.takeWhile_sublist _).subset hline)

/-- The parts of a message that was read: headers whose fields are read back, and a body of a length
that was declared. -/
theorem exists_parts_of_parse {raw : Bytes} {m : Message} (h : parse raw = .ok m) :
    ∃ line headers body, m = ofParts line headers body ∧ headers.Readable
      ∧ body.length < UInt64.size := by
  unfold parse at h
  dsimp only at h
  split at h
  next => cases h
  next line lines hlines =>
    split at h
    next => cases h
    next length hlength =>
      split at h
      next => cases h
      next hle =>
        refine ⟨_, _, _, (Except.ok.inj h).symm, ?_, ?_⟩
        · refine readable_headersOfLines fun l hl => ?_
          have hmem : l ∈ headLines (splitHead raw).1 := hlines ▸ List.mem_cons_of_mem _ hl
          exact lineFeed_not_mem_headLines hmem
        · rw [List.length_take_of_le (Nat.not_lt.1 hle)]
          exact Headers.contentLength?_lt hlength

/-- What was read as a request or a response is written in a normal form: it is read back as the
same message, which is written in the same way. -/
theorem parse_encode_of_parse {raw : Bytes} {m : Message} (h : parse raw = .ok m)
    (hknown : ∀ u, m ≠ .unknown u) :
    ∃ m', parse m.encode = .ok m' ∧ m.Same m' ∧ m'.encode = m.encode := by
  obtain ⟨line, headers, body, rfl, hheaders, hbody⟩ := exists_parts_of_parse h
  have hread : ∀ kept, StartLine.read line ≠ .unknown kept := by
    intro kept hread
    refine hknown ⟨kept, headers, body⟩ ?_
    rw [ofParts, hread]
  obtain ⟨m', hparse, hsame⟩ := parse_encode (m := ofParts line headers body)
    (by rw [startLine_ofParts]; exact StartLine.isReadable_read hread)
    (by rwa [headers_ofParts]) (by rwa [body_ofParts])
  exact ⟨m', hparse, hsame, hsame.encode_eq.symm⟩

/-- A request with blanks around its words, more words than a request line has, one header twice, a
length that is written in another way, lines that are no headers, and bytes behind the body. -/
theorem parse_encode_of_parse_untidy :
    let raw := Utf8.encode
      "\n $X\tu  RTSP/1.0 x\r\ncseq :1\nCSEQ: 2\rb \ncontent-length: +02\n: v\n\n\r\n!"
    let request : Request := ⟨.other "$X", "u", "RTSP/1.0",
      ⟨[("cseq", "2\rb"), ("content-length", "+02")]⟩, Utf8.encode "\r\n"⟩
    parse raw = .ok (.request request)
      ∧ ∃ m', parse (Message.request request).encode = .ok m' ∧ (Message.request request).Same m'
        ∧ m'.encode = (Message.request request).encode := by
  intro raw request
  have hparse : parse raw = .ok (.request request) := by decide +kernel
  exact ⟨hparse, parse_encode_of_parse hparse (by rintro u ⟨⟩)⟩

end Message

/-! ## Responses -/

namespace Response

/-- A response whose reason phrase is made of these words and whose fields are read back. The length
of its body is a number of 64 bits. -/
structure IsPhrased (r : Response) (ws : List (List Char)) : Prop where
  version : StartLine.isVersion r.version.toList
  status : Status.isValid r.status
  words : ∀ w ∈ ws, IsWord w
  reason : r.reason = StartLine.joinWords ws
  headers : r.headers.Readable
  body_lt : r.body.length < UInt64.size

variable {r : Response} {ws : List (List Char)}

theorem IsPhrased.startLine_eq (h : r.IsPhrased ws) :
    r.startLine = .response r.version r.status (StartLine.joinWords ws) := by
  rw [startLine, h.reason]

theorem IsPhrased.isSpaced (h : r.IsPhrased ws) : r.startLine.IsSpaced := by
  rw [h.startLine_eq]
  exact StartLine.isSpaced_response h.version h.words r.status

theorem IsPhrased.isReadable (h : r.IsPhrased ws)
    (hfirst : ∀ w ∈ ws.head?, StartLine.isVersion w = false) : r.startLine.IsReadable := by
  refine ⟨h.isSpaced, ?_⟩
  rw [h.startLine_eq]
  exact StartLine.read_text_response h.version h.status h.words hfirst

/-- A version in front of the reason phrase makes a request line of the status line. -/
theorem IsPhrased.read_text_of_isVersion (h : r.IsPhrased ws) {w : List Char}
    (hw : w ∈ ws.head?) (hversion : StartLine.isVersion w) :
    StartLine.read r.startLine.text
      = .request (.ofToken r.version) (String.ofList (Nat.toDigits 10 r.status))
        (String.ofList w) := by
  obtain ⟨more, rfl⟩ := List.head?_eq_some_iff.1 hw
  rw [h.startLine_eq, StartLine.read, StartLine.words_text_response h.version h.words]
  simp [StartLine.readRequest?, hversion]

/-- A response is read back as the same response, unless the first word of its reason phrase is a
version: then its status line is a request line. -/
theorem parse_encode_phrased (h : r.IsPhrased ws) :
    ((∀ w ∈ ws.head?, StartLine.isVersion w = false) →
        ∃ r', parse r.encode = .ok r' ∧ (Message.response r).Same (.response r'))
      ∧ ∀ w ∈ ws.head?, StartLine.isVersion w = true →
        parse r.encode = .error (.parse .startLine) := by
  constructor
  · intro hfirst
    obtain ⟨m, hparse, hsame⟩ := Message.parse_encode (m := .response r) (h.isReadable hfirst)
      h.headers h.body_lt
    have hresponse : ∃ r', m = .response r' := by
      cases m with
      | response r' => exact ⟨r', rfl⟩
      | request q => cases hsame.startLine
      | unknown u => cases hsame.startLine
    obtain ⟨r', rfl⟩ := hresponse
    refine ⟨r', ?_, hsame⟩
    have hencode : Message.parse r.encode = .ok (.response r') := hparse
    rw [parse, hencode]
    rfl
  · intro w hw hversion
    have hencode : Message.parse r.encode = _ :=
      Message.parse_encodeParts h.isSpaced h.headers h.body_lt
    rw [parse, hencode, Message.ofParts, h.read_text_of_isVersion hw hversion]
    rfl

/-- A standard phrase that begins almost like a version, with a declared length that is not the
length of the body, and a body that looks like the end of a head. -/
theorem parse_encode_phrased_standard :
    let r : Response :=
      { status := 505, reason := Status.reason 505, body := [36, 13, 10, 13, 10]
        headers := ⟨[("CSeq", "1"), ("content-length", "9"), ("Session", "a b;timeout=5")]⟩ }
    let ws := ["RTSP", "Version", "not", "supported"].map String.toList
    r.IsPhrased ws ∧ (∀ w ∈ ws.head?, StartLine.isVersion w = false)
      ∧ ∃ r', parse r.encode = .ok r' ∧ (Message.response r).Same (.response r') := by
  intro r ws
  have hphrased : r.IsPhrased ws :=
    { version := by decide
      status := by decide
      words := by decide
      reason := by decide
      headers := ⟨by decide, by unfold Headers.Distinct; decide⟩
      body_lt := by decide }
  have hfirst : ∀ w ∈ ws.head?, StartLine.isVersion w = false := by decide
  exact ⟨hphrased, hfirst, (parse_encode_phrased hphrased).1 hfirst⟩

/-- A response that is read as a request, for its reason phrase begins with a version. -/
theorem parse_encode_phrased_as_request :
    let r : Response := { status := 505, reason := "RTSP/1.0 not supported" }
    r.IsPhrased (["RTSP/1.0", "not", "supported"].map String.toList)
      ∧ Message.parse r.encode
        = .ok (.request { method := .other "RTSP/1.0", uri := "505", version := "RTSP/1.0" })
      ∧ parse r.encode = .error (.parse .startLine) := by
  intro r
  have hphrased : r.IsPhrased (["RTSP/1.0", "not", "supported"].map String.toList) :=
    { version := by decide
      status := by decide
      words := by decide
      reason := by decide
      headers := Headers.readable_empty
      body_lt := by decide }
  have hparse : Message.parse r.encode
      = .ok (.request { method := .other "RTSP/1.0", uri := "505", version := "RTSP/1.0" }) := by
    decide +kernel
  refine ⟨hphrased, hparse, ?_⟩
  rw [parse, hparse]
  rfl

end Response
end Rtsp
