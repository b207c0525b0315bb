-- SUMMARY: The lines of a section as they are written, and what each of them does to it.
import Rtsp.Proofs.Description.Lines

/-!
# Lines of a section

A section is written as a media line and three kinds of attribute lines: one for its encoding, one
for its format parameters and one for its control address. Each of them sets one field and leaves
the others (`MediaSection.applyLine_encodingLine`, `MediaSection.applyLine_formatLine`,
`MediaSection.applyLine_controlLine`), and any other line of a section leaves all of it
(`MediaSection.applyLine_foreign`).
-/

namespace Rtsp

open Text

/-! ## Attribute lines -/

/-- An attribute with a value. -/
def attributeLine (name : String) (value : List Char) : List Char :=
  'a' :: '=' :: (name.toList ++ ':' :: value)

namespace DescriptionLine

theorem read_of_trim_eq {line value : List Char} (h : trim line = 'a' :: '=' :: value) :
    read line =
      match cut ':' value with
      | some (name, value) => .attribute (String.ofList name) value
      | none => .attribute (String.ofList value) [] := by
  have hcut : cut '=' ('a' :: '=' :: value) = some (['a'], value) :=
    cut_append (by decide : '=' ∉ ['a']) value
  rw [read, h, hcut]
  rfl

theorem read_attributeLine {name : String} (h : ':' ∉ name.toList) (value : List Char) :
    read (attributeLine name value) = .attribute name (trimEnd value) := by
  have htrim : trim (attributeLine name value)
      = 'a' :: '=' :: (name.toList ++ ':' :: trimEnd value) := by
    rw [attributeLine, trim_cons_of_not_blank (by decide)]
    exact congrArg _ (trimEnd_append_cons (by decide) ('=' :: name.toList) value)
  rw [read_of_trim_eq htrim, cut_append h]
  dsimp only
  rw [String.ofList_toList]

/-- An attribute without a value. -/
theorem read_flag {name : List Char} (h : ':' ∉ name) :
    read ('a' :: '=' :: name) = .attribute (String.ofList (trimEnd name)) [] := by
  have htrim : trim ('a' :: '=' :: name) = 'a' :: '=' :: trimEnd name := by
    rw [trim_cons_of_not_blank (by decide)]
    exact congrArg _ (trimEnd_append_cons (by decide) [] name)
  have hkept : ':' ∉ trimEnd name := fun hmem => h ((trimEnd_isPrefix name).subset hmem)
  rw [read_of_trim_eq htrim, cut_eq_none hkept]

/-- Only one attribute is a control attribute. -/
theorem control?_attribute {name : String} (h : name ≠ "control") (value : List Char) :
    (DescriptionLine.attribute name value).control? = none := by
  unfold control?
  split
  next heq =>
    cases heq
    exact absurd rfl h
  next => rfl

/-- A line of another kind than media and attributes is skipped. -/
theorem read_of_not_prefix {line : List Char} (hmedia : ¬ "m=".toList <+: trim line)
    (hattribute : ¬ "a=".toList <+: trim line) : read line = .other := by
  unfold read
  split
  next value hcut =>
    exact absurd ⟨value, (eq_append_of_cut hcut).2.symm⟩ hmedia
  next value hcut =>
    exact absurd ⟨value, (eq_append_of_cut hcut).2.symm⟩ hattribute
  next => rfl

end DescriptionLine

/-! ## Encodings -/

/-- An encoding whose name is read back. -/
structure Encoding.WellFormed (e : Encoding) : Prop where
  name : ∀ c ∈ e.name.toList, isBlank c = false ∧ c ≠ '/'
  upper : Text.upper e.name = e.name

/-- The name, the clock rate and, if there is one, the number of channels. -/
def Encoding.parts (e : Encoding) : List (List Char) :=
  e.name.toList :: Nat.toDigits 10 e.clockRate.toNat
    :: (e.channels.map fun n => Nat.toDigits 10 n.toNat).toList

def Encoding.text (e : Encoding) : List Char :=
  List.intercalate ['/'] e.parts

theorem Encoding.WellFormed.part {e : Encoding} (h : e.WellFormed) {part : List Char}
    (hpart : part ∈ e.parts) : ∀ c ∈ part, isBlank c = false ∧ c ≠ '/' := by
  have hdigits : ∀ n, ∀ c ∈ Nat.toDigits 10 n, isBlank c = false ∧ c ≠ '/' := by
    intro n c hc
    have hdigit := isDigit_of_mem_toDigits hc
    exact ⟨isBlank_of_isDigit hdigit, by rintro rfl; exact absurd hdigit (by decide)⟩
  rcases List.mem_cons.1 hpart with rfl | hpart
  · exact h.name
  rcases List.mem_cons.1 hpart with rfl | hpart
  · exact hdigits _
  · obtain ⟨n, -, rfl⟩ := Option.map_eq_some_iff.1 (Option.mem_toList.1 hpart)
    exact hdigits _

theorem Encoding.WellFormed.isWord_text {e : Encoding} (h : e.WellFormed) : IsWord e.text := by
  constructor
  · simp [Encoding.text, Encoding.parts, List.intercalate_cons_cons]
  · intro c hc
    obtain rfl | ⟨part, hpart, hc⟩ := mem_intercalate hc
    · rfl
    · exact (h.part hpart c hc).1

theorem Encoding.WellFormed.readEncoding_text {e : Encoding} (h : e.WellFormed) :
    MediaSection.readEncoding e.text = e := by
  have hsplit : (trim e.text).splitOn '/' = e.parts := by
    rw [trim_of_forall_not_blank h.isWord_text.2, Encoding.text]
    exact List.splitOn_intercalate '/' (fun part hpart hc => (h.part hpart _ hc).2 rfl)
      (by simp [parts])
  unfold MediaSection.readEncoding
  rw [hsplit]
  obtain ⟨name, clockRate, channels⟩ := e
  cases channels with
  | none => simp [Encoding.parts, h.upper, readUInt32_toDigits]
  | some n => simp [Encoding.parts, h.upper, readUInt32_toDigits, readUInt16_toDigits]

/-! ## Formats -/

namespace Text.Params

/-- Parameters that are read back: by lower-case names, each of them once. -/
structure IsFormat (p : Params) : Prop where
  nodup : (p.entries.map Prod.fst).Nodup
  key : ∀ e ∈ p.entries, IsPart e.1.toList ∧ '=' ∉ e.1.toList ∧ Text.lower e.1 = e.1
  value : ∀ e ∈ p.entries, IsPart e.2.toList

/-- One parameter, as it is written between semicolons. -/
def parameter (e : String × String) : List Char :=
  e.1.toList ++ '=' :: e.2.toList

def text (p : Params) : List Char :=
  List.intercalate [';'] (p.entries.map parameter)

theorem IsFormat.isPart {p : Params} (h : p.IsFormat) {e : String × String} (he : e ∈ p.entries) :
    IsPart (parameter e) :=
  isPart_join (by decide) (by decide) (h.key e he).1 (h.value e he)

theorem IsFormat.isFramed_text {p : Params} (h : p.IsFormat) (hne : p.entries ≠ []) :
    IsFramed p.text := by
  refine isFramed_intercalate (by simpa using hne) fun part hpart => ?_
  obtain ⟨e, he, rfl⟩ := List.mem_map.1 hpart
  exact isFramed_join (by decide) (h.key e he).1.1 (h.value e he).1

theorem IsFormat.splitOn_text {p : Params} (h : p.IsFormat) (hne : p.entries ≠ []) :
    p.text.splitOn ';' = p.entries.map parameter := by
  refine List.splitOn_intercalate ';' (fun part hpart => ?_) (by simpa using hne)
  obtain ⟨e, he, rfl⟩ := List.mem_map.1 hpart
  exact (h.isPart he).2

theorem IsFormat.addFormat_parameter {p : Params} (h : p.IsFormat) {e : String × String}
    (he : e ∈ p.entries) (format : Params) :
    MediaSection.addFormat format (parameter e) = format.insert e.1 e.2 := by
  obtain ⟨⟨htrim, -⟩, hequals, hlower⟩ := h.key e he
  unfold MediaSection.addFormat
  rw [parameter, cut_append hequals]
  dsimp only
  rw [htrim, (h.value e he).1, String.ofList_toList, String.ofList_toList, hlower]

/-- The parameters are read into none, and into the same parameters once more. -/
theorem IsFormat.foldl_addFormat {p format : Params} (h : p.IsFormat) (hne : p.entries ≠ [])
    (hformat : format = {} ∨ format = p) :
    (p.text.splitOn ';').foldl MediaSection.addFormat format = p := by
  have hinsert : (p.text.splitOn ';').foldl MediaSection.addFormat format
      = p.entries.foldl (fun format e => format.insert e.1 e.2) format := by
    rw [h.splitOn_text hne, List.foldl_map]
    exact List.foldl_ext _ _ _ fun format e he => h.addFormat_parameter he format
  rw [hinsert]
  rcases hformat with rfl | rfl
  · have hnew : (([] ++ p.entries).map Prod.fst).Nodup := h.nodup
    exact foldl_insert_append hnew
  · exact foldl_insert_of_subset h.nodup fun e he => he

end Text.Params

/-! ## Payload types -/

namespace MediaSection

/-- A value behind the payload type that it is about. -/
def payloadValue (payloadType : Nat) (value : List Char) : List Char :=
  Nat.toDigits 10 payloadType ++ ' ' :: value

theorem blank_not_mem_toDigits (n : Nat) : ' ' ∉ Nat.toDigits 10 n := by
  intro hmem
  exact absurd ((isWord_toDigits n).2 _ hmem) (by decide)

theorem ownValue?_trimEnd (m : MediaSection) (value : List Char) :
    m.ownValue? (trimEnd value) = m.ownValue? value := by
  rw [ownValue?, trim_trimEnd, ownValue?]

/-- What is said of the payload type of the section is taken. -/
theorem ownValue?_own (m : MediaSection) {value : List Char} (h : IsFramed value) :
    m.ownValue? (payloadValue m.payloadType.toNat value) = some value := by
  have hframed : IsFramed (payloadValue m.payloadType.toNat value) :=
    (isWord_toDigits _).isFramed.append h [' ']
  unfold ownValue?
  rw [hframed.trim_eq, payloadValue, cut_append (blank_not_mem_toDigits _)]
  simp [readUInt8_toDigits]

theorem trim_payloadValue (n : Nat) (value : List Char) :
    trim (payloadValue n value) = Nat.toDigits 10 n
      ∨ ∃ kept, trim (payloadValue n value) = payloadValue n kept := by
  rw [payloadValue, trim_word_append (isWord_toDigits n)]
  rcases List.prefix_cons_iff.1 (trimEnd_isPrefix (' ' :: value)) with hnone | ⟨kept, hkept, -⟩
  · exact .inl (by rw [hnone, List.append_nil])
  · exact .inr ⟨kept, by rw [hkept, payloadValue]⟩

/-- What is said of another payload type is not. -/
theorem ownValue?_other (m : MediaSection) {n : Nat} (h : n ≠ m.payloadType.toNat)
    (value : List Char) : m.ownValue? (payloadValue n value) = none := by
  unfold ownValue?
  obtain htrim | ⟨kept, htrim⟩ := trim_payloadValue n value
  · rw [htrim, cut_eq_none (blank_not_mem_toDigits n)]
    rfl
  · have hread : readUInt8 (Nat.toDigits 10 n) ≠ some m.payloadType :=
      fun hsame => h (eq_of_readUInt8_toDigits hsame)
    rw [htrim, payloadValue, cut_append (blank_not_mem_toDigits n)]
    simp [hread]

theorem ownValue?_nil (m : MediaSection) (n : Nat) : m.ownValue? (payloadValue n []) = none := by
  unfold ownValue?
  rw [payloadValue, trim_append_blank (by decide), trim_toDigits,
    cut_eq_none (blank_not_mem_toDigits n)]
  rfl

/-! ## Lines of a section -/

/-- The words of a media line: the kind of the section, a port, a protocol, the payload type and
perhaps others. -/
def mediaWords (m : MediaSection) (port protocol : List Char) (others : List (List Char)) :
    List (List Char) :=
  m.kind.toList :: port :: protocol :: Nat.toDigits 10 m.payloadType.toNat :: others

def mediaLine (m : MediaSection) (port protocol : List Char) (others : List (List Char)) :
    List Char :=
  'm' :: '=' :: List.intercalate [' '] (m.mediaWords port protocol others)

def encodingLine (m : MediaSection) : List Char :=
  attributeLine "rtpmap" (payloadValue m.payloadType.toNat m.encoding.text)

def formatLine (m : MediaSection) : List Char :=
  attributeLine "fmtp" (payloadValue m.payloadType.toNat m.format.text)

end MediaSection

def controlLine (control : String) : List Char :=
  attributeLine "control" control.toList

namespace MediaSection

/-- A section whose texts are read back. -/
structure WellFormed (m : MediaSection) : Prop where
  kind : IsWord m.kind.toList
  encoding : m.encoding.WellFormed
  format : m.format.IsFormat
  control : ∀ control ∈ m.control, trim control.toList = control.toList

/-- Lines that say nothing of a section with a payload type. -/
inductive IsForeign (payloadType : UInt8) : List Char → Prop
  /-- An attribute with another name. -/
  | named {name : String} (hname : ':' ∉ name.toList)
    (hother : name ∉ ["rtpmap", "fmtp", "control"]) (value : List Char) :
    IsForeign payloadType (attributeLine name value)
  /-- An attribute with another name and no value. -/
  | flag {name : List Char} (hname : ':' ∉ name)
    (hother : String.ofList (trimEnd name) ∉ ["rtpmap", "fmtp", "control"]) :
    IsForeign payloadType ('a' :: '=' :: name)
  /-- The encoding or the format of another payload type. -/
  | payload {name : String} (hname : name ∈ ["rtpmap", "fmtp"]) {n : Nat}
    (hother : n ≠ payloadType.toNat) (value : List Char) :
    IsForeign payloadType (attributeLine name (payloadValue n value))
  /-- A line of another kind than media and attributes. -/
  | kind {line : List Char} (hmedia : ¬ "m=".toList <+: trim line)
    (hattribute : ¬ "a=".toList <+: trim line) : IsForeign payloadType line

variable {m s : MediaSection}

theorem isWord_of_mem_mediaWords (hkind : IsWord m.kind.toList) {port protocol : List Char}
    {others : List (List Char)} (h : ∀ w ∈ port :: protocol :: others, IsWord w) :
    ∀ w ∈ m.mediaWords port protocol others, IsWord w := by
  intro w hw
  simp only [mediaWords, List.mem_cons] at hw h
  rcases hw with rfl | rfl | rfl | rfl | hw
  · exact hkind
  · exact h _ (.inl rfl)
  · exact h _ (.inr (.inl rfl))
  · exact isWord_toDigits _
  · exact h _ (.inr (.inr hw))

/-- The media line opens a section of its kind, with the encoding that its payload type stands
for. -/
theorem read_mediaLine {port protocol : List Char} {others : List (List Char)}
    (h : ∀ w ∈ m.mediaWords port protocol others, IsWord w) :
    DescriptionLine.read (m.mediaLine port protocol others)
      = .media (List.intercalate [' '] (m.mediaWords port protocol others)) := by
  have hframed : IsFramed (List.intercalate [' '] (m.mediaWords port protocol others)) :=
    isFramed_intercalate (List.cons_ne_nil _ _) fun w hw => (h w hw).isFramed
  have htrim : trim (m.mediaLine port protocol others) = m.mediaLine port protocol others := by
    rw [mediaLine, trim_cons_of_not_blank (by decide)]
    have hend := trimEnd_append_cons (by decide : isBlank '=' = false) []
      (List.intercalate [' '] (m.mediaWords port protocol others))
    rw [hframed.trimEnd_eq] at hend
    exact congrArg _ hend
  have hcut : cut '=' (m.mediaLine port protocol others)
      = some (['m'], List.intercalate [' '] (m.mediaWords port protocol others)) :=
    cut_append (by decide : '=' ∉ ['m']) _
  rw [DescriptionLine.read, htrim, hcut]
  rfl

theorem ofMediaLine_words {port protocol : List Char} {others : List (List Char)}
    (h : ∀ w ∈ m.mediaWords port protocol others, IsWord w) :
    ofMediaLine (List.intercalate [' '] (m.mediaWords port protocol others))
      = { kind := m.kind, payloadType := m.payloadType,
          encoding := .ofPayloadType m.payloadType } := by
  unfold ofMediaLine
  rw [words_intercalate h]
  simp [mediaWords, readUInt8_toDigits]

theorem applyAttribute_other {name : String} (h : name ∉ ["rtpmap", "fmtp", "control"])
    (value : List Char) : m.applyAttribute name value = m := by
  unfold applyAttribute
  split
  next => simp at h
  next => simp at h
  next => simp at h
  next => rfl

theorem applyLine_foreign {line : List Char} (h : IsForeign m.payloadType line) :
    m.applyLine (.read line) = m := by
  cases h with
  | @named name hname hother value =>
    rw [DescriptionLine.read_attributeLine hname]
    exact applyAttribute_other hother _
  | @flag name hname hother =>
    rw [DescriptionLine.read_flag hname]
    exact applyAttribute_other hother []
  | @payload name hname n hother value =>
    have hown := m.ownValue?_other hother value
    simp only [List.mem_cons, List.not_mem_nil, or_false] at hname
    rcases hname with rfl | rfl
    · rw [DescriptionLine.read_attributeLine (by decide)]
      simp only [applyLine, applyAttribute, ownValue?_trimEnd, hown]
    · rw [DescriptionLine.read_attributeLine (by decide)]
      simp only [applyLine, applyAttribute, ownValue?_trimEnd, hown]
  | kind hmedia hattribute =>
    rw [DescriptionLine.read_of_not_prefix hmedia hattribute]
    rfl

theorem applyLine_encodingLine (hencoding : m.encoding.WellFormed)
    (hpayload : s.payloadType = m.payloadType) :
    s.applyLine (.read m.encodingLine) = { s with encoding := m.encoding } := by
  have hown := s.ownValue?_own hencoding.isWord_text.isFramed
  rw [hpayload] at hown
  rw [encodingLine, DescriptionLine.read_attributeLine (by decide)]
  simp only [applyLine, applyAttribute, ownValue?_trimEnd, hown, hencoding.readEncoding_text]

theorem applyLine_formatLine (hformat : m.format.IsFormat)
    (hpayload : s.payloadType = m.payloadType) (hs : s.format = {} ∨ s.format = m.format) :
    s.applyLine (.read m.formatLine) = { s with format := m.format } := by
  rw [formatLine, DescriptionLine.read_attributeLine (by decide)]
  by_cases hne : m.format.entries = []
  · have hnone : s.ownValue? (payloadValue m.payloadType.toNat m.format.text) = none := by
      have htext : m.format.text = [] := by rw [Params.text, hne]; rfl
      rw [htext, ownValue?_nil]
    have hsame : s.format = m.format := hs.elim (fun hs => hs.trans (Params.eq_empty hne).symm) id
    simp only [applyLine, applyAttribute, ownValue?_trimEnd, hnone]
    rw [← hsame]
  · have hown := s.ownValue?_own (hformat.isFramed_text hne)
    rw [hpayload] at hown
    simp only [applyLine, applyAttribute, ownValue?_trimEnd, hown,
      hformat.foldl_addFormat hne hs]

theorem applyLine_controlLine {control : String} (h : trim control.toList = control.toList) :
    s.applyLine (.read (controlLine control)) = { s with control := some control } := by
  rw [controlLine, DescriptionLine.read_attributeLine (by decide)]
  simp only [applyLine, applyAttribute, trim_trimEnd, h, String.ofList_toList]

end MediaSection

end Rtsp
