-- SUMMARY: The sections of a description are read one by one, and attributes in any order.
import Rtsp.Proofs.Description.Attributes

/-!
# Sections apart

A media line opens a section whatever stands in front of it, so a text may be read in two parts
where such a line begins the second one (`SessionDescription.parse_append`). Within a section each
attribute sets one field, from its value, the payload type and what was in that field
(`MediaSection.applyAttribute_eq`). Attributes with different names therefore commute
(`SessionDescription.applyLine_comm`), and their lines may be exchanged
(`SessionDescription.parse_exchanged`).
-/

namespace Rtsp

open Text

/-! ## Lines -/

namespace DescriptionLine

/-- A line of an attribute, with a value or without one. -/
structure IsAttribute (name : String) (line : List Char) : Prop where
  colon : ':' ∉ name.toList
  trim_eq : trim line = 'a' :: '=' :: name.toList ∨ ∃ value, trim line = attributeLine name value

theorem IsAttribute.read {name : String} {line : List Char} (h : IsAttribute name line) :
    ∃ value, read line = .attribute name value := by
  rcases h.trim_eq with htrim | ⟨value, htrim⟩
  · refine ⟨[], ?_⟩
    rw [read_of_trim_eq htrim, cut_eq_none h.colon, String.ofList_toList]
  · refine ⟨value, ?_⟩
    rw [attributeLine] at htrim
    rw [read_of_trim_eq htrim, cut_append h.colon]
    dsimp only
    rw [String.ofList_toList]

theorem isMedia_read {line : List Char} (h : "m=".toList <+: trim line) :
    (read line).isMedia = true := by
  obtain ⟨value, hvalue⟩ := h
  have hcut : cut '=' (trim line) = some (['m'], value) := by
    rw [← hvalue]
    exact cut_append (by decide : '=' ∉ ['m']) value
  rw [read, hcut]
  rfl

/-- The lines of a text. -/
def ofText (text : List Char) : List DescriptionLine :=
  (text.splitOn '\n').map read

theorem ofText_nil : ofText [] = [.other] := by
  decide

theorem ofText_append_lineFeed (before after : List Char) :
    ofText (before ++ '\n' :: after) = ofText before ++ ofText after := by
  have hsplit : (before ++ '\n' :: after).splitOn '\n'
      = before.splitOn '\n' ++ after.splitOn '\n' :=
    List.splitOnP_append_cons before after (by decide)
  rw [ofText, hsplit, List.map_append]
  rfl

/-- The first line ends where the first line feed stands. -/
theorem head?_ofText (text : List Char) :
    (ofText text).head? = some (read (text.takeWhile (· != '\n'))) := by
  by_cases h : '\n' ∈ text
  · obtain ⟨line, rest, rfl, hline⟩ := List.eq_append_cons_of_mem h
    have hfront : ∀ c ∈ line, (c != '\n') = true := by
      intro c hc
      simpa using ne_of_mem_of_not_mem hc hline
    rw [ofText, List.splitOn_append_cons_self_of_not_mem hline,
      List.takeWhile_append_of_pos hfront]
    simp
  · have hall : ∀ c ∈ text, (c != '\n') = true := by
      intro c hc
      simpa using ne_of_mem_of_not_mem hc h
    rw [ofText, List.splitOn_eq_singleton h, List.takeWhile_eq_self_iff.2 hall]
    rfl

end DescriptionLine

/-! ## Attributes -/

namespace MediaSection

/-- Each attribute sets one field. -/
theorem applyAttribute_eq (m : MediaSection) (name : String) (value : List Char) :
    m.applyAttribute name value
      = { m with
          encoding :=
            if name = "rtpmap" then (m.ownValue? value).elim m.encoding readEncoding
            else m.encoding
          format :=
            if name = "fmtp" then
              (m.ownValue? value).elim m.format fun p => (p.splitOn ';').foldl addFormat m.format
            else m.format
          control :=
            if name = "control" then some (String.ofList (trim value)) else m.control } := by
  unfold applyAttribute
  split
  next => cases m.ownValue? value <;> simp
  next => cases m.ownValue? value <;> simp
  next => simp
  next hencoding hformat hcontrol => rw [if_neg hencoding, if_neg hformat, if_neg hcontrol]

theorem ownValue?_applyAttribute (m : MediaSection) (name : String) (value value' : List Char) :
    (m.applyAttribute name value).ownValue? value' = m.ownValue? value' := by
  rw [applyAttribute_eq]
  rfl

/-- Attributes with different names set different fields. -/
theorem applyAttribute_comm (m : MediaSection) {name name' : String} (h : name ≠ name')
    (value value' : List Char) :
    (m.applyAttribute name value).applyAttribute name' value'
      = (m.applyAttribute name' value').applyAttribute name value := by
  rw [applyAttribute_eq (m.applyAttribute name value),
    applyAttribute_eq (m.applyAttribute name' value'), ownValue?_applyAttribute,
    ownValue?_applyAttribute, applyAttribute_eq m name, applyAttribute_eq m name']
  congr 1
  · grind
  · grind
  · grind

end MediaSection

namespace SessionDescription

/-- At most one of two attributes with different names is a control attribute. -/
theorem control?_or_comm {name name' : String} (h : name ≠ name') (value value' : List Char)
    (control : Option String) :
    (DescriptionLine.attribute name' value').control?.or
        ((DescriptionLine.attribute name value).control?.or control)
      = (DescriptionLine.attribute name value).control?.or
        ((DescriptionLine.attribute name' value').control?.or control) := by
  by_cases hcontrol : name = "control"
  · rw [DescriptionLine.control?_attribute (hcontrol ▸ h.symm) value', Option.none_or,
      Option.none_or]
  · rw [DescriptionLine.control?_attribute hcontrol value, Option.none_or, Option.none_or]

theorem applyLine_comm (d : SessionDescription) {name name' : String} (h : name ≠ name')
    (value value' : List Char) :
    (d.applyLine (.attribute name value)).applyLine (.attribute name' value')
      = (d.applyLine (.attribute name' value')).applyLine (.attribute name value) := by
  have hmedia : ∀ name value, (DescriptionLine.attribute name value).isMedia = false :=
    fun _ _ => rfl
  obtain ⟨control, media⟩ := d
  rcases List.eq_nil_or_concat' media with rfl | ⟨before, m, rfl⟩
  · simp only [applyLine_session (hmedia _ _), control?_or_comm h value]
  · simp only [applyLine_section (hmedia _ _), MediaSection.applyLine, m.applyAttribute_comm h]

/-- Lines that follow each other are applied one after the other, wherever the text is cut between
them. -/
theorem foldl_ofText_append {before : List Char}
    (h : before = [] ∨ before.getLast? = some '\n') (after : List Char) (d : SessionDescription) :
    (DescriptionLine.ofText (before ++ after)).foldl applyLine d
      = (DescriptionLine.ofText after).foldl applyLine
        ((DescriptionLine.ofText before).foldl applyLine d) := by
  rcases h with rfl | hlast
  · rw [List.nil_append, DescriptionLine.ofText_nil, List.foldl_cons, applyLine_other,
      List.foldl_nil]
  · obtain ⟨lines, rfl⟩ := List.getLast?_eq_some_iff.1 hlast
    rw [List.append_assoc, List.singleton_append, DescriptionLine.ofText_append_lineFeed,
      DescriptionLine.ofText_append_lineFeed, List.foldl_append, List.foldl_append,
      DescriptionLine.ofText_nil, List.foldl_cons, applyLine_other, List.foldl_nil]

theorem parse_eq_foldl_ofText (text : String) :
    parse text = (DescriptionLine.ofText text.toList).foldl applyLine ⟨none, []⟩ :=
  ofLines_eq_foldl _

/-- Sections are the same behind whatever stands in front of them. -/
theorem parse_append {a b : String} (ha : a = "" ∨ a.toList.getLast? = some '\n')
    (hb : "m=".toList <+: trim (b.toList.takeWhile (· != '\n'))) :
    parse (a ++ b)
      = { control := (parse a).control, media := (parse a).media ++ (parse b).media } := by
  have hmedia : ∀ line ∈ (DescriptionLine.ofText b.toList).head?, line.isMedia = true := by
    intro line hline
    rw [DescriptionLine.head?_ofText] at hline
    obtain rfl := Option.some.inj hline
    exact DescriptionLine.isMedia_read hb
  have hsections : parse b = ⟨none, sections (DescriptionLine.ofText b.toList)⟩ :=
    (parse_eq_foldl_ofText b).trans (foldl_sections hmedia none [])
  rw [hsections, parse_eq_foldl_ofText (a ++ b), String.toList_append,
    foldl_ofText_append (ha.imp_left String.toList_eq_nil_iff.2), ← parse_eq_foldl_ofText,
    foldl_sections hmedia]

/-- Lines of different attributes may be exchanged, however the lines end. -/
theorem parse_exchanged {first second : List Char} {name name' : String}
    (hfirst : DescriptionLine.IsAttribute name first)
    (hsecond : DescriptionLine.IsAttribute name' second) (hne : name ≠ name')
    {before after : List (List Char)} {text text' : String}
    (hline : ∀ line ∈ before ++ first :: second :: after, '\n' ∉ line)
    (htext : Ended (before ++ first :: second :: after) text.toList)
    (htext' : Ended (before ++ second :: first :: after) text'.toList) :
    parse text = parse text' := by
  obtain ⟨value, hvalue⟩ := hfirst.read
  obtain ⟨value', hvalue'⟩ := hsecond.read
  have hperm := (List.Perm.swap first second after).append_left before
  have hline' : ∀ line ∈ before ++ second :: first :: after, '\n' ∉ line :=
    fun line hmem => hline line (hperm.subset hmem)
  rw [parse_eq_foldl htext hline, parse_eq_foldl htext' hline', List.map_append, List.map_append,
    List.foldl_append, List.foldl_append]
  simp only [List.map_cons, List.foldl_cons, hvalue, hvalue', applyLine_comm _ hne]

/-- A text in front of a section says nothing about it, and the section nothing about the session.
Within a section, or in front of all sections, attributes do not act on each other. -/
theorem parse_independent :
    (∀ a b : String, (a = "" ∨ a.toList.getLast? = some '\n') →
        "m=".toList <+: trim (b.toList.takeWhile (· != '\n')) →
        parse (a ++ b)
          = { control := (parse a).control, media := (parse a).media ++ (parse b).media })
      ∧ ∀ (before after : List (List Char)) (first second : List Char) (name name' : String)
        (text text' : String), (∀ line ∈ before ++ first :: second :: after, '\n' ∉ line) →
        DescriptionLine.IsAttribute name first → DescriptionLine.IsAttribute name' second →
        name ≠ name' →
        Ended (before ++ first :: second :: after) text.toList →
        Ended (before ++ second :: first :: after) text'.toList →
        parse text = parse text' :=
  ⟨fun _ _ ha hb => parse_append ha hb, fun _ _ _ _ _ _ _ _ hline hfirst hsecond hne htext htext' =>
    parse_exchanged hfirst hsecond hne hline htext htext'⟩

/-- Lines that end in both ways, and a section whose last line has no ending before or behind the
exchange. -/
theorem parse_independent_mixed :
    let session := "v=0\r\na=control:*\r\n"
    let audio := "m=audio 0 RTP/AVP 97\r\na=rtpmap:97 L16/8000\na=control:x"
    let exchanged := "m=audio 0 RTP/AVP 97\na=control:x\r\na=rtpmap:97 L16/8000"
    parse (session ++ audio)
        = { control := (parse session).control,
            media := (parse session).media ++ (parse audio).media }
      ∧ parse audio = parse exchanged := by
  intro session audio exchanged
  let media := "m=audio 0 RTP/AVP 97".toList
  let encoding := "a=rtpmap:97 L16/8000".toList
  let control := "a=control:x".toList
  have hencoding : DescriptionLine.IsAttribute "rtpmap" encoding :=
    ⟨by decide, .inr ⟨"97 L16/8000".toList, by decide⟩⟩
  have hcontrol : DescriptionLine.IsAttribute "control" control :=
    ⟨by decide, .inr ⟨"x".toList, by decide⟩⟩
  have haudio : audio.toList
      = media ++ '\r' :: '\n' :: (encoding ++ '\n' :: control) := by
    decide
  have hexchanged : exchanged.toList
      = media ++ '\n' :: (control ++ '\r' :: '\n' :: encoding) := by
    decide
  exact ⟨parse_independent.1 session audio (.inr (by decide)) (by decide),
    parse_independent.2 [media] [] encoding control "rtpmap" "control" audio exchanged (by decide)
      hencoding hcontrol (by decide) (haudio ▸ .crlf media (.lf encoding (.last control)))
      (hexchanged ▸ .lf media (.crlf control (.last encoding)))⟩

end SessionDescription

end Rtsp
