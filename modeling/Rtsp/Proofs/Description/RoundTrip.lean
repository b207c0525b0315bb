-- SUMMARY: Descriptions are read back as they are written, with other lines between their own.
import Rtsp.Proofs.Description.Attributes
import Rtsp.Proofs.Text.Base64

/-!
# Description round trip

Behind its media line a section may have its lines in any order, and others between them
(`MediaSection.IsWritten`). While they are read, what the section still lacks stands in the lines
that are still to be read (`MediaSection.IsCompletedBy`), so nothing is lacking at the end
(`MediaSection.IsCompletedBy.foldl_eq`). Sections follow one another, and in front of them stand the
lines of the session, of which only control attributes count (`SessionDescription.parse_written`).
-/

namespace Rtsp

open Text

/-! ## The session -/

namespace DescriptionLine

/-- The value of a line that is a control attribute. -/
def controlOf? (line : List Char) : Option String :=
  match dropLead? "a=control" (trim line) with
  | some [] => some ""
  | some (':' :: value) => some (String.ofList (trim value))
  | _ => none

theorem trim_eq_of_read_eq_attribute {line value : List Char} {name : String}
    (h : read line = .attribute name value) :
    trim line = 'a' :: '=' :: name.toList ∧ value = [] ∨ trim line = attributeLine name value := by
  unfold read at h
  split at h
  next => cases h
  next rest hcut =>
    have hline := (eq_append_of_cut hcut).2
    split at h
    next name value hname =>
      cases h
      right
      rw [hline, (eq_append_of_cut hname).2, attributeLine, String.toList_ofList]
      rfl
    next =>
      cases h
      left
      rw [hline, String.toList_ofList]
      exact ⟨rfl, rfl⟩
  next => cases h

theorem control?_read (line : List Char) : (read line).control? = controlOf? line := by
  unfold controlOf?
  split
  next hdrop => rw [read_of_trim_eq (eq_append_of_dropLead? hdrop)]; rfl
  next value hdrop => rw [read_of_trim_eq (eq_append_of_dropLead? hdrop)]; rfl
  next hflag hvalue =>
    cases hread : read line with
    | media value => rfl
    | other => rfl
    | _ name value =>
      by_cases hname : name = "control"
      · subst hname
        rcases trim_eq_of_read_eq_attribute hread with ⟨htrim, -⟩ | htrim
        · exact absurd (htrim ▸ dropLead?_append "a=control" []) hflag
        · exact absurd (htrim ▸ dropLead?_append "a=control" (':' :: value)) (hvalue value)
      · exact control?_attribute hname value

theorem not_isMedia_read {line : List Char} (h : ¬ "m=".toList <+: trim line) :
    (read line).isMedia = false := by
  unfold read
  split
  next value hcut => exact absurd ⟨value, (eq_append_of_cut hcut).2.symm⟩ h
  next => split <;> rfl
  next => rfl

theorem not_isMedia_attributeLine (name : String) (value : List Char) :
    (read (attributeLine name value)).isMedia = false := by
  refine not_isMedia_read fun hmedia => ?_
  rw [attributeLine, trim_cons_of_not_blank (by decide)] at hmedia
  simp at hmedia

end DescriptionLine

/-! ## A section -/

namespace MediaSection

variable {m s : MediaSection}

/-- The lines that may stand behind the media line of a section. -/
inductive IsLine (m : MediaSection) : List Char → Prop
  | encoding : IsLine m m.encodingLine
  | format : IsLine m m.formatLine
  | control {control : String} (h : m.control = some control) : IsLine m (controlLine control)
  | foreign {line : List Char} (h : IsForeign m.payloadType line) : IsLine m line

/-- A section as it is written. A line is missing only where it would say nothing new. -/
inductive IsWritten (m : MediaSection) : List (List Char) → Prop
  | intro {port protocol : List Char} {others body : List (List Char)}
    (words : ∀ w ∈ port :: protocol :: others, IsWord w)
    (lines : ∀ line ∈ body, m.IsLine line)
    (encoding : m.encoding = .ofPayloadType m.payloadType ∨ m.encodingLine ∈ body)
    (format : m.format = {} ∨ m.formatLine ∈ body)
    (control : ∀ control ∈ m.control, controlLine control ∈ body) :
    IsWritten m (m.mediaLine port protocol others :: body)

/-- What a section lacks of another stands in lines that are still to be read. -/
structure IsCompletedBy (s m : MediaSection) (lines : List (List Char)) : Prop where
  kind : s.kind = m.kind
  payloadType : s.payloadType = m.payloadType
  encoding : s.encoding = m.encoding ∨ m.encodingLine ∈ lines
  format : s.format = m.format ∨ s.format = {} ∧ m.formatLine ∈ lines
  control : s.control = m.control ∨ ∃ control ∈ m.control, controlLine control ∈ lines

/-- Each field is what it was, or what it is to be. -/
structure Approaches (m s s' : MediaSection) : Prop where
  kind : s'.kind = s.kind
  payloadType : s'.payloadType = s.payloadType
  encoding : s'.encoding = s.encoding ∨ s'.encoding = m.encoding
  format : s'.format = s.format ∨ s'.format = m.format
  control : s'.control = s.control ∨ s'.control = m.control

theorem IsCompletedBy.format_cases {lines : List (List Char)} (h : s.IsCompletedBy m lines) :
    s.format = {} ∨ s.format = m.format :=
  h.format.symm.imp_left And.left

theorem IsCompletedBy.approaches {lines : List (List Char)} {line : List Char}
    (h : s.IsCompletedBy m lines) (hm : m.WellFormed) (hline : m.IsLine line) :
    m.Approaches s (s.applyLine (.read line)) := by
  cases hline with
  | encoding =>
    rw [applyLine_encodingLine hm.encoding h.payloadType]
    exact ⟨rfl, rfl, .inr rfl, .inl rfl, .inl rfl⟩
  | format =>
    rw [applyLine_formatLine hm.format h.payloadType h.format_cases]
    exact ⟨rfl, rfl, .inl rfl, .inr rfl, .inl rfl⟩
  | control hcontrol =>
    rw [applyLine_controlLine (hm.control _ hcontrol)]
    exact ⟨rfl, rfl, .inl rfl, .inl rfl, .inr hcontrol.symm⟩
  | foreign hforeign =>
    rw [applyLine_foreign (h.payloadType ▸ hforeign)]
    exact ⟨rfl, rfl, .inl rfl, .inl rfl, .inl rfl⟩

/-- A line that is read completes the section as far as it can. -/
theorem IsCompletedBy.step {lines : List (List Char)} {line : List Char}
    (h : s.IsCompletedBy m (line :: lines)) (hm : m.WellFormed) (hline : m.IsLine line) :
    (s.applyLine (.read line)).IsCompletedBy m lines := by
  have happroach := h.approaches hm hline
  -- A field that is still lacking is set now, or its line stands among the later ones.
  constructor
  case kind => exact happroach.kind.trans h.kind
  case payloadType => exact happroach.payloadType.trans h.payloadType
  case encoding =>
    by_cases heq : m.encodingLine = line
    · left
      rw [← heq, applyLine_encodingLine hm.encoding h.payloadType]
    · rcases happroach.encoding with hsame | hset
      · rw [hsame]
        exact h.encoding.imp_right fun hmem => (List.mem_cons.1 hmem).resolve_left heq
      · exact .inl hset
  case format =>
    by_cases heq : m.formatLine = line
    · left
      rw [← heq, applyLine_formatLine hm.format h.payloadType h.format_cases]
    · rcases happroach.format with hsame | hset
      · rw [hsame]
        exact h.format.imp_right fun hlacks =>
          ⟨hlacks.1, (List.mem_cons.1 hlacks.2).resolve_left heq⟩
      · exact .inl hset
  case control =>
    rcases happroach.control with hsame | hset
    · rw [hsame]
      rcases h.control with hdone | ⟨control, hcontrol, hmem⟩
      · exact .inl hdone
      rcases List.mem_cons.1 hmem with heq | hlater
      · rw [← heq, applyLine_controlLine (hm.control _ hcontrol)] at hsame
        exact .inl (hsame.symm.trans hcontrol.symm)
      · exact .inr ⟨control, hcontrol, hlater⟩
    · exact .inl hset

theorem IsCompletedBy.eq (h : s.IsCompletedBy m []) : s = m := by
  obtain ⟨hkind, hpayload, hencoding, hformat, hcontrol⟩ := h
  simp only [List.not_mem_nil, or_false, and_false, exists_false] at hencoding hformat hcontrol
  obtain ⟨kind, payloadType, encoding, format, control⟩ := s
  obtain rfl := hkind
  obtain rfl := hpayload
  obtain rfl := hencoding
  obtain rfl := hformat
  obtain rfl := hcontrol
  rfl

/-- When all lines are read, the section is complete. -/
theorem IsCompletedBy.foldl_eq {lines : List (List Char)} (h : s.IsCompletedBy m lines)
    (hm : m.WellFormed) (hlines : ∀ line ∈ lines, m.IsLine line) :
    (lines.map DescriptionLine.read).foldl applyLine s = m := by
  induction lines generalizing s with
  | nil => exact h.eq
  | cons line lines ih =>
    rw [List.map_cons, List.foldl_cons]
    exact ih (h.step hm (hlines line List.mem_cons_self))
      fun l hl => hlines l (List.mem_cons_of_mem _ hl)

theorem IsLine.not_isMedia {line : List Char} (h : m.IsLine line) :
    (DescriptionLine.read line).isMedia = false := by
  cases h with
  | encoding => exact DescriptionLine.not_isMedia_attributeLine _ _
  | format => exact DescriptionLine.not_isMedia_attributeLine _ _
  | control => exact DescriptionLine.not_isMedia_attributeLine _ _
  | foreign hforeign =>
    cases hforeign with
    | named => exact DescriptionLine.not_isMedia_attributeLine _ _
    | flag hname => rw [DescriptionLine.read_flag hname]; rfl
    | payload => exact DescriptionLine.not_isMedia_attributeLine _ _
    | kind hmedia => exact DescriptionLine.not_isMedia_read hmedia

/-- Parameter sets are decoded from the parameter that lists their encodings. -/
theorem parameterSets_of_encoded {sets : List Bytes} (hne : sets ≠ [])
    (h : m.format.get? "sprop-parameter-sets"
      = some (String.ofList (List.intercalate [','] (sets.map Base64.encode)))) :
    m.parameterSets = sets := by
  have hsplit : (List.intercalate [','] (sets.map Base64.encode)).splitOn ','
      = sets.map Base64.encode := by
    refine List.splitOn_intercalate ',' (fun part hpart hmem => ?_) (by simpa using hne)
    obtain ⟨bytes, -, rfl⟩ := List.mem_map.1 hpart
    exact (Base64.not_blank_of_mem_encode hmem).2 rfl
  have hdecode : ∀ bytes, Base64.decode? (trim (Base64.encode bytes)) = some bytes := by
    intro bytes
    rw [trim_of_forall_not_blank fun c hc => (Base64.not_blank_of_mem_encode hc).1,
      Base64.decode?_encode]
  unfold parameterSets
  rw [h]
  dsimp only
  rw [String.toList_ofList, hsplit, List.filterMap_map]
  simp only [Function.comp_def, hdecode, List.filterMap_some]

end MediaSection

/-! ## Descriptions -/

namespace SessionDescription

open MediaSection

theorem foldl_isWritten {m : MediaSection} (hm : m.WellFormed) {lines : List (List Char)}
    (h : m.IsWritten lines) (control : Option String) (before : List MediaSection) :
    (lines.map DescriptionLine.read).foldl applyLine ⟨control, before⟩
      = ⟨control, before ++ [m]⟩ := by
  obtain @⟨port, protocol, others, body, hothers, hlines, hencoding, hformat, hcontrol⟩ := h
  have hwords := isWord_of_mem_mediaWords hm.kind hothers
  let opened := ofMediaLine (List.intercalate [' '] (m.mediaWords port protocol others))
  have hopened : opened.IsCompletedBy m body := by
    unfold opened
    rw [ofMediaLine_words hwords]
    constructor
    case kind => rfl
    case payloadType => rfl
    case encoding => exact hencoding.imp_left Eq.symm
    case format =>
      rcases hformat with hempty | hmem
      · exact .inl hempty.symm
      · exact .inr ⟨rfl, hmem⟩
    case control =>
      cases hc : m.control with
      | none => exact .inl rfl
      | some control => exact .inr ⟨control, rfl, hcontrol control hc⟩
  have hmedia : applyLine ⟨control, before⟩ (.read (m.mediaLine port protocol others))
      = ⟨control, before ++ [opened]⟩ := by
    rw [read_mediaLine hwords]
    rfl
  have hnot : ∀ line ∈ body.map DescriptionLine.read, line.isMedia = false := by
    intro line hline
    obtain ⟨l, hl, rfl⟩ := List.mem_map.1 hline
    exact (hlines l hl).not_isMedia
  rw [List.map_cons, List.foldl_cons, hmedia, foldl_section hnot, hopened.foldl_eq hm hlines]

theorem foldl_written {sections : List MediaSection} (hsections : ∀ m ∈ sections, m.WellFormed)
    {written : List (List (List Char))} (h : List.Forall₂ IsWritten sections written)
    (control : Option String) (before : List MediaSection) :
    (written.flatten.map DescriptionLine.read).foldl applyLine ⟨control, before⟩
      = ⟨control, before ++ sections⟩ := by
  induction h generalizing before with
  | nil => rw [List.append_nil]; rfl
  | cons hfirst _ ih =>
    rw [List.flatten_cons, List.map_append, List.foldl_append,
      foldl_isWritten (hsections _ List.mem_cons_self) hfirst,
      ih fun m hm => hsections m (List.mem_cons_of_mem _ hm), List.append_assoc,
      List.singleton_append]

/-- A description is read back as it is written: its sections in order, the last control attribute
of the session, and the parameter sets whose encodings a section lists. -/
theorem parse_written {sections : List MediaSection} {session : List (List Char)}
    {written : List (List (List Char))} {text : String}
    (hsections : ∀ m ∈ sections, m.WellFormed)
    (hsession : ∀ line ∈ session, ¬ "m=".toList <+: trim line)
    (hwritten : List.Forall₂ MediaSection.IsWritten sections written)
    (hline : ∀ line ∈ session ++ written.flatten, '\n' ∉ line)
    (htext : Ended (session ++ written.flatten) text.toList) :
    parse text = ⟨(session.filterMap DescriptionLine.controlOf?).getLast?, sections⟩
      ∧ ∀ m ∈ (parse text).media, ∀ sets : List Bytes, sets ≠ [] →
        m.format.get? "sprop-parameter-sets"
          = some (String.ofList (List.intercalate [','] (sets.map Base64.encode))) →
        m.parameterSets = sets := by
  have hnot : ∀ line ∈ session.map DescriptionLine.read, line.isMedia = false := by
    intro line hline
    obtain ⟨l, hl, rfl⟩ := List.mem_map.1 hline
    exact DescriptionLine.not_isMedia_read (hsession l hl)
  constructor
  · rw [parse_eq_foldl htext hline, List.map_append, List.foldl_append, foldl_session hnot,
      foldl_written hsections hwritten, List.filterMap_map, List.nil_append, Option.or_none]
    simp only [Function.comp_def, DescriptionLine.control?_read]
  · intro m _ sets hne hformat
    exact parameterSets_of_encoded hne hformat

/-- Lines end in both ways; those of the first section are out of order, with others between them,
and the second one needs none for its encoding. -/
theorem parse_written_mixed :
    let text := "v=0\r\na=control:*\r\nm=video 0 RTP/AVP 96 97\r\na=control:trackID=1\n" ++
      "a=fmtp:96 packetization-mode=1;sprop-parameter-sets=Z0IA,aM48gA==\r\nb=AS:500\r\n" ++
      "a=rtpmap:97 H265/90000\na=recvonly\r\na=rtpmap:96 H264/90000\r\nm=audio 5004 RTP/AVP 0"
    let video : MediaSection :=
      ⟨"video", 96, ⟨"H264", 90000, none⟩,
        ⟨[("packetization-mode", "1"), ("sprop-parameter-sets", "Z0IA,aM48gA==")]⟩,
        some "trackID=1"⟩
    let audio : MediaSection :=
      { kind := "audio", payloadType := 0, encoding := ⟨"PCMU", 8000, some 1⟩ }
    parse text = ⟨some "*", [video, audio]⟩
      ∧ video.parameterSets = [[0x67, 0x42, 0x00], [0x68, 0xCE, 0x3C, 0x80]] := by
  intro text video audio
  let session := ["v=0".toList, "a=control:*".toList]
  let own := [controlLine "trackID=1", video.formatLine, "b=AS:500".toList,
    attributeLine "rtpmap" (payloadValue 97 "H265/90000".toList), "a=recvonly".toList,
    video.encodingLine]
  let written := [video.mediaLine "0".toList "RTP/AVP".toList ["97".toList] :: own,
    [audio.mediaLine "5004".toList "RTP/AVP".toList []]]
  have hvideo : video.WellFormed :=
    ⟨by decide, ⟨by simp [video, isBlank], by decide⟩, ⟨by decide, by decide, by decide⟩,
      by decide⟩
  have haudio : audio.WellFormed :=
    ⟨by decide, ⟨by simp [audio, isBlank], by decide⟩, ⟨by decide, by decide, by decide⟩,
      by decide⟩
  have hown : ∀ line ∈ own, video.IsLine line := by
    intro line hline
    simp only [own, List.mem_cons, List.not_mem_nil, or_false] at hline
    rcases hline with rfl | rfl | rfl | rfl | rfl | rfl
    · exact .control rfl
    · exact .format
    · exact .foreign (.kind (by decide) (by decide))
    · exact .foreign (.payload (by decide) (by decide) _)
    · have hname : ':' ∉ "recvonly".toList := by decide
      exact .foreign (.flag hname (by decide))
    · exact .encoding
  have hwritten : List.Forall₂ MediaSection.IsWritten [video, audio] written :=
    .cons (.intro (by decide) hown (.inr (by simp [own])) (.inr (by simp [own]))
      (by simp [own, video]))
      (.cons (.intro (by decide) (by simp) (.inl rfl) (.inl rfl) (by simp [audio])) .nil)
  have htoList : text.toList = "v=0".toList ++ '\r' :: '\n' :: ("a=control:*".toList ++ '\r' :: '\n'
      :: (video.mediaLine "0".toList "RTP/AVP".toList ["97".toList] ++ '\r' :: '\n'
      :: (controlLine "trackID=1" ++ '\n' :: (video.formatLine ++ '\r' :: '\n'
      :: ("b=AS:500".toList ++ '\r' :: '\n'
      :: (attributeLine "rtpmap" (payloadValue 97 "H265/90000".toList) ++ '\n'
      :: ("a=recvonly".toList ++ '\r' :: '\n' :: (video.encodingLine ++ '\r' :: '\n'
      :: audio.mediaLine "5004".toList "RTP/AVP".toList [])))))))) := by
    rw [String.toList_append, String.toList_append]
    decide +kernel
  have htext : Ended (session ++ written.flatten) text.toList := by
    rw [htoList]
    exact .crlf _ (.crlf _ (.crlf _ (.lf _ (.crlf _ (.crlf _ (.lf _ (.crlf _ (.crlf _
      (.last _)))))))))
  have hsections : ∀ m ∈ [video, audio], m.WellFormed := by simp [hvideo, haudio]
  have hsession : ∀ line ∈ session, ¬ "m=".toList <+: trim line := by decide
  obtain ⟨hparse, hsets⟩ := parse_written hsections hsession hwritten (by decide) htext
  have hcontrol : (session.filterMap DescriptionLine.controlOf?).getLast? = some "*" := by decide
  refine ⟨by rw [hparse, hcontrol], hsets video (by simp [hparse]) _ (by simp) ?_⟩
  decide

end SessionDescription

end Rtsp
