-- SUMMARY: What fields say depends neither on their order nor on their spelling.
import Rtsp.Proofs.Authorization.Digest
import Rtsp.Proofs.Authorization.Scan

/-!
# Spelling

Fields can be written in many ways: with white space around keys, values and commas, with quotes
around a value or without, and in any order. A reader finds the same keys and values in all of them
(`Authorization.readFields_spell`). Challenges and authorizations are looked at through their fields
alone, so they mean the same in any order and any spelling (`Authorization.scanFields_spelled`).
-/

namespace Rtsp

open Text

namespace Authorization

/-! ## One field -/

/-- A field in one of the ways in which it can be written. -/
structure Spelling where
  key : String
  value : String
  /-- Whether quotes stand around the value. -/
  quoted : Bool := true
  beforeKey : String := ""
  afterKey : String := ""
  beforeValue : String := ""
  afterValue : String := ""
  trimmed : trim key.toList = key.toList := by decide
  marks : '=' ∉ key.toList ∧ ',' ∉ key.toList ∧ '"' ∉ key.toList := by decide
  quote : '"' ∉ value.toList := by decide
  /-- White space at the ends of a value and commas in it need quotes. -/
  bare : quoted = false → trim value.toList = value.toList ∧ ',' ∉ value.toList := by decide
  blanks : [beforeKey, afterKey, beforeValue, afterValue].all (·.toList.all isBlank) := by decide

namespace Spelling

/-- The value with its quotes. -/
def written (s : Spelling) : String :=
  if s.quoted then "\"" ++ s.value ++ "\"" else s.value

def text (s : Spelling) : String :=
  s.beforeKey ++ s.key ++ s.afterKey ++ "=" ++ s.beforeValue ++ s.written ++ s.afterValue

/-- What the field says. The case of its key means nothing. -/
def entry (s : Spelling) : String × String :=
  (lower s.key, s.value)

theorem toList_text (s : Spelling) :
    s.text.toList
      = (s.beforeKey.toList ++ (s.key.toList ++ s.afterKey.toList))
        ++ '=' :: (s.beforeValue.toList ++ (s.written.toList ++ s.afterValue.toList)) := by
  simp [text]

theorem forall_isBlank (s : Spelling) :
    (∀ c ∈ s.beforeKey.toList, isBlank c) ∧ (∀ c ∈ s.afterKey.toList, isBlank c)
      ∧ (∀ c ∈ s.beforeValue.toList, isBlank c) ∧ ∀ c ∈ s.afterValue.toList, isBlank c := by
  have hblanks := s.blanks
  simp only [List.all_eq_true, List.forall_mem_cons] at hblanks
  obtain ⟨hbefore, hafter, hfront, hback, -⟩ := hblanks
  exact ⟨hbefore, hafter, hfront, hback⟩

theorem toList_written_of_quoted {s : Spelling} (h : s.quoted = true) :
    s.written.toList = '"' :: (s.value.toList ++ ['"']) := by
  simp [written, h]

theorem written_of_bare {s : Spelling} (h : s.quoted = false) : s.written = s.value := by
  simp [written, h]

/-- White space inside the quotes belongs to the value, and the quotes do not. -/
theorem stripChar_trim_written (s : Spelling) :
    stripChar '"' (trim s.written.toList) = s.value.toList := by
  cases hquoted : s.quoted with
  | true =>
    rw [toList_written_of_quoted hquoted, (isFramed_quoted _).trim_eq]
    exact stripChar_quoted s.quote
  | false =>
    rw [written_of_bare hquoted, (s.bare hquoted).1]
    exact stripChar_of_not_mem s.quote

/-- A reader takes the key and the value from a field, and nothing else. -/
theorem addField_text (s : Spelling) (fields : Params) :
    addField fields s.text.toList = fields.insert s.entry.1 s.entry.2 := by
  obtain ⟨hbefore, hafter, hfront, hback⟩ := s.forall_isBlank
  have hequals : '=' ∉ s.beforeKey.toList ++ (s.key.toList ++ s.afterKey.toList) := by
    simp only [List.mem_append, not_or]
    exact ⟨fun hmem => (ne_of_isBlank (hbefore _ hmem)).1 rfl, s.marks.1,
      fun hmem => (ne_of_isBlank (hafter _ hmem)).1 rfl⟩
  rw [toList_text, addField_eq hequals, trim_append_blanks hbefore, trim_append_of_blanks hafter,
    s.trimmed, trim_append_blanks hfront, trim_append_of_blanks hback, s.stripChar_trim_written,
    String.ofList_toList, String.ofList_toList]
  rfl

theorem closed_written (s : Spelling) : Closed s.written.toList := by
  cases hquoted : s.quoted with
  | true =>
    rw [toList_written_of_quoted hquoted]
    exact .quoted s.quote .nil
  | false =>
    rw [written_of_bare hquoted]
    refine closed_of_forall fun c hc => ⟨?_, ?_⟩
    · exact ne_of_mem_of_not_mem hc (s.bare hquoted).2
    · exact ne_of_mem_of_not_mem hc s.quote

/-- The commas of a field stand between its quotes. -/
theorem closed_text (s : Spelling) : Closed s.text.toList := by
  obtain ⟨hbefore, hafter, hfront, hback⟩ := s.forall_isBlank
  have hkey : Closed s.key.toList := closed_of_forall fun c hc =>
    ⟨ne_of_mem_of_not_mem hc s.marks.2.1, ne_of_mem_of_not_mem hc s.marks.2.2⟩
  rw [toList_text]
  refine ((closed_of_blanks hbefore).append (hkey.append (closed_of_blanks hafter))).append ?_
  refine .plain (by decide) (by decide) ?_
  exact (closed_of_blanks hfront).append (s.closed_written.append (closed_of_blanks hback))

end Spelling

/-! ## All fields -/

/-- Fields with a comma between each two. The white space around it belongs to the fields. -/
def spell (ss : List Spelling) : String :=
  String.intercalate "," (ss.map Spelling.text)

theorem toList_spell (ss : List Spelling) :
    (spell ss).toList = List.intercalate [','] (ss.map (·.text.toList)) := by
  rw [spell, String.toList_intercalate, List.map_map]
  rfl

theorem map_fst_entry (ss : List Spelling) :
    (ss.map Spelling.entry).map Prod.fst = ss.map fun s => lower s.key := by
  rw [List.map_map]
  rfl

theorem foldl_addField_text (ss : List Spelling) (fields : Params) :
    (ss.map (·.text.toList)).foldl addField fields
      = (ss.map Spelling.entry).foldl (fun fields e => fields.insert e.1 e.2) fields := by
  rw [List.foldl_map, List.foldl_map]
  simp only [Spelling.addField_text]

/-- Fields with different keys are read one by one. -/
theorem readFields_spell {ss : List Spelling} (hdistinct : (ss.map fun s => lower s.key).Nodup) :
    readFields (spell ss).toList = ⟨ss.map Spelling.entry⟩ := by
  rw [← map_fst_entry] at hdistinct
  have hset : (ss.map (·.text.toList)).foldl addField {} = ⟨ss.map Spelling.entry⟩ := by
    rw [foldl_addField_text]
    exact @Params.foldl_insert_append [] _ hdistinct
  rw [toList_spell, readFields]
  by_cases hne : ss = []
  · subst hne
    rfl
  · have hclosed : ∀ part ∈ ss.map (·.text.toList), Closed part :=
      List.forall_mem_map.2 fun s _ => s.closed_text
    rw [splitUnquoted_intercalate (by simpa using hne) hclosed, hset]

/-- The order and the spelling of the fields make no difference to a look-up. -/
theorem get?_readFields_spell {ss ts : List Spelling}
    (hdistinct : (ss.map fun s => lower s.key).Nodup)
    (hperm : (ts.map Spelling.entry).Perm (ss.map Spelling.entry)) :
    (readFields (spell ts).toList).get? = (readFields (spell ss).toList).get? := by
  have hkeys : ((ts.map Spelling.entry).map Prod.fst).Nodup := by
    rw [← map_fst_entry] at hdistinct
    exact (hperm.map Prod.fst).nodup_iff.2 hdistinct
  rw [readFields_spell hdistinct, readFields_spell (map_fst_entry ts ▸ hkeys)]
  exact Params.get?_of_perm hkeys hperm

/-! ## Header values -/

/-- A header value with these fields under a scheme, and white space on both sides of the scheme. -/
def IsSpelled (value scheme : String) (ss : List Spelling) : Prop :=
  ∃ lead gap : String, lead.toList.all isBlank ∧ gap.toList.all isBlank ∧ gap ≠ ""
    ∧ value = lead ++ scheme ++ gap ++ spell ss

/-- Two header values with the same scheme and the same fields. -/
structure Agree (value value' : String) : Prop where
  scheme : (splitScheme value').1 = (splitScheme value).1
  fields : (readFields (splitScheme value').2).get? = (readFields (splitScheme value).2).get?

/-- The scheme is found, and behind it the fields. -/
theorem IsSpelled.splitScheme_eq {value scheme : String} {ss : List Spelling}
    (h : IsSpelled value scheme ss) (hscheme : IsWord scheme.toList) :
    (splitScheme value).1 = scheme
      ∧ readFields (splitScheme value).2 = readFields (spell ss).toList := by
  obtain ⟨lead, gap, hlead, hblanks, hne, rfl⟩ := h
  rw [List.all_eq_true] at hlead hblanks
  have hvalue : (lead ++ scheme ++ gap ++ spell ss).toList
      = lead.toList ++ (scheme.toList ++ (gap.toList ++ (spell ss).toList)) := by simp
  have hgap : gap.toList ≠ [] := by simpa using hne
  rw [splitScheme_of_blanks hlead hscheme hblanks hgap hvalue]
  exact ⟨String.ofList_toList, readFields_trimmed _⟩

theorem agree_of_perm {ss ts : List Spelling} (hdistinct : (ss.map fun s => lower s.key).Nodup)
    (hperm : (ts.map Spelling.entry).Perm (ss.map Spelling.entry)) {scheme value value' : String}
    (hscheme : IsWord scheme.toList) (hvalue : IsSpelled value scheme ss)
    (hvalue' : IsSpelled value' scheme ts) : Agree value value' := by
  obtain ⟨hfirst, hfields⟩ := hvalue.splitScheme_eq hscheme
  obtain ⟨hfirst', hfields'⟩ := hvalue'.splitScheme_eq hscheme
  refine ⟨hfirst'.trans hfirst.symm, ?_⟩
  rw [hfields, hfields', get?_readFields_spell hdistinct hperm]

end Authorization

open Authorization

/-! ## Reading through the fields alone -/

theorem DigestAuth.ofFields_congr {fields fields' : Params} (h : fields'.get? = fields.get?)
    (credentials : Credentials) (draws : Draws) :
    ofFields credentials fields' draws = ofFields credentials fields draws := by
  unfold ofFields
  rw [h]

theorem DigestAuth.accepts_congr {fields fields' : Params} (h : fields'.get? = fields.get?)
    (d : DigestAuth) (r : Request) : d.accepts r fields' = d.accepts r fields := by
  unfold accepts readProtection?
  rw [h]

namespace Authorization

variable {value value' : String}

theorem Agree.ofChallenge_eq (h : Agree value value') (credentials : Credentials) (draws : Draws) :
    Authentication.ofChallenge credentials value' draws
      = Authentication.ofChallenge credentials value draws := by
  unfold Authentication.ofChallenge
  simp only [h.scheme, h.fields, DigestAuth.ofFields_congr h.fields]

theorem Agree.isValid_eq (h : Agree value value') (d : DigestAuth) {r : Request}
    {headers : Headers} (hvalue : r.headers.get? "Authorization" = some value)
    (hvalue' : headers.get? "Authorization" = some value') :
    d.isValid { r with headers := headers } = d.isValid r := by
  -- Of the request itself only the method, the target and the body are looked at.
  have hsame (fields : Params) : d.accepts { r with headers := headers } fields
      = d.accepts r fields := rfl
  unfold DigestAuth.isValid
  simp only [hvalue, hvalue', h.scheme, hsame, DigestAuth.accepts_congr h.fields]

/-! ## Any order and any spelling -/

/-- A scan finds the keys and values that were written, and no others. In another order or another
spelling they make the same client out of the same random numbers, and they authorize the same
requests. -/
theorem scanFields_spelled {ss : List Spelling}
    (hdistinct : (ss.map fun s => lower s.key).Nodup) :
    (∃ fields, scanFields (spell ss) = some fields
        ∧ ∀ key value, fields.get? key = some value
          ↔ ∃ s ∈ ss, lower s.key = key ∧ s.value = value)
      ∧ ∀ ts : List Spelling, (ts.map Spelling.entry).Perm (ss.map Spelling.entry) →
        (∀ credentials draws,
          (scanFields (spell ts)).map (DigestAuth.ofFields credentials · draws)
            = (scanFields (spell ss)).map (DigestAuth.ofFields credentials · draws))
          ∧ ∀ scheme value value' : String, IsWord scheme.toList →
            IsSpelled value scheme ss → IsSpelled value' scheme ts →
            (∀ credentials draws, Authentication.ofChallenge credentials value' draws
              = Authentication.ofChallenge credentials value draws)
              ∧ ∀ (d : DigestAuth) (r : Request) (headers : Headers),
                r.headers.get? "Authorization" = some value →
                headers.get? "Authorization" = some value' →
                d.isValid { r with headers := headers } = d.isValid r := by
  constructor
  · refine ⟨⟨ss.map Spelling.entry⟩, ?_, fun key value => ?_⟩
    · rw [scanFields_eq, readFields_spell hdistinct]
    · rw [← map_fst_entry] at hdistinct
      rw [Params.get?_eq_some_iff hdistinct, List.mem_map]
      simp only [Spelling.entry, Prod.mk.injEq]
  · intro ts hperm
    refine ⟨fun credentials draws => ?_, fun scheme value value' hscheme hvalue hvalue' => ?_⟩
    · have hfields := get?_readFields_spell hdistinct hperm
      rw [scanFields_eq, scanFields_eq, Option.map_some, Option.map_some,
        DigestAuth.ofFields_congr hfields]
    · have hagree := agree_of_perm hdistinct hperm hscheme hvalue hvalue'
      exact ⟨hagree.ofChallenge_eq, fun d r headers => hagree.isValid_eq d⟩

/-- The answer of a client, and its fields from the last to the first in another spelling. -/
theorem scanFields_spelled_backwards :
    let d : DigestAuth :=
      { credentials := ⟨"admin", "secret"⟩, realm := "cam, hall", nonce := "4f1d" }
    let r : Request := { method := .describe, uri := "rtsp://cam/live" }
    let response := d.responseHash "admin" none r.method.token r.uri r.body
    let hquote : '"' ∉ response.toList :=
      DigestAuth.quote_not_mem_hexDigits DigestAuth.isHexDigit_of_mem_responseHash
    let ss : List Spelling :=
      [{ key := "username", value := "admin" },
        { key := "realm", value := "cam, hall", beforeKey := " " },
        { key := "nonce", value := "4f1d", beforeKey := " " },
        { key := "uri", value := "rtsp://cam/live", beforeKey := " " },
        { key := "response", value := response, beforeKey := " ", quote := hquote }]
    let ts : List Spelling :=
      [{ key := "response", value := response, quote := hquote },
        { key := "URI", value := "rtsp://cam/live", quoted := false, beforeKey := "\n\t" },
        { key := "Nonce", value := "4f1d", quoted := false, beforeValue := "\u3000" },
        { key := "realm", value := "cam, hall" },
        { key := "username", value := "admin", beforeKey := " ", afterValue := " " }]
    let value := d.answer 1 r.method.token r.uri r.body
    let value' := "\tDigest " ++ spell ts
    (ss.map fun s => lower s.key).Nodup ∧ (ts.map Spelling.entry).Perm (ss.map Spelling.entry)
      ∧ IsWord "Digest".toList ∧ IsSpelled value "Digest" ss ∧ IsSpelled value' "Digest" ts
      ∧ (∃ fields, scanFields (spell ss) = some fields ∧ fields.get? "realm" = some "cam, hall")
      ∧ d.isValid (r.setHeader "Authorization" value) = true
      ∧ d.isValid (r.setHeader "Authorization" value') = true := by
  intro d r response hquote ss ts value value'
  have hdistinct : (ss.map fun s => lower s.key).Nodup := by
    decide
  have hperm : (ts.map Spelling.entry).Perm (ss.map Spelling.entry) := by
    have hreverse : ts.map Spelling.entry = (ss.map Spelling.entry).reverse := by
      have huri : lower "URI" = lower "uri" := by decide
      have hnonce : lower "Nonce" = lower "nonce" := by decide
      simp [ss, ts, Spelling.entry, huri, hnonce]
    rw [hreverse]
    exact List.reverse_perm _
  have hscheme : IsWord "Digest".toList := by decide
  have hvalue : IsSpelled value "Digest" ss := by
    refine ⟨"", " ", by decide, by decide, by decide, String.toList_injective ?_⟩
    simp [value, ss, DigestAuth.answer, DigestAuth.writeFields, quoted, DigestAuth.protection?,
      spell, Spelling.text, Spelling.written, d, r, response]
  have hvalue' : IsSpelled value' "Digest" ts := by
    refine ⟨"\t", " ", by decide, by decide, by decide, String.toList_injective ?_⟩
    simp [value']
  obtain ⟨⟨fields, hfields, hget⟩, hsame⟩ := scanFields_spelled hdistinct
  have hcarried (v : String) :
      (r.setHeader "Authorization" v).headers.get? "Authorization" = some v :=
    Headers.get?_set_self r.headers "Authorization" v
  have hwritable : d.IsWritable := ⟨rfl, rfl, by decide, by decide, by decide, by decide⟩
  have hvalid : d.isValid (r.setHeader "Authorization" value) = true :=
    (DigestAuth.isValid_iff_responseHash_eq hwritable (by decide) rfl rfl (hcarried value)).2
      ⟨beq_self_eq_true _, rfl, rfl⟩
  have hvalid' : d.isValid (r.setHeader "Authorization" value') = true :=
    (((hsame ts hperm).2 "Digest" value value' hscheme hvalue hvalue').2 d _ _ (hcarried value)
      (hcarried value')).trans hvalid
  exact ⟨hdistinct, hperm, hscheme, hvalue, hvalue',
    ⟨fields, hfields, (hget _ _).2 ⟨_, List.mem_cons_of_mem _ List.mem_cons_self, by decide, rfl⟩⟩,
    hvalid, hvalid'⟩

end Authorization
end Rtsp
