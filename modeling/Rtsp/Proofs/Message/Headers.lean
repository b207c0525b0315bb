-- SUMMARY: Which headers are read back as they were written, and what becomes of the length field.
import Rtsp.Framing.Chunk
import Rtsp.Proofs.Text.Utf8
import Rtsp.Proofs.Text.Words

/-!
# Headers round trip

The fields that are written are those other than `Content-Length`, and for a non-empty body one
`Content-Length` behind them (`Headers.received`). The line of a well-formed field sets the field
(`Headers.addLine_fieldLine`), which under a new name puts it behind the others
(`Headers.set_of_distinct`), and the length that is read is the length of the body
(`Headers.contentLength?_received`).
-/

namespace Rtsp.Headers

open Text

/-! ## Fields -/

/-- A field that is read back as it was written: name and value are trimmed and end no line, and
the name is there and holds no colon. -/
structure IsField (e : String × String) : Prop where
  name_ne_nil : e.1.toList ≠ []
  name_trimmed : trim e.1.toList = e.1.toList
  colon_not_mem : ':' ∉ e.1.toList
  lineFeed_not_mem_name : '\n' ∉ e.1.toList
  value_trimmed : trim e.2.toList = e.2.toList
  lineFeed_not_mem_value : '\n' ∉ e.2.toList

instance (e : String × String) : Decidable (IsField e) :=
  decidable_of_iff (e.1.toList ≠ [] ∧ trim e.1.toList = e.1.toList ∧ ':' ∉ e.1.toList
      ∧ '\n' ∉ e.1.toList ∧ trim e.2.toList = e.2.toList ∧ '\n' ∉ e.2.toList)
    ⟨fun ⟨hne, hname, hcolon, hfeed, hvalue, hfeed'⟩ => ⟨hne, hname, hcolon, hfeed, hvalue, hfeed'⟩,
      fun h => ⟨h.name_ne_nil, h.name_trimmed, h.colon_not_mem, h.lineFeed_not_mem_name,
        h.value_trimmed, h.lineFeed_not_mem_value⟩⟩

/-- A field as a line, without the end of the line. -/
def fieldLine (e : String × String) : String :=
  e.1 ++ ": " ++ e.2

theorem toList_fieldLine (e : String × String) :
    (fieldLine e).toList = e.1.toList ++ ':' :: ' ' :: e.2.toList := by
  simp [fieldLine]

theorem encodeEntry_eq (e : String × String) :
    encodeEntry e = Utf8.encode (fieldLine e ++ "\r\n") := rfl

theorem length_value_add_le (e : String × String) :
    (Utf8.encode e.2).length + 4 ≤ (encodeEntry e).length := by
  have hfixed : (Utf8.encode ": ").length = 2 ∧ (Utf8.encode "\r\n").length = 2 := by decide
  rw [encodeEntry_eq]
  simp only [fieldLine, Utf8.encode_append, List.length_append]
  omega

/-- The line of a field sets the field. -/
theorem addLine_fieldLine {e : String × String} (he : IsField e) (h : Headers) :
    h.addLine (fieldLine e) = h.set e.1 e.2 := by
  have hcut : cut ':' (fieldLine e).toList = some (e.1.toList, ' ' :: e.2.toList) := by
    rw [toList_fieldLine, cut_append he.colon_not_mem]
  have hvalue : trim (' ' :: e.2.toList) = e.2.toList := by
    rw [trim_cons_blank (by decide), he.value_trimmed]
  have hname : e.1.toList.isEmpty = false := List.isEmpty_eq_false_iff.2 he.name_ne_nil
  simp only [addLine, addLine?, hcut, hvalue, he.name_trimmed, hname, String.ofList_toList]
  rfl

theorem lineFeed_not_mem_fieldLine {e : String × String} (he : IsField e) :
    '\n' ∉ (fieldLine e).toList := by
  simp [toList_fieldLine, he.lineFeed_not_mem_name, he.lineFeed_not_mem_value]

theorem fieldLine_ne_empty (e : String × String) : (fieldLine e).isEmpty = false := by
  rw [Bool.eq_false_iff, ne_eq, String.isEmpty_iff, ← String.toList_eq_nil_iff, toList_fieldLine]
  simp

/-- A value that is read back as it was written. -/
def IsValue (value : String) : Prop :=
  trim value.toList = value.toList ∧ '\n' ∉ value.toList

instance (value : String) : Decidable (IsValue value) :=
  inferInstanceAs (Decidable (_ ∧ _))

/-- Another value makes another field. -/
theorem IsField.with_value {name old value : String} (h : IsField (name, old))
    (hvalue : IsValue value) : IsField (name, value) :=
  ⟨h.name_ne_nil, h.name_trimmed, h.colon_not_mem, h.lineFeed_not_mem_name, hvalue.1, hvalue.2⟩

/-- A text without white space. -/
def IsSolid (s : String) : Prop :=
  ∀ c ∈ s.toList, isBlank c = false

-- Deciding over the characters of the text, and not over all characters there are.
instance (s : String) : Decidable (IsSolid s) :=
  List.decidableBAll _ _

theorem IsSolid.append {s t : String} (hs : IsSolid s) (ht : IsSolid t) : IsSolid (s ++ t) := by
  intro c hc
  rw [String.toList_append] at hc
  exact (List.mem_append.1 hc).elim (hs c) (ht c)

theorem isSolid_numeral (n : Nat) : IsSolid (toString n) := by
  intro c hc
  have hdigit : c ∈ Nat.toDigits 10 n := by simpa using hc
  exact isBlank_of_isDigit (isDigit_of_mem_toDigits hdigit)

theorem IsSolid.isValue {s : String} (h : IsSolid s) : IsValue s := by
  refine ⟨trim_of_forall_not_blank h, ?_⟩
  intro hfeed
  exact absurd (h _ hfeed) (by decide)

theorem isValue_numeral (n : Nat) : IsValue (toString n) :=
  (isSolid_numeral n).isValue

/-- The line of a number is short. -/
theorem length_encodeEntry_numeral {name : String} {n : Nat} (hname : name.length ≤ 64)
    (hn : n < 10 ^ 20) : (encodeEntry (name, toString n)).length ≤ Line.limit := by
  have hdigits : (Nat.toDigits 10 n).length ≤ 20 :=
    (Nat.length_toDigits_le_iff (by decide) (by decide)).2 hn
  have hbytes := Utf8.length_encode_le (fieldLine (name, toString n) ++ "\r\n")
  have hlength : (fieldLine (name, toString n) ++ "\r\n").length
      = name.length + 4 + (Nat.toDigits 10 n).length := by
    rw [← String.length_toList, ← @String.length_toList name]
    simp [fieldLine]
    omega
  rw [encodeEntry_eq]
  simp only [Line.limit]
  omega

/-! ## Lists of fields -/

theorem setEntry_of_forall_ne {name value : String} {es : List (String × String)}
    (h : ∀ e ∈ es, sameIgnoringCase e.1 name = false) :
    setEntry name value es = es ++ [(name, value)] := by
  induction es with
  | nil => rfl
  | cons e es ih =>
    have hes := ih fun f hf => h f (List.mem_cons_of_mem _ hf)
    simp [setEntry, h e List.mem_cons_self, hes]

/-- What is set is found. -/
theorem get?_set_self (h : Headers) (name value : String) :
    (h.set name value).get? name = some value := by
  obtain ⟨es⟩ := h
  unfold get? set
  induction es with
  | nil => simp [setEntry, sameIgnoringCase]
  | cons e es ih =>
    unfold setEntry
    by_cases hsame : sameIgnoringCase e.1 name = true
    · simp [hsame]
    · simpa [hsame] using ih

/-- No two fields have the same name. -/
def Distinct (es : List (String × String)) : Prop :=
  es.Pairwise fun a b => sameIgnoringCase a.1 b.1 = false

theorem set_of_distinct {before after : List (String × String)} {e : String × String}
    (h : Distinct (before ++ e :: after)) : set ⟨before⟩ e.1 e.2 = ⟨before ++ [e]⟩ := by
  have hbefore : ∀ f ∈ before, sameIgnoringCase f.1 e.1 = false := fun f hf =>
    (List.pairwise_append.1 h).2.2 f hf e List.mem_cons_self
  rw [set, setEntry_of_forall_ne hbefore]

theorem exists_mem_of_get? {h : Headers} {name value : String} (hget : h.get? name = some value) :
    ∃ e ∈ h.entries, sameIgnoringCase e.1 name := by
  obtain ⟨e, he, -⟩ := Option.map_eq_some_iff.1 hget
  have hsame := List.find?_some he
  exact ⟨e, List.mem_of_find?_eq_some he, hsame⟩

/-- Overwriting keeps every field where it stands. -/
theorem setEntry_of_mem {name value : String} {es : List (String × String)} (h : Distinct es)
    (hmem : ∃ e ∈ es, sameIgnoringCase e.1 name) :
    setEntry name value es
      = es.map fun e => if sameIgnoringCase e.1 name then (e.1, value) else e := by
  induction es with
  | nil => simp at hmem
  | cons e es ih =>
    obtain ⟨he, hes⟩ := List.pairwise_cons.1 h
    by_cases hsame : sameIgnoringCase e.1 name
    · have hothers : ∀ f ∈ es, sameIgnoringCase f.1 name = false := by
        intro f hf
        have hne := he f hf
        simp only [sameIgnoringCase, beq_iff_eq, beq_eq_false_iff_ne, ne_eq] at hsame hne ⊢
        exact fun hfsame => hne (hsame.trans hfsame.symm)
      have hkept : es.map (fun f => if sameIgnoringCase f.1 name then (f.1, value) else f) = es :=
        (List.map_congr_left fun f hf => by simp [hothers f hf]).trans (List.map_id es)
      simp [setEntry, hsame, hkept]
    · obtain ⟨f, hf, hfsame⟩ := hmem
      have hrest : f ∈ es := (List.mem_cons.1 hf).resolve_left fun hfe => hsame (hfe ▸ hfsame)
      simp [setEntry, hsame, ih hes ⟨f, hrest, hfsame⟩]

theorem Distinct.setEntry {es : List (String × String)} (h : Distinct es) (name value : String) :
    Distinct (setEntry name value es) := by
  by_cases hmem : ∃ e ∈ es, sameIgnoringCase e.1 name
  · rw [setEntry_of_mem h hmem]
    refine List.pairwise_map.2 (h.imp fun {a b} hab => ?_)
    split <;> split <;> exact hab
  · have hnone : ∀ e ∈ es, sameIgnoringCase e.1 name = false := by simpa using hmem
    rw [setEntry_of_forall_ne hnone]
    refine List.pairwise_append.2 ⟨h, List.pairwise_singleton _ _, fun e he f hf => ?_⟩
    rw [List.mem_singleton.1 hf]
    exact hnone e he

/-! ## What arrives -/

def isLength (e : String × String) : Bool :=
  sameIgnoringCase e.1 "Content-Length"

/-- The fields that are written as they are: the length is written from the body. -/
def written (h : Headers) : List (String × String) :=
  h.entries.filter (!isLength ·)

/-- The field that declares the length of a body, which an empty body does not need. -/
def lengthField (body : Bytes) : List (String × String) :=
  if body.isEmpty then [] else [("Content-Length", toString body.length)]

/-- Headers as the reader of a message with this body sees them. -/
def received (h : Headers) (body : Bytes) : Headers :=
  ⟨h.written ++ lengthField body⟩

theorem encodeRest_eq (h : Headers) (body : Bytes) :
    encodeRest h body
      = (h.received body).entries.flatMap encodeEntry ++ (Utf8.encode "\r\n" ++ body) := by
  have hlength : (lengthField body).flatMap encodeEntry
      = if body.isEmpty then []
        else Utf8.encode ("Content-Length: " ++ toString body.length ++ "\r\n") := by
    unfold lengthField
    split
    · rfl
    · simp [encodeEntry_eq, fieldLine]
  rw [received, List.flatMap_append, hlength]
  simp [encodeRest, encode, written, isLength]

theorem get?_received_length (h : Headers) (body : Bytes) :
    (h.received body).get? "Content-Length"
      = if body.isEmpty then none else some (toString body.length) := by
  have hnone : h.written.find? (fun e => sameIgnoringCase e.1 "Content-Length") = none := by
    rw [List.find?_eq_none]
    intro e he
    simpa [isLength] using (List.mem_filter.1 he).2
  unfold get? received lengthField
  rw [List.find?_append, hnone]
  split
  · rfl
  · simp [sameIgnoringCase]

theorem eq_of_mem_lengthField {body : Bytes} {e : String × String} (he : e ∈ lengthField body) :
    e = ("Content-Length", toString body.length) := by
  unfold lengthField at he
  split at he
  · cases he
  · exact List.mem_singleton.1 he

theorem isField_length (n : Nat) : IsField ("Content-Length", toString n) := by
  have hname : IsField ("Content-Length", "") := by decide
  exact hname.with_value (isValue_numeral n)

theorem length_encodeEntry_length {n : Nat} (h : n ≤ Chunk.bodyLimit) :
    (encodeEntry ("Content-Length", toString n)).length ≤ Line.limit :=
  length_encodeEntry_numeral (by decide) (Nat.lt_of_le_of_lt h (by decide))

/-- The length that is declared is the length of the body. -/
theorem contentLength?_received (h : Headers) {body : Bytes} (hb : body.length < UInt64.size) :
    (h.received body).contentLength? = some body.length := by
  rw [contentLength?, get?_received_length]
  cases body with
  | nil => rfl
  | cons b body =>
    simpa using readDecimal_toDigits hb

theorem isField_received {h : Headers} (hfields : ∀ e ∈ h.entries, IsField e) {body : Bytes}
    {e : String × String} (he : e ∈ (h.received body).entries) : IsField e := by
  rcases List.mem_append.1 he with he | he
  · exact hfields e (List.mem_filter.1 he).1
  · exact eq_of_mem_lengthField he ▸ isField_length body.length

theorem distinct_received {h : Headers} (hdistinct : Distinct h.entries) (body : Bytes) :
    Distinct (h.received body).entries := by
  refine List.pairwise_append.2 ⟨hdistinct.filter _, ?_, ?_⟩
  · unfold lengthField
    split
    · exact List.Pairwise.nil
    · exact List.pairwise_singleton _ _
  · intro e he f hf
    have hne : sameIgnoringCase e.1 "Content-Length" = false := by
      simpa [isLength] using (List.mem_filter.1 he).2
    rw [eq_of_mem_lengthField hf]
    exact hne

/-- Headers that are read back: their fields are, no two have the same name, and each that is
written fits into a line. -/
structure WellFormed (h : Headers) : Prop where
  fields : ∀ e ∈ h.entries, IsField e
  distinct : Distinct h.entries
  fits : ∀ e ∈ h.written, (encodeEntry e).length ≤ Line.limit

theorem WellFormed.fits_received {h : Headers} (hw : h.WellFormed) {body : Bytes}
    (hb : body.length ≤ Chunk.bodyLimit) {e : String × String}
    (he : e ∈ (h.received body).entries) : (encodeEntry e).length ≤ Line.limit := by
  rcases List.mem_append.1 he with he | he
  · exact hw.fits e he
  · exact eq_of_mem_lengthField he ▸ length_encodeEntry_length hb

end Rtsp.Headers
