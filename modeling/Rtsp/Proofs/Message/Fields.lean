-- SUMMARY: What setting a field does to the other fields, and which fields are read back.
import Rtsp.Proofs.Message.Headers

/-!
# Setting fields

Setting a field changes the value of this field and of no other, and keeps the others in their
order (`Headers.get?_set_of_ne`, `Headers.filter_set`). Headers whose fields are read back stay so
when another such field is set (`Headers.Readable.set`).
-/

namespace Rtsp

namespace Text

theorem sameIgnoringCase_iff {a b : String} : sameIgnoringCase a b = true ↔ lower a = lower b :=
  beq_iff_eq

theorem sameIgnoringCase_comm (a b : String) : sameIgnoringCase a b = sameIgnoringCase b a := by
  apply Bool.eq_iff_iff.2
  rw [sameIgnoringCase_iff, sameIgnoringCase_iff]
  exact eq_comm

/-- What is the same as one name is the same as another only if both names are. -/
theorem sameIgnoringCase_congr {a b : String} (h : sameIgnoringCase a b = true) (c : String) :
    sameIgnoringCase a c = sameIgnoringCase b c := by
  have hab : lower a = lower b := sameIgnoringCase_iff.1 h
  unfold sameIgnoringCase
  rw [hab]

end Text

namespace Headers

open Text

/-! ## Look-up -/

theorem get?_set_of_ne {name other : String} (hne : sameIgnoringCase name other = false)
    (h : Headers) (value : String) : (h.set name value).get? other = h.get? other := by
  obtain ⟨es⟩ := h
  unfold get? set
  induction es with
  | nil => simp [setEntry, hne]
  | cons e es ih =>
    unfold setEntry
    by_cases hsame : sameIgnoringCase e.1 name = true
    · have hother : sameIgnoringCase e.1 other = false :=
        (sameIgnoringCase_congr hsame other).trans hne
      simp [hsame, hother]
    · by_cases hother : sameIgnoringCase e.1 other = true
      · simp [hsame, hother]
      · simpa [hsame, hother] using ih

theorem get?_setIfAbsent_self (h : Headers) (name value : String) :
    (h.setIfAbsent name value).get? name = some ((h.get? name).getD value) := by
  unfold setIfAbsent contains
  cases hget : h.get? name with
  | none => simpa using get?_set_self h name value
  | some old => simpa using hget

theorem get?_setIfAbsent_of_ne {name other : String} (hne : sameIgnoringCase name other = false)
    (h : Headers) (value : String) : (h.setIfAbsent name value).get? other = h.get? other := by
  unfold setIfAbsent
  split
  · rfl
  · exact get?_set_of_ne hne h value

/-- Only the length of the body is written anew. -/
theorem get?_received {name : String} (hne : sameIgnoringCase "Content-Length" name = false)
    (h : Headers) (body : Bytes) : (h.received body).get? name = h.get? name := by
  have hlength : (lengthField body).find? (fun e => sameIgnoringCase e.1 name) = none := by
    rw [List.find?_eq_none]
    intro e he
    rw [eq_of_mem_lengthField he]
    simp [hne]
  have hwritten : h.written.find? (fun e => sameIgnoringCase e.1 name)
      = h.entries.find? (fun e => sameIgnoringCase e.1 name) := by
    unfold written
    rw [List.find?_filter]
    congr 1
    funext e
    by_cases hsame : sameIgnoringCase e.1 name = true
    · have hother : isLength e = false := by
        unfold isLength
        rw [sameIgnoringCase_congr hsame, sameIgnoringCase_comm]
        exact hne
      simp [hsame, hother]
    · simp [hsame]
  unfold get? received
  rw [List.find?_append, hlength, Option.or_none, hwritten]

/-- A field that is found is written, if it is not the length of the body. -/
theorem exists_mem_written_of_get? {h : Headers} {name value : String}
    (hne : sameIgnoringCase "Content-Length" name = false) (hget : h.get? name = some value) :
    ∃ e ∈ h.written, e.2 = value := by
  obtain ⟨e, he, rfl⟩ := Option.map_eq_some_iff.1 hget
  have hsame := List.find?_some he
  have hother : isLength e = false := by
    unfold isLength
    rw [sameIgnoringCase_congr hsame, sameIgnoringCase_comm]
    exact hne
  exact ⟨e, List.mem_filter.2 ⟨List.mem_of_find?_eq_some he, by simp [hother]⟩, rfl⟩

/-! ## The other fields -/

/-- A field whose name is none of these. -/
def isOther (names : List String) (e : String × String) : Bool :=
  names.all fun name => !sameIgnoringCase e.1 name

theorem isOther_congr {names : List String} {e : String × String} {name : String}
    (hmem : name ∈ names) (hsame : sameIgnoringCase e.1 name = true) : isOther names e = false :=
  List.all_eq_false.2 ⟨name, hmem, by simp [hsame]⟩

/-- The fields of other names stay as they are. -/
theorem filter_set {names : List String} {name : String} (hmem : name ∈ names) (h : Headers)
    (value : String) :
    (h.set name value).entries.filter (isOther names) = h.entries.filter (isOther names) := by
  obtain ⟨es⟩ := h
  unfold set
  dsimp only
  induction es with
  | nil =>
    have hnew : isOther names (name, value) = false :=
      isOther_congr hmem (sameIgnoringCase_iff.2 rfl)
    simp [setEntry, hnew]
  | cons e es ih =>
    unfold setEntry
    by_cases hsame : sameIgnoringCase e.1 name = true
    · have hold : isOther names e = false := isOther_congr hmem hsame
      have hnew : isOther names (e.1, value) = false := isOther_congr hmem hsame
      simp [hsame, hold, hnew]
    · simp only [hsame, Bool.false_eq_true, if_false, List.filter_cons]
      rw [ih]

theorem filter_setIfAbsent {names : List String} {name : String} (hmem : name ∈ names)
    (h : Headers) (value : String) :
    (h.setIfAbsent name value).entries.filter (isOther names)
      = h.entries.filter (isOther names) := by
  unfold setIfAbsent
  split
  · rfl
  · exact filter_set hmem h value

theorem filter_received {names : List String} (hmem : "Content-Length" ∈ names) (h : Headers)
    (body : Bytes) :
    (h.received body).entries.filter (isOther names) = h.entries.filter (isOther names) := by
  have hlength : (lengthField body).filter (isOther names) = [] := by
    rw [List.filter_eq_nil_iff]
    intro e he
    have hother := isOther_congr (e := e) hmem
      (by rw [eq_of_mem_lengthField he]; exact sameIgnoringCase_iff.2 rfl)
    simp [hother]
  have hkept : ∀ e ∈ h.entries, isOther names e = true → isLength e = false := by
    intro e _ hother
    by_contra hlen
    rw [isOther_congr hmem (by simpa [isLength] using hlen)] at hother
    cases hother
  unfold received written
  rw [List.filter_append, hlength, List.append_nil, List.filter_filter]
  refine List.filter_congr fun e he => ?_
  cases hother : isOther names e with
  | false => simp
  | true => simp [hkept e he hother]

/-! ## Fields that are read back -/

/-- Headers whose fields are read back, whatever their length. -/
structure Readable (h : Headers) : Prop where
  fields : ∀ e ∈ h.entries, IsField e
  distinct : Distinct h.entries

theorem isField_setEntry {name value : String} {es : List (String × String)}
    (h : ∀ e ∈ es, IsField e) (hnew : IsField (name, value)) :
    ∀ e ∈ setEntry name value es, IsField e := by
  have hvalue : IsValue value := ⟨hnew.value_trimmed, hnew.lineFeed_not_mem_value⟩
  induction es with
  | nil =>
    intro e he
    rw [List.mem_singleton.1 he]
    exact hnew
  | cons f es ih =>
    have hf := h f List.mem_cons_self
    have hes : ∀ e ∈ es, IsField e := fun e he => h e (List.mem_cons_of_mem _ he)
    intro e he
    unfold setEntry at he
    split at he
    · rcases List.mem_cons.1 he with rfl | he
      · exact hf.with_value hvalue
      · exact hes e he
    · rcases List.mem_cons.1 he with rfl | he
      · exact hf
      · exact ih hes e he

theorem readable_empty : Readable {} where
  fields _ he := absurd he List.not_mem_nil
  distinct := List.Pairwise.nil

theorem Readable.set {h : Headers} (hr : h.Readable) {name value : String}
    (hnew : IsField (name, value)) : (h.set name value).Readable :=
  ⟨isField_setEntry hr.fields hnew, hr.distinct.setEntry name value⟩

theorem Readable.setIfAbsent {h : Headers} (hr : h.Readable) {name value : String}
    (hnew : IsField (name, value)) : (h.setIfAbsent name value).Readable := by
  unfold Headers.setIfAbsent
  split
  · exact hr
  · exact hr.set hnew

theorem isValue_trim {cs : List Char} (h : '\n' ∉ cs) : IsValue (String.ofList (trim cs)) := by
  unfold IsValue
  rw [String.toList_ofList]
  exact ⟨trim_trim cs, fun hmem => h ((trim_sublist cs).subset hmem)⟩

/-- A line without a line feed adds a field that is read back, or none. -/
theorem Readable.addLine {h : Headers} (hr : h.Readable) {line : String}
    (hline : '\n' ∉ line.toList) : (h.addLine line).Readable := by
  unfold Headers.addLine addLine?
  cases hcut : cut ':' line.toList with
  | none => exact hr
  | some parts =>
    obtain ⟨name, value⟩ := parts
    obtain ⟨hcolon, hparts⟩ := eq_append_of_cut hcut
    have hname : '\n' ∉ name := fun hmem => hline (hparts ▸ List.mem_append_left _ hmem)
    have hvalue : '\n' ∉ value := fun hmem =>
      hline (hparts ▸ List.mem_append_right _ (List.mem_cons_of_mem _ hmem))
    have hkept : (trim name).Sublist name := trim_sublist name
    dsimp only
    split
    · exact hr
    next hne =>
      have hnew : IsField (String.ofList (trim name), "") :=
        { name_ne_nil := by simpa using hne
          name_trimmed := by simpa using trim_trim name
          colon_not_mem := by simpa using fun hmem => hcolon (hkept.subset hmem)
          lineFeed_not_mem_name := by simpa using fun hmem => hname (hkept.subset hmem)
          value_trimmed := rfl
          lineFeed_not_mem_value := List.not_mem_nil }
      exact hr.set (hnew.with_value (isValue_trim hvalue))

/-! ## Sequence numbers -/

theorem isField_cseq (n : UInt32) : IsField ("CSeq", toString n.toNat) := by
  have hname : IsField ("CSeq", "") := by decide
  exact hname.with_value (isValue_numeral _)

theorem cseq?_of_get? {h : Headers} {n : UInt32} (hget : h.get? "CSeq" = some (toString n.toNat)) :
    h.cseq? = some n := by
  have hread : readDecimal UInt32.size (Nat.toDigits 10 n.toNat) = some n.toNat :=
    readDecimal_toDigits n.toNat_lt
  unfold cseq? readUInt32
  simp [hget, hread]

end Headers
end Rtsp
