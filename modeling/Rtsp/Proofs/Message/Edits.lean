-- SUMMARY: What headers hold after any sequence of changes.
import Rtsp.Proofs.Message.Fields

/-!
# Edited headers

Headers are changed by setting a field, by removing one, and by adding a line. What they hold
afterwards is told by the changes alone: the last change that concerns a name decides its value
(`Headers.lastValue?`), and the names stand in the order and the spelling in which they were
inserted (`Headers.insertions`). Each change keeps this up (`Headers.get?_apply`,
`Headers.names_apply`), and so does every sequence of them (`Headers.follows_edited`).
-/

namespace Rtsp.Headers

open Text

/-! ## Lines -/

/-- A line that is refused has no colon, or nothing but blanks in front of the first one. -/
def IsRefused (line : String) : Prop :=
  ':' ∉ line.toList ∨ ∀ c ∈ line.toList.takeWhile (· ≠ ':'), isBlank c

-- Deciding over the characters of the line, and not over all characters there are.
instance (line : String) : Decidable (IsRefused line) :=
  have : Decidable (∀ c ∈ line.toList.takeWhile (· ≠ ':'), isBlank c) := List.decidableBAll _ _
  inferInstanceAs (Decidable (_ ∨ _))

/-- What stands in front of the first colon of a line, and what stands behind it. -/
def lineField (line : String) : String × String :=
  (String.ofList (trim (line.toList.takeWhile (· ≠ ':'))),
    String.ofList (trim (line.toList.dropWhile (· ≠ ':')).tail))

theorem cut_colon (cs : List Char) :
    cut ':' cs = if ':' ∈ cs
      then some (cs.takeWhile (· ≠ ':'), (cs.dropWhile (· ≠ ':')).tail) else none := by
  by_cases hcolon : ':' ∈ cs
  · obtain ⟨before, after, rfl, hbefore⟩ := List.eq_append_cons_of_mem hcolon
    have hall : ∀ c ∈ before, decide (c ≠ ':') = true := by
      intro c hc
      simpa using ne_of_mem_of_not_mem hc hbefore
    rw [if_pos hcolon, cut_append hbefore, List.takeWhile_append_of_pos hall,
      List.dropWhile_append_of_pos hall]
    simp
  · rw [if_neg hcolon, cut_eq_none hcolon]

/-- A line is refused, or sets its field. -/
theorem addLine?_eq (h : Headers) (line : String) :
    h.addLine? line
      = if IsRefused line then none else some (h.set (lineField line).1 (lineField line).2) := by
  have hblank : (trim (line.toList.takeWhile (· ≠ ':'))).isEmpty = true
      ↔ ∀ c ∈ line.toList.takeWhile (· ≠ ':'), isBlank c := by
    rw [isEmpty_trim, List.all_eq_true]
  unfold addLine?
  rw [cut_colon]
  by_cases hcolon : ':' ∈ line.toList
  · rw [if_pos hcolon]
    by_cases hname : ∀ c ∈ line.toList.takeWhile (· ≠ ':'), isBlank c
    · rw [if_pos (show IsRefused line from .inr hname)]
      exact if_pos (hblank.2 hname)
    · have hkept : ¬ IsRefused line := fun h => h.elim (absurd hcolon) hname
      rw [if_neg hkept]
      exact if_neg (mt hblank.1 hname)
  · rw [if_neg hcolon, if_pos (show IsRefused line from .inl hcolon)]

theorem addLine_eq (h : Headers) (line : String) :
    h.addLine line
      = if IsRefused line then h else h.set (lineField line).1 (lineField line).2 := by
  rw [addLine, addLine?_eq]
  split <;> rfl

/-! ## Changes -/

/-- A change of headers. -/
inductive Edit where
  | set (name value : String)
  | remove (name : String)
  | addLine (line : String)
  deriving DecidableEq, Repr

namespace Edit

def apply (h : Headers) : Edit → Headers
  | set name value => h.set name value
  | remove name => (h.remove name).2
  | addLine line => h.addLine line

/-- The field that a change sets, if it sets one. -/
def field? : Edit → Option (String × String)
  | set name value => some (name, value)
  | remove _ => none
  | addLine line => if IsRefused line then none else some (lineField line)

/-- Whether a change removes the field of this name. -/
def removes (name : String) : Edit → Bool
  | remove other => sameIgnoringCase other name
  | _ => false

/-- What a change makes of the value of a name, if it concerns the name. -/
def effect? (name : String) (e : Edit) : Option (Option String) :=
  if e.removes name then some none
  else e.field?.bind fun f => if sameIgnoringCase f.1 name then some (some f.2) else none

/-- There are three kinds of changes: one sets a field, one removes a field, and one does
nothing. -/
theorem kinds (e : Edit) :
    (∃ f, e.field? = some f ∧ (∀ name, e.removes name = false) ∧ ∀ h, e.apply h = h.set f.1 f.2)
      ∨ (∃ name, e = .remove name)
      ∨ (e.field? = none ∧ (∀ name, e.removes name = false) ∧ ∀ h, e.apply h = h) := by
  cases e with
  | set name value => exact .inl ⟨(name, value), rfl, fun _ => rfl, fun _ => rfl⟩
  | remove name => exact .inr (.inl ⟨name, rfl⟩)
  | addLine line =>
    by_cases hrefused : IsRefused line
    · refine .inr (.inr ⟨if_pos hrefused, fun _ => rfl, fun h => ?_⟩)
      exact (addLine_eq h line).trans (if_pos hrefused)
    · refine .inl ⟨lineField line, if_neg hrefused, fun _ => rfl, fun h => ?_⟩
      exact (addLine_eq h line).trans (if_neg hrefused)

end Edit

/-- Headers after these changes, which start from none. -/
def edited (es : List Edit) : Headers :=
  es.foldl Edit.apply {}

theorem edited_concat (es : List Edit) (e : Edit) : edited (es ++ [e]) = e.apply (edited es) := by
  rw [edited, List.foldl_append]
  rfl

/-- The value that a name has after these changes: the last one that concerns it decides. -/
def lastValue? (es : List Edit) (name : String) : Option String :=
  (es.reverse.findSome? (Edit.effect? name)).join

theorem lastValue?_concat (es : List Edit) (e : Edit) (name : String) :
    lastValue? (es ++ [e]) name = (e.effect? name).getD (lastValue? es name) := by
  unfold lastValue?
  rw [List.reverse_append, List.reverse_singleton, List.singleton_append, List.findSome?_cons]
  cases e.effect? name <;> rfl

/-- The name that this change inserts for good: it had no value before, and no later change
removes it. -/
def insertion? (es : List Edit) (i : Nat) : Option String :=
  ((es[i]?.bind Edit.field?).map (·.1)).filter fun name =>
    (lastValue? (es.take i) name).isNone && (es.drop (i + 1)).all fun e => !e.removes name

/-- The names that these changes insert for good, in the order of the insertions and as they are
spelled there. -/
def insertions (es : List Edit) : List String :=
  (List.range es.length).filterMap (insertion? es)

theorem insertion?_concat_of_lt {es : List Edit} {i : Nat} (hi : i < es.length) (e : Edit) :
    insertion? (es ++ [e]) i = (insertion? es i).filter fun name => !e.removes name := by
  unfold insertion?
  rw [List.getElem?_append_left hi, List.take_append_of_le_length (Nat.le_of_lt hi),
    List.drop_append_of_le_length hi, Option.filter_filter]
  simp only [List.all_append, List.all_cons, List.all_nil, Bool.and_true, Bool.and_assoc]

theorem insertion?_concat_self (es : List Edit) (e : Edit) :
    insertion? (es ++ [e]) es.length
      = (e.field?.map (·.1)).filter fun name => (lastValue? es name).isNone := by
  simp [insertion?]

/-- The names after another change: it takes out those that it removes, and puts a name that it
sets anew behind the others. -/
theorem insertions_concat (es : List Edit) (e : Edit) :
    insertions (es ++ [e])
      = (insertions es).filter (fun name => !e.removes name)
        ++ ((e.field?.map (·.1)).filter fun name => (lastValue? es name).isNone).toList := by
  have hold : (List.range es.length).filterMap (insertion? (es ++ [e]))
      = (insertions es).filter fun name => !e.removes name := by
    rw [insertions, List.filter_filterMap]
    refine List.filterMap_congr fun i hi => ?_
    exact insertion?_concat_of_lt (List.mem_range.1 hi) e
  rw [insertions, List.length_append, List.length_singleton, List.range_succ,
    List.filterMap_append, hold, ← insertion?_concat_self]
  cases hlast : insertion? (es ++ [e]) es.length <;> simp [hlast]

/-! ## What a change does -/

theorem get?_congr {name other : String} (hsame : sameIgnoringCase name other = true)
    (h : Headers) : h.get? name = h.get? other := by
  unfold get?
  congr 2
  funext e
  rw [sameIgnoringCase_comm, sameIgnoringCase_congr hsame, sameIgnoringCase_comm]

/-- A removed field is the only one of its name. -/
theorem eraseP_of_distinct {es : List (String × String)} (hdistinct : Distinct es)
    (name : String) :
    es.eraseP (fun e => sameIgnoringCase e.1 name)
      = es.filter fun e => !sameIgnoringCase e.1 name := by
  induction es with
  | nil => rfl
  | cons e es ih =>
    obtain ⟨he, hes⟩ := List.pairwise_cons.1 hdistinct
    by_cases hsame : sameIgnoringCase e.1 name = true
    · have hothers : ∀ f ∈ es, (!sameIgnoringCase f.1 name) = true := by
        intro f hf
        rw [sameIgnoringCase_comm, ← sameIgnoringCase_congr hsame, he f hf]
        rfl
      simp [hsame, List.filter_eq_self.2 hothers]
    · simp [hsame, ih hes]

theorem erase_eq {h : Headers} (hdistinct : Distinct h.entries) (name : String) :
    h.erase name = ⟨h.entries.filter fun e => !sameIgnoringCase e.1 name⟩ := by
  rw [erase, eraseP_of_distinct hdistinct]

theorem distinct_apply {h : Headers} (hdistinct : Distinct h.entries) (e : Edit) :
    Distinct (e.apply h).entries := by
  rcases e.kinds with ⟨f, -, -, hset⟩ | ⟨name, rfl⟩ | ⟨-, -, hidle⟩
  · rw [hset]
    exact hdistinct.setEntry f.1 f.2
  · rw [Edit.apply, remove_eq, erase_eq hdistinct]
    exact hdistinct.filter _
  · rwa [hidle]

theorem get?_erase {h : Headers} (hdistinct : Distinct h.entries) (name other : String) :
    (h.erase name).get? other = if sameIgnoringCase name other then none else h.get? other := by
  rw [erase_eq hdistinct]
  unfold get?
  simp only [List.find?_filter, Bool.decide_and, Bool.decide_eq_true]
  by_cases hsame : sameIgnoringCase name other = true
  · have hnone : h.entries.find?
        (fun e => !sameIgnoringCase e.1 name && sameIgnoringCase e.1 other) = none := by
      rw [List.find?_eq_none]
      intro e _
      rw [sameIgnoringCase_comm e.1 name, sameIgnoringCase_congr hsame, sameIgnoringCase_comm]
      simp
    rw [if_pos hsame, hnone]
    rfl
  · have hkept : (fun e : String × String =>
        !sameIgnoringCase e.1 name && sameIgnoringCase e.1 other)
          = fun e => sameIgnoringCase e.1 other := by
      funext e
      by_cases hname : sameIgnoringCase e.1 name = true
      · simp [sameIgnoringCase_congr hname, hsame]
      · simp [hname]
    rw [if_neg hsame, hkept]

/-- A change has its effect on the value of every name. -/
theorem get?_apply {h : Headers} (hdistinct : Distinct h.entries) (e : Edit) (name : String) :
    (e.apply h).get? name = (e.effect? name).getD (h.get? name) := by
  rcases e.kinds with ⟨f, hfield, hkeeps, hset⟩ | ⟨other, rfl⟩ | ⟨hfield, hkeeps, hidle⟩
  · rw [hset, Edit.effect?, hkeeps, hfield]
    by_cases hsame : sameIgnoringCase f.1 name = true
    · simp [hsame, ← get?_congr hsame, get?_set_self]
    · simp [hsame, get?_set_of_ne (Bool.eq_false_iff.2 hsame)]
  · rw [Edit.apply, remove_eq, get?_erase hdistinct, Edit.effect?, Edit.removes, Edit.field?]
    split <;> rfl
  · rw [hidle, Edit.effect?, hkeeps, hfield]
    rfl

/-- A name that is set stands where it stood, or behind the others. -/
theorem names_set {h : Headers} (hdistinct : Distinct h.entries) (name value : String) :
    (h.set name value).entries.map (·.1)
      = h.entries.map (·.1) ++ if (h.get? name).isNone then [name] else [] := by
  unfold set
  by_cases hmem : ∃ e ∈ h.entries, sameIgnoringCase e.1 name
  · have hfound : (h.get? name).isNone = false := by
      rw [get?, Option.isNone_map, Option.isNone_eq_false_iff, List.find?_isSome]
      exact hmem
    rw [setEntry_of_mem hdistinct hmem, hfound, List.map_map]
    have hkept : ∀ e ∈ h.entries,
        ((·.1) ∘ fun e => if sameIgnoringCase e.1 name then (e.1, value) else e) e = e.1 := by
      intro e _
      rw [Function.comp_apply]
      split <;> rfl
    rw [List.map_congr_left hkept]
    simp
  · have hnone : ∀ e ∈ h.entries, sameIgnoringCase e.1 name = false := by simpa using hmem
    have hmissing : (h.get? name).isNone = true := by
      rw [get?, Option.isNone_map, Option.isNone_iff_eq_none, List.find?_eq_none]
      simpa using hnone
    rw [setEntry_of_forall_ne hnone, hmissing, List.map_append]
    rfl

/-- A change takes out the names that it removes, and puts a name that it sets anew behind the
others. -/
theorem names_apply {h : Headers} (hdistinct : Distinct h.entries) (e : Edit) :
    (e.apply h).entries.map (·.1)
      = (h.entries.map (·.1)).filter (fun name => !e.removes name)
        ++ ((e.field?.map (·.1)).filter fun name => (h.get? name).isNone).toList := by
  rcases e.kinds with ⟨f, hfield, hkeeps, hset⟩ | ⟨name, rfl⟩ | ⟨hfield, hkeeps, hidle⟩
  · rw [hset, names_set hdistinct, hfield]
    by_cases hnew : (h.get? f.1).isNone = true <;> simp [Option.filter, hkeeps, hnew]
  · rw [Edit.apply, remove_eq, erase_eq hdistinct, Edit.field?]
    simp [List.filter_map, Function.comp_def, Edit.removes, sameIgnoringCase_comm name]
  · simp [hidle, hfield, hkeeps]

/-! ## Sequences of changes -/

/-- What headers are after these changes. No two of their names are the same without regard to
case, the last change that concerns a name decides its value, and the names stand as they were
inserted. A field that is removed is returned as it was found, and the others stay as they are. A
line is refused without a colon or with a blank name, and then nothing is changed. -/
structure Follows (es : List Edit) (h : Headers) : Prop where
  distinct : h.entries.Pairwise fun a b => sameIgnoringCase a.1 b.1 = false
  get? : ∀ name, h.get? name = lastValue? es name
  contains : ∀ name, h.contains name = (lastValue? es name).isSome
  names : h.entries.map (·.1) = insertions es
  remove : ∀ name,
    h.remove name = (h.get? name, ⟨h.entries.filter fun e => !sameIgnoringCase e.1 name⟩)
  addLine? : ∀ line, h.addLine? line = none ↔ IsRefused line
  addLine : ∀ line, IsRefused line → h.addLine line = h

theorem distinct_edited (es : List Edit) : Distinct (edited es).entries := by
  induction es using List.reverseRecOn with
  | nil => exact List.Pairwise.nil
  | append_singleton es e ih =>
    rw [edited_concat]
    exact distinct_apply ih e

theorem get?_edited (es : List Edit) (name : String) :
    (edited es).get? name = lastValue? es name := by
  induction es using List.reverseRecOn with
  | nil => rfl
  | append_singleton es e ih =>
    rw [edited_concat, get?_apply (distinct_edited es), lastValue?_concat, ih]

theorem names_edited (es : List Edit) : (edited es).entries.map (·.1) = insertions es := by
  induction es using List.reverseRecOn with
  | nil => rfl
  | append_singleton es e ih =>
    simp only [edited_concat, names_apply (distinct_edited es), insertions_concat, ih,
      get?_edited]

/-- Headers follow the changes that were made to them, whatever these are. -/
theorem follows_edited (es : List Edit) : Follows es (edited es) where
  distinct := distinct_edited es
  get? := get?_edited es
  contains name := by rw [Headers.contains, get?_edited]
  names := names_edited es
  remove name := by rw [remove_eq, erase_eq (distinct_edited es)]
  addLine? line := by
    rw [addLine?_eq]
    split <;> simp_all
  addLine line hrefused := (addLine_eq _ line).trans (if_pos hrefused)

/-- A name that is set again keeps its place and its spelling, until it is removed. -/
example : insertions [.set "CSeq" "1", .addLine "Range: npt=0-", .set "cseq" "2", .addLine " : 3",
      .remove "RANGE", .addLine "range:npt=5-"]
    = ["CSeq", "range"] := by decide

end Rtsp.Headers
