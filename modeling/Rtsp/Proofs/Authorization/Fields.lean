-- SUMMARY: The fields of a challenge or an authorization are read as they were written.
import Rtsp.Authorization.Digest
import Rtsp.Proofs.Text.Words

/-!
# Fields round trip

A field is written as `key="value"` or, for a plain value, as `key=value`. Commas in quotes do not
end a field, so fields that are joined by commas are found again one by one
(`Authorization.readFields_joinFields`), behind the scheme that stands in front of them
(`Authorization.splitScheme_of_toList`). White space around them makes no difference
(`Authorization.readFields_trimmed`).
-/

namespace Rtsp

namespace Text

/-! ## Cuts outside quotes -/

/-- Text with no comma outside quotes, in which every quote is closed. -/
inductive Closed : List Char → Prop where
  | nil : Closed []
  | plain {c : Char} {cs : List Char} (comma : c ≠ ',') (quote : c ≠ '"') (rest : Closed cs) :
    Closed (c :: cs)
  | quoted {inner cs : List Char} (quote : '"' ∉ inner) (rest : Closed cs) :
    Closed ('"' :: (inner ++ '"' :: cs))

theorem closed_of_forall {cs : List Char} (h : ∀ c ∈ cs, c ≠ ',' ∧ c ≠ '"') : Closed cs := by
  induction cs with
  | nil => exact .nil
  | cons c cs ih =>
    obtain ⟨hcomma, hquote⟩ := h c List.mem_cons_self
    exact .plain hcomma hquote (ih fun d hd => h d (List.mem_cons_of_mem _ hd))

/-- White space is none of the characters that separate fields, keys and values. -/
theorem ne_of_isBlank {c : Char} (h : isBlank c) : c ≠ '=' ∧ c ≠ ',' ∧ c ≠ '"' := by
  refine ⟨?_, ?_, ?_⟩
  all_goals
    rintro rfl
    exact absurd h (by decide)

theorem closed_of_blanks {cs : List Char} (h : ∀ c ∈ cs, isBlank c) : Closed cs :=
  closed_of_forall fun c hc => (ne_of_isBlank (h c hc)).2

theorem Closed.append {before after : List Char} (hbefore : Closed before)
    (hafter : Closed after) : Closed (before ++ after) := by
  induction hbefore with
  | nil => exact hafter
  | plain comma quote _ ih => exact .plain comma quote ih
  | quoted quote _ ih =>
    rw [List.cons_append, List.append_assoc, List.cons_append]
    exact .quoted quote ih

/-- A comma outside quotes ends the first part. -/
theorem splitUnquoted_go_comma (cs : List Char) :
    splitUnquoted.go false (',' :: cs) = [] :: splitUnquoted.go false cs :=
  rfl

theorem splitUnquoted_go_ne_nil (quoted : Bool) (cs : List Char) :
    splitUnquoted.go quoted cs ≠ [] := by
  cases cs with
  | nil => simp [splitUnquoted.go]
  | cons d ds =>
    unfold splitUnquoted.go
    split
    · simp
    · split <;> simp

/-- A character that cuts nothing belongs to the first part. -/
theorem splitUnquoted_go_cons {quoted : Bool} {c : Char} (h : (c == ',' && !quoted) = false)
    (cs : List Char) :
    splitUnquoted.go quoted (c :: cs)
      = (splitUnquoted.go (if c == '"' then !quoted else quoted) cs).modifyHead (c :: ·) := by
  rw [splitUnquoted.go, h]
  obtain ⟨part, parts, hparts⟩ := List.exists_cons_of_ne_nil
    (splitUnquoted_go_ne_nil (if c == '"' then !quoted else quoted) cs)
  simp only [hparts]
  rfl

theorem splitUnquoted_go_quoted {inner : List Char} (h : '"' ∉ inner) (rest : List Char) :
    splitUnquoted.go true (inner ++ rest)
      = (splitUnquoted.go true rest).modifyHead (inner ++ ·) := by
  induction inner with
  | nil => exact (congrFun List.modifyHead_id _).symm
  | cons c inner ih =>
    obtain ⟨hc, hinner⟩ := not_or.1 fun hmem => h (List.mem_cons.2 hmem)
    have hquote : (c == '"') = false := by simpa using Ne.symm hc
    rw [List.cons_append, splitUnquoted_go_cons (by simp), hquote]
    simp only [Bool.false_eq_true, if_false]
    rw [ih hinner, List.modifyHead_modifyHead]
    rfl

/-- Closed text belongs to one part. -/
theorem Closed.splitUnquoted_go_append {cs : List Char} (h : Closed cs) (rest : List Char) :
    splitUnquoted.go false (cs ++ rest)
      = (splitUnquoted.go false rest).modifyHead (cs ++ ·) := by
  induction h with
  | nil => exact (congrFun List.modifyHead_id _).symm
  | @plain c cs comma quote _ ih =>
    have hcomma : (c == ',' && !false) = false := by simpa using comma
    have hquote : (c == '"') = false := by simpa using quote
    rw [List.cons_append, splitUnquoted_go_cons hcomma, hquote]
    simp only [Bool.false_eq_true, if_false]
    rw [ih, List.modifyHead_modifyHead]
    rfl
  | @quoted inner cs quote _ ih =>
    rw [List.cons_append, List.append_assoc, List.cons_append,
      splitUnquoted_go_cons (by decide)]
    simp only [beq_self_eq_true, if_true, Bool.not_false]
    rw [splitUnquoted_go_quoted quote, splitUnquoted_go_cons (by decide)]
    simp only [beq_self_eq_true, if_true, Bool.not_true]
    rw [ih]
    simp [List.modifyHead_modifyHead, Function.comp_def]

theorem Closed.splitUnquoted_eq {cs : List Char} (h : Closed cs) : splitUnquoted cs = [cs] := by
  have hgo := h.splitUnquoted_go_append []
  rw [List.append_nil] at hgo
  unfold splitUnquoted
  rw [hgo]
  simp [splitUnquoted.go]

theorem Closed.splitUnquoted_append {cs : List Char} (h : Closed cs) (rest : List Char) :
    splitUnquoted (cs ++ ',' :: rest) = cs :: splitUnquoted rest := by
  unfold splitUnquoted
  rw [h.splitUnquoted_go_append]
  simp [splitUnquoted.go]

/-- Closed parts with a comma between each two are found again. -/
theorem splitUnquoted_intercalate {parts : List (List Char)} (hne : parts ≠ [])
    (h : ∀ part ∈ parts, Closed part) : splitUnquoted (List.intercalate [','] parts) = parts := by
  induction parts with
  | nil => exact absurd rfl hne
  | cons part parts ih =>
    have hpart := h part List.mem_cons_self
    cases parts with
    | nil => simpa [List.intercalate] using hpart.splitUnquoted_eq
    | cons next parts =>
      have hlater := ih (List.cons_ne_nil _ _) fun p hp => h p (List.mem_cons_of_mem _ hp)
      rw [List.intercalate_cons_cons, List.append_assoc, List.singleton_append,
        hpart.splitUnquoted_append, hlater]

/-- Text at the end belongs to the last part if there is nothing in it that cuts. -/
theorem splitUnquoted_go_append {tail : List Char} (h : ∀ c ∈ tail, c ≠ ',' ∧ c ≠ '"')
    (quoted : Bool) (cs : List Char) :
    ∃ parts last, splitUnquoted.go quoted cs = parts ++ [last]
      ∧ splitUnquoted.go quoted (cs ++ tail) = parts ++ [last ++ tail] := by
  have htail : ∀ quoted, splitUnquoted.go quoted tail = [tail] := by
    intro quoted
    induction tail with
    | nil => rfl
    | cons c tail ih =>
      obtain ⟨hcomma, hquote⟩ := h c List.mem_cons_self
      have hlater := ih fun d hd => h d (List.mem_cons_of_mem c hd)
      rw [splitUnquoted_go_cons (by simp [hcomma])]
      simp [hquote, hlater]
  induction cs generalizing quoted with
  | nil => exact ⟨[], [], rfl, htail quoted⟩
  | cons c cs ih =>
    by_cases hcut : (c == ',' && !quoted) = true
    · obtain ⟨parts, last, hcs, happend⟩ := ih quoted
      refine ⟨[] :: parts, last, ?_, ?_⟩
      · rw [splitUnquoted.go, if_pos hcut, hcs, List.cons_append]
      · rw [List.cons_append, splitUnquoted.go, if_pos hcut, happend, List.cons_append]
    · obtain ⟨parts, last, hcs, happend⟩ := ih (if c == '"' then !quoted else quoted)
      rw [List.cons_append, splitUnquoted_go_cons (Bool.eq_false_iff.2 hcut),
        splitUnquoted_go_cons (Bool.eq_false_iff.2 hcut), hcs, happend]
      cases parts with
      | nil => exact ⟨[], c :: last, rfl, rfl⟩
      | cons part parts => exact ⟨(c :: part) :: parts, last, rfl, rfl⟩

/-! ## Quotes -/

/-- The quotes around a value are the only ones. -/
theorem stripChar_quoted {cs : List Char} (h : '"' ∉ cs) :
    stripChar '"' ('"' :: (cs ++ ['"'])) = cs :=
  stripChar_cons_append (fun hfirst => h (List.mem_of_head? hfirst))
    fun hlast => h (List.mem_of_getLast? hlast)

theorem stripChar_of_not_mem {cs : List Char} {q : Char} (h : q ∉ cs) : stripChar q cs = cs := by
  have hkept : ∀ {ds : List Char}, q ∉ ds → ds.dropWhile (· == q) = ds := by
    intro ds hds
    cases ds with
    | nil => rfl
    | cons d ds =>
      have hd : (d == q) = false := by simpa using ne_of_mem_of_not_mem List.mem_cons_self hds
      exact List.dropWhile_cons_of_neg (by simp [hd])
  unfold stripChar
  rw [hkept h, hkept fun hmem => h (List.mem_reverse.1 hmem), List.reverse_reverse]

end Text

namespace Authorization

open Text

/-! ## One field -/

/-- A text that is written as a field, with the key and the value that it stands for. -/
structure Field where
  text : String
  key : String
  value : String

/-- The text sets the field, also behind blanks, and can stand beside others. -/
structure Field.WellFormed (e : Field) : Prop where
  closed : Closed e.text.toList
  framed : IsFramed e.text.toList
  add : ∀ lead : List Char, (∀ c ∈ lead, isBlank c) → ∀ fields,
    addField fields (lead ++ e.text.toList) = fields.insert e.key e.value

/-- A name that is read as what it is. -/
def IsKey (key : String) : Prop :=
  key.toList ≠ [] ∧ lower key = key
    ∧ ∀ c ∈ key.toList, c ≠ '=' ∧ c ≠ ',' ∧ c ≠ '"' ∧ isBlank c = false

-- Deciding over the characters of the list, and not over all characters there are.
instance (key : String) : Decidable (IsKey key) :=
  @instDecidableAnd _ _ inferInstance (@instDecidableAnd _ _ inferInstance (List.decidableBAll _ _))

theorem IsKey.closed {key : String} (h : IsKey key) : Closed key.toList :=
  closed_of_forall fun c hc => ⟨(h.2.2 c hc).2.1, (h.2.2 c hc).2.2.1⟩

theorem IsKey.first {key : String} (h : IsKey key) (rest : List Char) :
    ∃ c ∈ (key.toList ++ rest).head?, isBlank c = false := by
  obtain ⟨c, cs, hcs⟩ := List.exists_cons_of_ne_nil h.1
  refine ⟨c, by simp [hcs], ?_⟩
  exact (h.2.2 c (hcs ▸ List.mem_cons_self)).2.2.2

/-- The first equals sign stands between key and value. -/
theorem addField_eq {before : List Char} (h : '=' ∉ before) (after : List Char) (fields : Params) :
    addField fields (before ++ '=' :: after)
      = fields.insert (lower (String.ofList (trim before)))
        (String.ofList (stripChar '"' (trim after))) := by
  rw [addField, cut_append h]

/-- White space around a field makes no difference. -/
theorem addField_around {lead tail : List Char} (hlead : ∀ c ∈ lead, isBlank c)
    (htail : ∀ c ∈ tail, isBlank c) (part : List Char) (fields : Params) :
    addField fields (lead ++ (part ++ tail)) = addField fields part := by
  have hequals {cs : List Char} (h : ∀ c ∈ cs, isBlank c) : '=' ∉ cs :=
    fun hmem => (ne_of_isBlank (h _ hmem)).1 rfl
  by_cases hmem : '=' ∈ part
  · obtain ⟨before, after, rfl, hbefore⟩ := List.eq_append_cons_of_mem hmem
    have hassoc : lead ++ (before ++ '=' :: after ++ tail)
        = (lead ++ before) ++ '=' :: (after ++ tail) := by simp
    rw [hassoc, addField_eq (by simp [hequals hlead, hbefore]), addField_eq hbefore,
      trim_append_blanks hlead, trim_append_of_blanks htail]
  · have hnone : '=' ∉ lead ++ (part ++ tail) := by simp [hequals hlead, hequals htail, hmem]
    rw [addField, addField, cut_eq_none hnone, cut_eq_none hmem]

/-- What stands around the first equals sign, blanks and quotes aside, is key and value. -/
theorem addField_append {key value : String} (hkey : IsKey key) {lead after : List Char}
    (hlead : ∀ c ∈ lead, isBlank c) (hvalue : stripChar '"' (trim after) = value.toList)
    (fields : Params) :
    addField fields (lead ++ (key.toList ++ '=' :: after)) = fields.insert key value := by
  obtain ⟨-, hlower, hchars⟩ := hkey
  have hequals : '=' ∉ lead ++ key.toList := by
    intro hmem
    rcases List.mem_append.1 hmem with hmem | hmem
    · exact absurd (hlead _ hmem) (by decide)
    · exact (hchars _ hmem).1 rfl
  have htrim : trim (lead ++ key.toList) = key.toList := by
    rw [trim_append_blanks hlead]
    exact trim_of_forall_not_blank fun c hc => (hchars c hc).2.2.2
  rw [← List.append_assoc, addField_eq hequals, htrim, hvalue, String.ofList_toList,
    String.ofList_toList, hlower]

/-- A field with its value in quotes. -/
def Field.quoted (key value : String) : Field :=
  ⟨Authorization.quoted key value, key, value⟩

/-- A quoted value may hold anything but quotes. -/
theorem Field.wellFormed_quoted {key value : String} (hkey : IsKey key)
    (hvalue : '"' ∉ value.toList) : (quoted key value).WellFormed := by
  have htext : (quoted key value).text.toList
      = key.toList ++ '=' :: '"' :: (value.toList ++ ['"']) := by
    simp [quoted, Authorization.quoted]
  refine ⟨?_, ⟨?_, ?_⟩, ?_⟩
  · rw [htext]
    exact hkey.closed.append (.plain (by decide) (by decide) (.quoted hvalue .nil))
  · rw [htext]
    exact hkey.first _
  · obtain ⟨c, hc, hblank⟩ := (isFramed_quoted value.toList).last
    refine ⟨c, ?_, hblank⟩
    rw [htext, List.getLast?_append, List.getLast?_cons_cons, Option.mem_def.1 hc]
    rfl
  · intro lead hlead fields
    rw [htext]
    refine addField_append hkey hlead ?_ fields
    rw [(isFramed_quoted _).trim_eq]
    exact stripChar_quoted hvalue

/-- A value that needs no quotes. -/
def IsPlain (value : String) : Prop :=
  value.toList ≠ [] ∧ ∀ c ∈ value.toList, c ≠ ',' ∧ c ≠ '"' ∧ isBlank c = false

instance (value : String) : Decidable (IsPlain value) :=
  @instDecidableAnd _ _ inferInstance (List.decidableBAll _ _)

/-- A field with its value as it is. -/
def Field.plain (key value : String) : Field :=
  ⟨key ++ "=" ++ value, key, value⟩

theorem Field.wellFormed_plain {key value : String} (hkey : IsKey key) (hvalue : IsPlain value) :
    (plain key value).WellFormed := by
  have htext : (plain key value).text.toList = key.toList ++ '=' :: value.toList := by
    simp [plain]
  obtain ⟨hne, hchars⟩ := hvalue
  refine ⟨?_, ⟨?_, ?_⟩, ?_⟩
  · rw [htext]
    have hclosed := closed_of_forall fun c hc => ⟨(hchars c hc).1, (hchars c hc).2.1⟩
    exact hkey.closed.append (.plain (by decide) (by decide) hclosed)
  · rw [htext]
    exact hkey.first _
  · have hlast := List.getLast_mem hne
    refine ⟨value.toList.getLast hne, ?_, (hchars _ hlast).2.2⟩
    rw [htext, List.getLast?_append, List.getLast?_cons, List.getLast?_eq_some_getLast hne]
    rfl
  · intro lead hlead fields
    rw [htext]
    refine addField_append hkey hlead ?_ fields
    rw [trim_of_forall_not_blank fun c hc => (hchars c hc).2.2]
    exact stripChar_of_not_mem fun hmem => (hchars _ hmem).2.1 rfl

/-! ## All fields -/

/-- Set the fields one after the other. -/
def setFields (fields : Params) (es : List Field) : Params :=
  es.foldl (fun fields e => fields.insert e.key e.value) fields

/-- Fields with a comma and a blank between each two. -/
def joinFields (es : List Field) : List Char :=
  List.intercalate [',', ' '] (es.map (·.text.toList))

theorem joinFields_cons_cons (e f : Field) (es : List Field) :
    joinFields (e :: f :: es) = e.text.toList ++ ',' :: ' ' :: joinFields (f :: es) := by
  unfold joinFields
  rw [List.map_cons, List.map_cons, List.intercalate_cons_cons, List.append_assoc]
  rfl

theorem isFramed_joinFields {es : List Field} (h : ∀ e ∈ es, e.WellFormed) (hne : es ≠ []) :
    IsFramed (joinFields es) := by
  induction es with
  | nil => exact absurd rfl hne
  | cons e es ih =>
    have he := (h e List.mem_cons_self).framed
    cases es with
    | nil => simpa [joinFields, List.intercalate] using he
    | cons f es =>
      have hrest := ih (fun g hg => h g (List.mem_cons_of_mem _ hg)) (List.cons_ne_nil _ _)
      rw [joinFields_cons_cons]
      exact he.append hrest [',', ' ']

theorem foldl_addField_joinFields {es : List Field} (h : ∀ e ∈ es, e.WellFormed)
    (hne : es ≠ []) {lead : List Char} (hlead : ∀ c ∈ lead, isBlank c) (fields : Params) :
    (splitUnquoted (lead ++ joinFields es)).foldl addField fields = setFields fields es := by
  have hblanks : Closed lead := closed_of_blanks hlead
  induction es generalizing lead fields with
  | nil => exact absurd rfl hne
  | cons e es ih =>
    obtain ⟨hclosed, -, hadd⟩ := h e List.mem_cons_self
    have hpart := hblanks.append hclosed
    cases es with
    | nil =>
      have hone : joinFields [e] = e.text.toList := by simp [joinFields, List.intercalate]
      rw [hone, hpart.splitUnquoted_eq]
      exact hadd lead hlead fields
    | cons f es =>
      have hspace : ∀ c ∈ [' '], isBlank c := by
        intro c hc
        rw [List.mem_singleton.1 hc]
        rfl
      have hrest := ih (fun g hg => h g (List.mem_cons_of_mem _ hg)) (List.cons_ne_nil _ _) hspace
        (fields.insert e.key e.value) (.plain (by decide) (by decide) .nil)
      rw [joinFields_cons_cons, ← List.append_assoc, hpart.splitUnquoted_append, List.foldl_cons,
        hadd lead hlead]
      exact hrest

/-- Fields that are joined by commas are read one by one. -/
theorem readFields_joinFields {es : List Field} (h : ∀ e ∈ es, e.WellFormed) (hne : es ≠ []) :
    readFields (joinFields es) = setFields {} es :=
  foldl_addField_joinFields h hne (List.forall_mem_nil _) {}

theorem toList_intercalate_text (es : List Field) :
    (String.intercalate ", " (es.map (·.text))).toList = joinFields es := by
  rw [String.toList_intercalate, List.map_map]
  rfl

/-! ## White space around the fields -/

/-- White space in front of the first field makes no difference. -/
theorem readFields_blanks_append {lead : List Char} (h : ∀ c ∈ lead, isBlank c) (cs : List Char) :
    readFields (lead ++ cs) = readFields cs := by
  obtain ⟨part, parts, hparts⟩ := List.exists_cons_of_ne_nil (splitUnquoted_go_ne_nil false cs)
  have hlead := (closed_of_blanks h).splitUnquoted_go_append cs
  rw [hparts, List.modifyHead_cons] at hlead
  have hfirst := addField_around h (List.forall_mem_nil _) part {}
  rw [List.append_nil] at hfirst
  unfold readFields splitUnquoted
  rw [hparts, hlead, List.foldl_cons, List.foldl_cons, hfirst]

/-- Nor does white space behind the last one. -/
theorem readFields_append_blanks {tail : List Char} (h : ∀ c ∈ tail, isBlank c) (cs : List Char) :
    readFields (cs ++ tail) = readFields cs := by
  have hplain : ∀ c ∈ tail, c ≠ ',' ∧ c ≠ '"' := fun c hc => (ne_of_isBlank (h c hc)).2
  obtain ⟨parts, last, hcs, happend⟩ := splitUnquoted_go_append hplain false cs
  unfold readFields splitUnquoted
  rw [hcs, happend, List.foldl_concat, List.foldl_concat]
  exact addField_around (List.forall_mem_nil _) h last _

/-- The fields are the same in a text that is trimmed. -/
theorem readFields_trimmed (cs : List Char) :
    readFields (trimStart (trimEnd cs)) = readFields cs := by
  have hlead : ∀ c ∈ (trimEnd cs).takeWhile isBlank, isBlank c :=
    fun _ hc => List.mem_takeWhile_imp hc
  have htail : ∀ c ∈ cs.rtakeWhile isBlank, isBlank c := fun _ hc => List.mem_rtakeWhile_imp hc
  calc readFields (trimStart (trimEnd cs))
      = readFields ((trimEnd cs).takeWhile isBlank ++ trimStart (trimEnd cs)) :=
        (readFields_blanks_append hlead _).symm
    _ = readFields (trimEnd cs) := congrArg readFields List.takeWhile_append_dropWhile
    _ = readFields (trimEnd cs ++ cs.rtakeWhile isBlank) := (readFields_append_blanks htail _).symm
    _ = readFields cs := congrArg readFields List.rdropWhile_append_rtakeWhile

/-! ## The scheme -/

/-- The scheme is the first word. -/
theorem splitScheme_of_blanks {value : String} {lead scheme gap fields : List Char}
    (hlead : ∀ c ∈ lead, isBlank c) (hscheme : IsWord scheme) (hgap : ∀ c ∈ gap, isBlank c)
    (hne : gap ≠ []) (hvalue : value.toList = lead ++ (scheme ++ (gap ++ fields))) :
    splitScheme value = (String.ofList scheme, trimStart (trimEnd fields)) := by
  have htrim : trim value.toList = scheme ++ trimEnd (gap ++ fields) := by
    rw [hvalue, trim_append_blanks hlead, trim_word_append hscheme]
  unfold splitScheme
  rw [htrim, trimEnd_blanks_append hgap]
  dsimp only
  by_cases hnone : trimEnd fields = []
  · rw [if_pos hnone, hnone, List.append_nil, cutWhere_eq_none hscheme.2]
    rfl
  · rw [if_neg hnone]
    obtain ⟨b, gap, rfl⟩ := List.exists_cons_of_ne_nil hne
    have hrest : ∀ c ∈ gap, isBlank c := fun c hc => hgap c (List.mem_cons_of_mem b hc)
    rw [List.cons_append, cutWhere_append hscheme.2 (hgap b List.mem_cons_self)]
    exact congrArg (Prod.mk _) (List.dropWhile_append_of_pos hrest)

/-- The scheme ends at the first blank. -/
theorem splitScheme_of_toList {value : String} {scheme fields : List Char} (hscheme : IsWord scheme)
    (hfields : IsFramed fields) (hvalue : value.toList = scheme ++ ' ' :: fields) :
    splitScheme value = (String.ofList scheme, fields) := by
  have hgap : ∀ c ∈ [' '], isBlank c := by simp [isBlank]
  rw [splitScheme_of_blanks (List.forall_mem_nil _) hscheme hgap (List.cons_ne_nil _ _) hvalue,
    hfields.trimEnd_eq, hfields.trimStart_eq]

end Authorization
end Rtsp
