-- SUMMARY: The words of a line, trimmed texts, cuts, and decimal numerals as words.
import Mathlib.Data.List.DropRight
import Rtsp.Text.Blank
import Rtsp.Text.Cut
import Rtsp.Text.Numeral

/-!
# Words

A word is a non-empty run of characters without white space. `words_intercalate` says that words
put together with one blank between each two are found again by `words`; a decimal numeral is a
word, and reading it gives the number (`readDecimal_toDigits`).
-/

namespace Rtsp.Text

/-- A non-empty run of characters none of which is white space. -/
def IsWord (w : List Char) : Prop :=
  w ≠ [] ∧ ∀ c ∈ w, isBlank c = false

-- Deciding over the characters of the word, and not over all characters there are.
instance (w : List Char) : Decidable (IsWord w) :=
  @instDecidableAnd _ _ inferInstance (List.decidableBAll _ _)

/-! ## Words -/

theorem words_singleton {w : List Char} (h : IsWord w) : words w = [w] := by
  obtain ⟨hne, hw⟩ := h
  simp [words, List.splitOnP_eq_singleton hw, hne]

theorem words_append_blank {w : List Char} (h : IsWord w) {b : Char} (hb : isBlank b)
    (rest : List Char) : words (w ++ b :: rest) = w :: words rest := by
  obtain ⟨hne, hw⟩ := h
  simp [words, List.splitOnP_append_cons_of_forall_mem hw b hb, hne]

/-- A part between two separators holds no separator, and nothing that was not there. -/
theorem not_and_mem_of_mem_splitOnP {α : Type} {p : α → Bool} {xs part : List α}
    (h : part ∈ xs.splitOnP p) {x : α} (hx : x ∈ part) : p x = false ∧ x ∈ xs := by
  induction xs generalizing part with
  | nil =>
    rw [List.splitOnP_nil, List.mem_singleton] at h
    exact absurd (h ▸ hx) List.not_mem_nil
  | cons y ys ih =>
    have hlater : ∀ {part}, part ∈ ys.splitOnP p → x ∈ part → p x = false ∧ x ∈ y :: ys :=
      fun hpart hx => (ih hpart hx).imp_right (List.mem_cons_of_mem y)
    rw [List.splitOnP_cons_eq_if_modifyHead] at h
    split at h
    next =>
      rcases List.mem_cons.1 h with rfl | h
      · exact absurd hx List.not_mem_nil
      · exact hlater h hx
    next hy =>
      obtain ⟨first, parts, hparts⟩ := List.exists_cons_of_ne_nil (List.splitOnP_ne_nil p ys)
      rw [hparts] at h hlater
      rcases List.mem_cons.1 h with rfl | h
      · rcases List.mem_cons.1 hx with rfl | hx
        · exact ⟨Bool.eq_false_iff.2 hy, List.mem_cons_self⟩
        · exact hlater List.mem_cons_self hx
      · exact hlater (List.mem_cons_of_mem first h) hx

theorem isWord_of_mem_words {w cs : List Char} (h : w ∈ words cs) : IsWord w := by
  obtain ⟨hpart, hne⟩ := List.mem_filter.1 h
  exact ⟨by simpa using hne, fun c hc => (not_and_mem_of_mem_splitOnP hpart hc).1⟩

/-- Words joined by single blanks are found again. -/
theorem words_intercalate {ws : List (List Char)} (h : ∀ w ∈ ws, IsWord w) :
    words (List.intercalate [' '] ws) = ws := by
  induction ws with
  | nil => rfl
  | cons w ws ih =>
    have hw := h w List.mem_cons_self
    have hws := ih fun v hv => h v (List.mem_cons_of_mem _ hv)
    cases ws with
    | nil => simpa [List.intercalate] using words_singleton hw
    | cons v vs =>
      rw [List.intercalate_cons_cons, List.append_assoc, List.singleton_append,
        words_append_blank hw (by decide), hws]

theorem mem_intercalate {c sep : Char} {ws : List (List Char)} (h : c ∈ List.intercalate [sep] ws) :
    c = sep ∨ ∃ w ∈ ws, c ∈ w := by
  induction ws with
  | nil => cases h
  | cons w ws ih =>
    cases ws with
    | nil => exact .inr ⟨w, List.mem_cons_self, by simpa [List.intercalate] using h⟩
    | cons v vs =>
      rw [List.intercalate_cons_cons, List.append_assoc, List.mem_append] at h
      rcases h with h | h
      · exact .inr ⟨w, List.mem_cons_self, h⟩
      rcases List.mem_cons.1 h with rfl | h
      · exact .inl rfl
      · obtain hc | ⟨u, hu, hc⟩ := ih h
        · exact .inl hc
        · exact .inr ⟨u, List.mem_cons_of_mem _ hu, hc⟩

/-! ## Trimming -/

theorem trimStart_cons_blank {b : Char} (hb : isBlank b) (cs : List Char) :
    trimStart (b :: cs) = trimStart cs := by
  simp [trimStart, hb]

theorem trim_cons_blank {b : Char} (hb : isBlank b) (cs : List Char) :
    trim (b :: cs) = trim cs := by
  rw [trim, trimStart_cons_blank hb, trim]

theorem trim_of_forall_not_blank {cs : List Char} (h : ∀ c ∈ cs, isBlank c = false) :
    trim cs = cs := by
  have hstart : trimStart cs = cs := by
    cases cs with
    | nil => rfl
    | cons c cs => simp [trimStart, h c List.mem_cons_self]
  have hend : cs.reverse.dropWhile isBlank = cs.reverse := by
    cases hr : cs.reverse with
    | nil => rfl
    | cons c rs =>
      have hc : c ∈ cs := List.mem_reverse.1 (hr ▸ List.mem_cons_self)
      simp [h c hc]
  rw [trim, hstart, trimEnd, hend, List.reverse_reverse]

/-- Blanks in front are trimmed. -/
theorem trim_append_blanks {lead : List Char} (h : ∀ c ∈ lead, isBlank c) (cs : List Char) :
    trim (lead ++ cs) = trim cs := by
  unfold trim trimStart
  rw [List.dropWhile_append_of_pos h]

theorem trimStart_cons_of_not_blank {c : Char} (hc : isBlank c = false) (cs : List Char) :
    trimStart (c :: cs) = c :: cs :=
  List.dropWhile_cons_of_neg (by simp [hc])

theorem trimEnd_append_cons {sep : Char} (hsep : isBlank sep = false) (before after : List Char) :
    trimEnd (before ++ sep :: after) = before ++ sep :: trimEnd after := by
  have hreverse : (before ++ sep :: after).reverse = after.reverse ++ (sep :: before.reverse) := by
    simp
  unfold trimEnd
  rw [hreverse, List.dropWhile_append]
  split
  next h => simp [List.isEmpty_iff.1 h, hsep]
  next => simp

theorem trimEnd_append_blank {b : Char} (hb : isBlank b) (cs : List Char) :
    trimEnd (cs ++ [b]) = trimEnd cs :=
  List.rdropWhile_concat_pos isBlank cs b hb

/-- A blank at the end is trimmed. -/
theorem trim_append_blank {b : Char} (hb : isBlank b) (cs : List Char) :
    trim (cs ++ [b]) = trim cs := by
  unfold trim trimStart
  rw [List.dropWhile_append]
  split
  next h => simp [List.isEmpty_iff.1 h, hb]
  next => exact trimEnd_append_blank hb _

/-- White space at the end is trimmed. -/
theorem trim_append_of_blanks {tail : List Char} (h : ∀ c ∈ tail, isBlank c) (cs : List Char) :
    trim (cs ++ tail) = trim cs := by
  induction tail generalizing cs with
  | nil => rw [List.append_nil]
  | cons b tail ih =>
    rw [List.append_cons, ih fun c hc => h c (List.mem_cons_of_mem b hc),
      trim_append_blank (h b List.mem_cons_self)]

/-- White space in front stays if there is anything behind it. -/
theorem trimEnd_blanks_append {lead : List Char} (h : ∀ c ∈ lead, isBlank c) (cs : List Char) :
    trimEnd (lead ++ cs) = if trimEnd cs = [] then [] else lead ++ trimEnd cs := by
  have hlead : lead.reverse.dropWhile isBlank = [] :=
    List.dropWhile_eq_nil_iff.2 fun c hc => h c (List.mem_reverse.1 hc)
  unfold trimEnd
  rw [List.reverse_append, List.dropWhile_append, hlead]
  simp only [List.isEmpty_iff, List.reverse_eq_nil_iff]
  split
  · rfl
  · rw [List.reverse_append, List.reverse_reverse]

/-- Text that begins with a character that is no white space is trimmed at its end only. -/
theorem trim_cons_of_not_blank {c : Char} (hc : isBlank c = false) (cs : List Char) :
    trim (c :: cs) = c :: trimEnd cs := by
  rw [trim, trimStart_cons_of_not_blank hc]
  exact trimEnd_append_cons hc [] cs

/-- White space behind a word is trimmed, and the word stays. -/
theorem trim_word_append {w : List Char} (h : IsWord w) (cs : List Char) :
    trim (w ++ cs) = w ++ trimEnd cs := by
  obtain ⟨hne, hw⟩ := h
  have hstart : trimStart (w ++ cs) = w ++ cs := by
    obtain ⟨c, rest, rfl⟩ := List.exists_cons_of_ne_nil hne
    exact trimStart_cons_of_not_blank (hw c List.mem_cons_self) (rest ++ cs)
  obtain rfl | ⟨front, last, rfl⟩ := List.eq_nil_or_concat' w
  · exact absurd rfl hne
  · rw [trim, hstart, ← List.append_cons, trimEnd_append_cons (hw last (by simp)), List.append_cons]

@[simp] theorem trim_trimEnd (cs : List Char) : trim (trimEnd cs) = trim cs := by
  induction cs using List.reverseRecOn with
  | nil => rfl
  | append_singleton cs c ih =>
    by_cases hc : isBlank c
    · rw [trimEnd_append_blank hc, trim_append_blank hc, ih]
    · rw [trimEnd_append_cons (Bool.eq_false_iff.2 hc)]
      rfl

/-- Text that begins and ends with characters that are no white space. -/
structure IsFramed (cs : List Char) : Prop where
  first : ∃ c ∈ cs.head?, isBlank c = false
  last : ∃ c ∈ cs.getLast?, isBlank c = false

theorem IsFramed.trimStart_eq {cs : List Char} (h : IsFramed cs) : trimStart cs = cs := by
  obtain ⟨c, hc, hblank⟩ := h.first
  cases cs with
  | nil => rfl
  | cons d ds =>
    obtain rfl : d = c := Option.some.inj hc
    exact List.dropWhile_cons_of_neg (by simp [hblank])

theorem IsFramed.reverse {cs : List Char} (h : IsFramed cs) : IsFramed cs.reverse where
  first := by
    rw [List.head?_reverse]
    exact h.last
  last := by
    rw [List.getLast?_reverse]
    exact h.first

theorem IsFramed.trimEnd_eq {cs : List Char} (h : IsFramed cs) : trimEnd cs = cs := by
  have hreverse := h.reverse.trimStart_eq
  unfold trimStart at hreverse
  rw [trimEnd, hreverse, List.reverse_reverse]

/-- There is nothing to trim. -/
theorem IsFramed.trim_eq {cs : List Char} (h : IsFramed cs) : trim cs = cs := by
  rw [trim, h.trimStart_eq, h.trimEnd_eq]

theorem trimEnd_isPrefix (cs : List Char) : trimEnd cs <+: cs :=
  List.rdropWhile_prefix isBlank cs

theorem trim_sublist (cs : List Char) : (trim cs).Sublist cs :=
  (trimEnd_isPrefix _).sublist.trans (List.dropWhile_suffix _).sublist

/-- Nothing is left of white space alone. -/
theorem isEmpty_trim (cs : List Char) : (trim cs).isEmpty = cs.all isBlank := by
  rw [Bool.eq_iff_iff, List.isEmpty_iff, List.all_eq_true]
  constructor
  · intro h c hc
    have hrest := List.rdropWhile_eq_nil_iff.1 h
    rw [← List.takeWhile_append_dropWhile (p := isBlank) (l := cs)] at hc
    rcases List.mem_append.1 hc with hc | hc
    · exact List.mem_takeWhile_imp hc
    · exact hrest c hc
  · intro h
    have hstart : trimStart cs = [] := List.dropWhile_eq_nil_iff.2 h
    rw [trim, hstart]
    rfl

theorem isEmpty_trim_of_mem {cs : List Char} {c : Char} (hc : c ∈ cs) (hblank : isBlank c = false) :
    (trim cs).isEmpty = false := by
  rw [isEmpty_trim, List.all_eq_false]
  exact ⟨c, hc, by simp [hblank]⟩

theorem IsWord.isFramed {w : List Char} (h : IsWord w) : IsFramed w where
  first := ⟨w.head h.1, List.head?_eq_some_head h.1, h.2 _ (List.head_mem h.1)⟩
  last := ⟨w.getLast h.1, List.getLast?_eq_some_getLast h.1, h.2 _ (List.getLast_mem h.1)⟩

/-- What is left of a text, if anything, begins and ends with characters that are no white space. -/
theorem isFramed_trim {cs : List Char} (h : trim cs ≠ []) : IsFramed (trim cs) where
  first := by
    obtain ⟨rest, hrest⟩ := trimEnd_isPrefix (trimStart cs)
    obtain ⟨c, kept, hkept⟩ := List.exists_cons_of_ne_nil h
    unfold trim at hkept
    have hhead : (trimStart cs).head? = some c := by
      rw [← hrest, hkept]
      rfl
    have hnot := List.head?_dropWhile_not isBlank cs
    unfold trimStart at hhead
    rw [hhead] at hnot
    exact ⟨c, by rw [trim, hkept]; rfl, hnot⟩
  last := by
    have hlast := List.rdropWhile_last_not isBlank (trimStart cs) h
    exact ⟨(trim cs).getLast h, List.getLast?_eq_some_getLast h, Bool.eq_false_iff.2 hlast⟩

/-- There is nothing more to trim. -/
theorem trim_trim (cs : List Char) : trim (trim cs) = trim cs := by
  by_cases h : trim cs = []
  · rw [h]
    rfl
  · exact (isFramed_trim h).trim_eq

theorem IsFramed.append {before after : List Char} (hbefore : IsFramed before)
    (hafter : IsFramed after) (between : List Char) :
    IsFramed (before ++ (between ++ after)) where
  first := by
    obtain ⟨c, hc, hblank⟩ := hbefore.first
    exact ⟨c, by simp [List.head?_append, Option.mem_def.1 hc], hblank⟩
  last := by
    obtain ⟨c, hc, hblank⟩ := hafter.last
    exact ⟨c, by simp [List.getLast?_append, Option.mem_def.1 hc], hblank⟩

/-- Parts that are trimmed stay so with a separator between them. -/
theorem isFramed_join {before after : List Char} {sep : Char} (hsep : isBlank sep = false)
    (hbefore : trim before = before) (hafter : trim after = after) :
    IsFramed (before ++ sep :: after) where
  first := by
    by_cases hne : before = []
    · exact ⟨sep, by simp [hne], hsep⟩
    · obtain ⟨c, hc, hblank⟩ := (isFramed_trim (by rwa [hbefore])).first
      rw [hbefore] at hc
      exact ⟨c, by simp [List.head?_append, Option.mem_def.1 hc], hblank⟩
  last := by
    by_cases hne : after = []
    · exact ⟨sep, by simp [hne], hsep⟩
    · obtain ⟨c, hc, hblank⟩ := (isFramed_trim (by rwa [hafter])).last
      rw [hafter] at hc
      exact ⟨c, by simp [List.getLast?_append, List.getLast?_cons, Option.mem_def.1 hc], hblank⟩

theorem isFramed_quoted (cs : List Char) : IsFramed ('"' :: (cs ++ ['"'])) where
  first := ⟨'"', rfl, by decide⟩
  last := by
    refine ⟨'"', ?_, by decide⟩
    rw [← List.cons_append, List.getLast?_concat]
    rfl

theorem isFramed_intercalate {sep : Char} {parts : List (List Char)} (hne : parts ≠ [])
    (h : ∀ part ∈ parts, IsFramed part) : IsFramed (List.intercalate [sep] parts) := by
  induction parts with
  | nil => exact absurd rfl hne
  | cons part parts ih =>
    have hpart := h part List.mem_cons_self
    cases parts with
    | nil => simpa [List.intercalate] using hpart
    | cons next parts =>
      rw [List.intercalate_cons_cons, List.append_assoc]
      exact hpart.append (ih (by simp) fun p hp => h p (List.mem_cons_of_mem _ hp)) [sep]

/-! ## Parts -/

/-- A text that stands between two semicolons as it is. -/
def IsPart (cs : List Char) : Prop :=
  trim cs = cs ∧ ';' ∉ cs

instance (cs : List Char) : Decidable (IsPart cs) :=
  inferInstanceAs (Decidable (_ ∧ _))

/-- Characters that are neither white space nor semicolons. -/
theorem isPart_of_forall {cs : List Char} (h : ∀ c ∈ cs, isBlank c = false ∧ c ≠ ';') :
    IsPart cs :=
  ⟨trim_of_forall_not_blank fun c hc => (h c hc).1, fun hmem => (h _ hmem).2 rfl⟩

theorem isPart_join {before after : List Char} {sep : Char} (hsep : isBlank sep = false)
    (hne : sep ≠ ';') (hbefore : IsPart before) (hafter : IsPart after) :
    IsPart (before ++ sep :: after) := by
  refine ⟨(isFramed_join hsep hbefore.1 hafter.1).trim_eq, ?_⟩
  simp [hbefore.2, hafter.2, hne.symm]

/-! ## Stripping -/

theorem stripChar_sublist (c : Char) (cs : List Char) : (stripChar c cs).Sublist cs :=
  (List.rdropWhile_prefix (· == c) _).sublist.trans (List.dropWhile_suffix _).sublist

theorem head?_stripChar (c : Char) (cs : List Char) : (stripChar c cs).head? ≠ some c := by
  intro hhead
  obtain ⟨rest, hrest⟩ := List.rdropWhile_prefix (· == c) (cs.dropWhile (· == c))
  have hdrop : (cs.dropWhile (· == c)).head? = some c := by
    have hkept : (List.rdropWhile (· == c) (cs.dropWhile (· == c))).head? = some c := hhead
    rw [← hrest, List.head?_append, hkept, Option.some_or]
  have hnot := List.head?_dropWhile_not (· == c) cs
  rw [hdrop] at hnot
  simp at hnot

theorem getLast?_stripChar (c : Char) (cs : List Char) : (stripChar c cs).getLast? ≠ some c := by
  intro hlast
  have hne : stripChar c cs ≠ [] := by
    rintro hnil
    simp [hnil] at hlast
  have hnot := List.rdropWhile_last_not (· == c) (cs.dropWhile (· == c)) hne
  rw [List.getLast?_eq_some_getLast hne] at hlast
  exact hnot (beq_iff_eq.2 (Option.some.inj hlast))

/-- What is put between two characters is found again, if it does not begin or end with one. -/
theorem stripChar_cons_append {c : Char} {cs : List Char} (hfirst : cs.head? ≠ some c)
    (hlast : cs.getLast? ≠ some c) : stripChar c (c :: (cs ++ [c])) = cs := by
  rcases List.eq_nil_or_concat' cs with rfl | ⟨front, last, rfl⟩
  · simp [stripChar]
  · have hl : last ≠ c := by simpa using hlast
    have hstart : (front ++ [last] ++ [c]).dropWhile (· == c) = front ++ [last] ++ [c] := by
      cases front with
      | nil => simp [hl]
      | cons d ds =>
        have hd : d ≠ c := by simpa using hfirst
        simp [hd]
    unfold stripChar
    rw [List.dropWhile_cons_of_pos (by simp), hstart]
    simp [hl]

/-! ## Cuts -/

/-- The cut is at the character behind a text without such characters. -/
theorem cutWhere_append {p : Char → Bool} {before : List Char} (h : ∀ c ∈ before, p c = false)
    {sep : Char} (hsep : p sep) (after : List Char) :
    cutWhere p (before ++ sep :: after) = some (before, after) := by
  have hp : ∀ c ∈ before, (!p c) = true := by
    intro c hc
    rw [h c hc]
    rfl
  have hdrop : (before ++ sep :: after).dropWhile (!p ·) = sep :: after := by
    rw [List.dropWhile_append_of_pos hp]
    simp [hsep]
  have htake : (before ++ sep :: after).takeWhile (!p ·) = before := by
    rw [List.takeWhile_append_of_pos hp]
    simp [hsep]
  simp only [cutWhere, hdrop, htake]

theorem cutWhere_eq_none {p : Char → Bool} {cs : List Char} (h : ∀ c ∈ cs, p c = false) :
    cutWhere p cs = none := by
  have hdrop : cs.dropWhile (!p ·) = [] := by
    refine List.dropWhile_eq_nil_iff.2 fun c hc => ?_
    rw [h c hc]
    rfl
  simp only [cutWhere, hdrop]

/-- The first separator is the one behind a text without separators. -/
theorem cut_append {sep : Char} {before : List Char} (h : sep ∉ before) (after : List Char) :
    cut sep (before ++ sep :: after) = some (before, after) := by
  have hbefore : ∀ c ∈ before, (c == sep) = false := by
    intro c hc
    simpa using ne_of_mem_of_not_mem hc h
  exact cutWhere_append hbefore (beq_self_eq_true _) after

theorem cut_eq_none {sep : Char} {cs : List Char} (h : sep ∉ cs) : cut sep cs = none :=
  cutWhere_eq_none fun c hc => by simpa using ne_of_mem_of_not_mem hc h

/-- What is cut is put together again with the separator. -/
theorem eq_append_of_cut {sep : Char} {cs before after : List Char}
    (h : cut sep cs = some (before, after)) : sep ∉ before ∧ cs = before ++ sep :: after := by
  unfold cut cutWhere at h
  split at h
  next => cases h
  next c rest hdrop =>
    obtain ⟨rfl, rfl⟩ := Prod.mk.inj (Option.some.inj h)
    have hsep : c = sep := by
      have hhead := List.head?_dropWhile_not (fun c => !(c == sep)) cs
      rw [hdrop] at hhead
      simpa using hhead
    constructor
    · intro hmem
      simpa using List.mem_takeWhile_imp hmem
    · subst hsep
      rw [← hdrop, List.takeWhile_append_dropWhile]

/-- The last separator is the one in front of a text without separators. -/
theorem cutLast_append {sep : Char} {after : List Char} (h : sep ∉ after) (before : List Char) :
    cutLast sep (before ++ sep :: after) = some (before, after) := by
  have hreverse : (before ++ sep :: after).reverse = after.reverse ++ sep :: before.reverse := by
    simp
  have hafter : sep ∉ after.reverse := fun hmem => h (List.mem_reverse.1 hmem)
  rw [cutLast, hreverse, cut_append hafter]
  simp

theorem cutLast_eq_none {sep : Char} {cs : List Char} (h : sep ∉ cs) : cutLast sep cs = none := by
  have hreverse : sep ∉ cs.reverse := fun hmem => h (List.mem_reverse.1 hmem)
  rw [cutLast, cut_eq_none hreverse]
  rfl

theorem eq_append_of_cutLast {sep : Char} {cs before after : List Char}
    (h : cutLast sep cs = some (before, after)) : sep ∉ after ∧ cs = before ++ sep :: after := by
  obtain ⟨⟨back, front⟩, hcut, hparts⟩ := Option.map_eq_some_iff.1 h
  obtain ⟨rfl, rfl⟩ := Prod.mk.inj hparts
  obtain ⟨hback, hreverse⟩ := eq_append_of_cut hcut
  refine ⟨fun hmem => hback (List.mem_reverse.1 hmem), ?_⟩
  rw [← List.reverse_reverse cs, hreverse]
  simp

theorem dropLead?_append (lead : String) (rest : List Char) :
    dropLead? lead (lead.toList ++ rest) = some rest := by
  simp [dropLead?, ← String.length_toList]

theorem eq_append_of_dropLead? {lead : String} {cs rest : List Char}
    (h : dropLead? lead cs = some rest) : cs = lead.toList ++ rest := by
  unfold dropLead? at h
  split at h
  next hlead =>
    obtain ⟨kept, rfl⟩ := List.isPrefixOf_iff_prefix.1 hlead
    obtain rfl : kept = rest := by simpa [← String.length_toList] using h
    rfl
  next => cases h

/-- Parts that hold no separator are found again. -/
theorem splitOn_append_flatMap {α : Type} [BEq α] [LawfulBEq α] {sep : α} {part : List α}
    {parts : List (List α)} (h : ∀ p ∈ part :: parts, sep ∉ p) :
    (part ++ parts.flatMap (sep :: ·)).splitOn sep = part :: parts := by
  induction parts generalizing part with
  | nil =>
    rw [List.flatMap_nil, List.append_nil]
    exact List.splitOn_eq_singleton (h part List.mem_cons_self)
  | cons next parts ih =>
    rw [List.flatMap_cons, List.cons_append,
      List.splitOn_append_cons_self_of_not_mem (h part List.mem_cons_self),
      ih fun p hp => h p (List.mem_cons_of_mem _ hp)]

/-- The first part stands at the front. -/
theorem prefix_of_splitOn {sep : Char} {cs first : List Char} {parts : List (List Char)}
    (h : cs.splitOn sep = first :: parts) : first <+: cs := by
  have hjoin : List.intercalate [sep] (cs.splitOn sep) = cs := List.intercalate_splitOn sep
  rw [← hjoin, h]
  cases parts with
  | nil => simp
  | cons next parts =>
    rw [List.intercalate_cons_cons, List.append_assoc]
    exact List.prefix_append first _

/-! ## Numerals -/

theorem isBlank_of_isDigit {c : Char} (h : c.isDigit) : isBlank c = false := by
  have hn : 48 ≤ c.toNat ∧ c.toNat ≤ 57 := by
    simpa [Char.isDigit, UInt32.le_iff_toNat_le] using h
  simp only [isBlank]
  simp
  omega

theorem isDigit_of_mem_toDigits {n : Nat} {c : Char} (h : c ∈ Nat.toDigits 10 n) : c.isDigit :=
  Nat.isDigit_of_mem_toDigits (by decide) (by decide) h

/-- A numeral as it is written is a word. -/
theorem isWord_toDigits (n : Nat) : IsWord (Nat.toDigits 10 n) :=
  ⟨List.ne_nil_of_length_pos Nat.length_toDigits_pos,
    fun _ hc => isBlank_of_isDigit (isDigit_of_mem_toDigits hc)⟩

theorem not_blank_of_isDigit {c : Char} (h : c.isDigit) : isBlank c = false ∧ c ≠ ';' := by
  refine ⟨isBlank_of_isDigit h, ?_⟩
  rintro rfl
  exact absurd h (by decide)

theorem isPart_toDigits (n : Nat) : IsPart (Nat.toDigits 10 n) :=
  isPart_of_forall fun _ hc => not_blank_of_isDigit (isDigit_of_mem_toDigits hc)

theorem dropPlus_toDigits (n : Nat) : dropPlus (Nat.toDigits 10 n) = Nat.toDigits 10 n := by
  unfold dropPlus
  split
  next digits h =>
    have hplus : '+' ∈ Nat.toDigits 10 n := h ▸ List.mem_cons_self
    exact absurd (isDigit_of_mem_toDigits hplus) (by decide)
  next => rfl

@[simp] theorem trim_toDigits (n : Nat) : trim (Nat.toDigits 10 n) = Nat.toDigits 10 n :=
  trim_of_forall_not_blank (isWord_toDigits n).2

/-- Reading a number as it is written gives the number back. -/
theorem readDecimal_toDigits {bound n : Nat} (h : n < bound) :
    readDecimal bound (Nat.toDigits 10 n) = some n := by
  have hne : (Nat.toDigits 10 n).isEmpty = false :=
    List.isEmpty_eq_false_iff.2 (isWord_toDigits n).1
  have hall : (Nat.toDigits 10 n).all Char.isDigit = true :=
    List.all_eq_true.2 fun c hc => isDigit_of_mem_toDigits hc
  simp [readDecimal, dropPlus_toDigits, hne, hall, h]

theorem readDecimal_lt {bound n : Nat} {cs : List Char} (h : readDecimal bound cs = some n) :
    n < bound := by
  unfold readDecimal at h
  dsimp only at h
  split at h
  next => cases h
  next =>
    split at h
    next hlt => exact Option.some.inj h ▸ hlt
    next => cases h

/-- A numeral is not read as another number. -/
theorem eq_of_readUInt8_toDigits {n : Nat} {v : UInt8}
    (h : readUInt8 (Nat.toDigits 10 n) = some v) : n = v.toNat := by
  obtain ⟨m, hm, rfl⟩ := Option.map_eq_some_iff.1 h
  unfold readDecimal at hm
  dsimp only at hm
  rw [dropPlus_toDigits, Nat.ofDigitChars_toDigits (by decide) (by decide)] at hm
  split at hm
  next => cases hm
  next =>
    split at hm
    next hlt =>
      obtain rfl := Option.some.inj hm
      exact (UInt8.toNat_ofNat_of_lt hlt).symm
    next => cases hm

theorem readUInt8_toDigits (n : UInt8) : readUInt8 (Nat.toDigits 10 n.toNat) = some n := by
  have hread : readDecimal UInt8.size (Nat.toDigits 10 n.toNat) = some n.toNat :=
    readDecimal_toDigits n.toNat_lt
  simp [readUInt8, hread]

theorem readUInt16_toDigits (n : UInt16) : readUInt16 (Nat.toDigits 10 n.toNat) = some n := by
  have hread : readDecimal UInt16.size (Nat.toDigits 10 n.toNat) = some n.toNat :=
    readDecimal_toDigits n.toNat_lt
  simp [readUInt16, hread]

theorem readUInt32_toDigits (n : UInt32) : readUInt32 (Nat.toDigits 10 n.toNat) = some n := by
  have hread : readDecimal UInt32.size (Nat.toDigits 10 n.toNat) = some n.toNat :=
    readDecimal_toDigits n.toNat_lt
  simp [readUInt32, hread]

end Rtsp.Text
