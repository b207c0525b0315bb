-- SUMMARY: A list of transport specifications is read back if no mode holds a comma.
import Mathlib.Data.List.Forall2
import Rtsp.Proofs.Transport

/-!
# Lists of specifications

A header value is cut at every comma, also at those between the quotes of a mode
(`Transport.specs_append_cons`). Each text of a list makes at least one specification, and a text
with a comma in its mode makes two or more. So the right number is read only if no mode holds a
comma; and then each text is one piece, which is read back with the blank in front of it
(`Transport.parseAll_intercalate`).
-/

namespace Rtsp

open Text

namespace Transport

/-! ## Cutting -/

/-- The texts that are read as specifications. -/
def specs (cs : List Char) : List (List Char) :=
  (cs.splitOn ',').filter fun spec => !(trim spec).isEmpty

theorem specs_append_cons (before after : List Char) :
    specs (before ++ ',' :: after) = specs before ++ specs after := by
  have hsplit : (before ++ ',' :: after).splitOn ',' = before.splitOn ',' ++ after.splitOn ',' :=
    List.splitOnP_append_cons before after (by decide)
  rw [specs, hsplit, List.filter_append]
  rfl

theorem specs_eq_singleton {cs : List Char} (hcomma : ',' ∉ cs) {c : Char} (hc : c ∈ cs)
    (hblank : isBlank c = false) : specs cs = [cs] := by
  have hsome := isEmpty_trim_of_mem hc hblank
  rw [specs, List.splitOn_eq_singleton hcomma]
  simp [hsome]

/-- Text with more than white space and commas makes a specification. -/
theorem length_specs_pos {cs : List Char} {c : Char} (hc : c ∈ cs) (hcomma : c ≠ ',')
    (hblank : isBlank c = false) : 0 < (specs cs).length := by
  have hjoin : List.intercalate [','] (cs.splitOn ',') = cs := List.intercalate_splitOn ','
  rw [← hjoin] at hc
  obtain ⟨spec, hspec, hmem⟩ := (mem_intercalate hc).resolve_left hcomma
  have hsome := isEmpty_trim_of_mem hmem hblank
  exact List.length_pos_of_mem (List.mem_filter.2 ⟨hspec, by simp [hsome]⟩)

/-- What is joined by a comma and a blank is cut at the comma, and the blank stays. -/
theorem specs_intercalate (part : List Char) (parts : List (List Char)) :
    specs (List.intercalate [',', ' '] (part :: parts))
      = (part :: parts.map (' ' :: ·)).flatMap specs := by
  induction parts generalizing part with
  | nil => simp [List.intercalate]
  | cons next parts ih =>
    have hblank : ' ' :: List.intercalate [',', ' '] (next :: parts)
        = List.intercalate [',', ' '] ((' ' :: next) :: parts) := by
      cases parts <;> simp [List.intercalate]
    have hcut : List.intercalate [',', ' '] (part :: next :: parts)
        = part ++ ',' :: (' ' :: List.intercalate [',', ' '] (next :: parts)) := by
      rw [List.intercalate_cons_cons, List.append_assoc]
      rfl
    rw [hcut, specs_append_cons, hblank, ih]
    rfl

/-! ## Reading -/

theorem read?_cons_blank {b : Char} (hb : isBlank b) (cs : List Char) :
    read? (b :: cs) = read? cs := by
  have hsemi : (b == ';') ≠ true := by
    intro h
    rw [beq_iff_eq.1 h] at hb
    exact absurd hb (by decide)
  obtain ⟨spec, parameters, hsplit⟩ := List.exists_cons_of_ne_nil (List.splitOn_ne_nil ';' cs)
  unfold read?
  rw [List.splitOn_cons_eq_if_modifyHead, if_neg hsemi, hsplit, List.modifyHead_cons,
    List.map_cons, List.map_cons, trim_cons_blank hb]

theorem parse_eq_ok_iff {spec : List Char} {t : Transport} :
    parse (String.ofList spec) = .ok t ↔ read? spec = some t := by
  unfold parse
  rw [String.toList_ofList]
  cases read? spec <;> simp

/-- A list is read from as many specifications, each from its own. -/
theorem parseAll_eq_ok_iff {value : String} {ts : List Transport} :
    parseAll value = .ok ts
      ↔ List.Forall₂ (fun spec t => read? spec = some t) (specs value.toList) ts := by
  have hall : parseAll value
      = (specs value.toList).mapM fun spec => parse (String.ofList spec) := rfl
  rw [hall]
  induction specs value.toList generalizing ts with
  | nil =>
    rw [List.mapM_nil, List.forall₂_nil_left_iff]
    exact ⟨fun h => (Except.ok.inj h).symm, fun h => congrArg _ h.symm⟩
  | cons spec later ih =>
    rw [List.mapM_cons, List.forall₂_cons_left_iff]
    constructor
    · intro h
      cases hspec : parse (String.ofList spec) with
      | error e =>
        rw [hspec] at h
        cases h
      | ok t =>
        cases hlater : later.mapM fun spec => parse (String.ofList spec) with
        | error e =>
          rw [hspec, hlater] at h
          cases h
        | ok rest =>
          rw [hspec, hlater] at h
          exact ⟨t, rest, parse_eq_ok_iff.1 hspec, ih.1 hlater, (Except.ok.inj h).symm⟩
    · rintro ⟨t, rest, hspec, hlater, rfl⟩
      rw [parse_eq_ok_iff.2 hspec, ih.2 hlater]
      rfl

/-! ## Lists that can be written -/

/-- A specification with commas in its mode at most. -/
structure IsListable (t : Transport) : Prop where
  wellFormed : t.WellFormed
  protocol : ',' ∉ t.protocol.toList
  profile : ',' ∉ t.profile.toList
  destination : ∀ v ∈ t.destination, ',' ∉ v.toList
  source : ∀ v ∈ t.source, ',' ∉ v.toList

theorem comma_not_mem_field {α : Type} {name : String} (hname : ',' ∉ name.toList)
    {write : α → String} {value : Option α} (hvalue : ∀ v ∈ value, ',' ∉ (write v).toList) :
    ∀ f ∈ field name write value, ',' ∉ f := by
  intro f hf
  unfold field at hf
  obtain ⟨v, hv, rfl⟩ := Option.map_eq_some_iff.1 (Option.mem_toList.1 hf)
  simp [hname, hvalue v hv]

theorem comma_not_mem_fields {t : Transport} (h : t.IsListable)
    (hmode : ∀ mode ∈ t.mode, ',' ∉ mode.toList) : ∀ f ∈ t.fields, ',' ∉ f := by
  have hdigits : ∀ n, ',' ∉ Nat.toDigits 10 n := fun n hmem =>
    absurd (isDigit_of_mem_toDigits hmem) (by decide)
  have hpair : ∀ p : PortPair, ',' ∉ p.text.toList := by
    intro p
    rw [PortPair.toList_text]
    cases p.second <;> simp [hdigits]
  have hhex : ∀ n, ',' ∉ (hexUpper 8 n).toList := fun n hmem =>
    absurd (mem_hexUpper hmem) (by decide)
  unfold fields
  simp only [List.forall_mem_cons, List.forall_mem_append]
  refine ⟨by split <;> decide, comma_not_mem_field (by decide) h.destination,
    comma_not_mem_field (by decide) h.source, comma_not_mem_field (by decide) fun p _ => hpair p,
    by split <;> simp, comma_not_mem_field (by decide) fun n _ => ?_,
    comma_not_mem_field (by decide) fun n _ => ?_,
    comma_not_mem_field (by decide) fun p _ => hpair p,
    comma_not_mem_field (by decide) fun p _ => hpair p,
    comma_not_mem_field (by decide) fun p _ => hpair p,
    comma_not_mem_field (by decide) fun n _ => hhex _,
    comma_not_mem_field (by decide) fun mode hmem => ?_⟩
  · simpa using hdigits n.toNat
  · simpa using hdigits n.toNat
  · simpa using hmode mode hmem

theorem comma_not_mem_text {t : Transport} (h : t.IsListable)
    (hmode : ∀ mode ∈ t.mode, ',' ∉ mode.toList) : ',' ∉ t.text.toList := by
  have hhead : ',' ∉ t.head := by
    simp [head, h.protocol, h.profile]
  rw [toList_text, List.mem_append]
  rintro (hmem | hmem)
  · exact hhead hmem
  · obtain ⟨f, hf, hmem⟩ := List.mem_flatMap.1 hmem
    rcases List.mem_cons.1 hmem with hsemi | hmem
    · exact absurd hsemi (by decide)
    · exact comma_not_mem_fields h hmode f hf hmem

theorem slash_mem_text (t : Transport) : '/' ∈ t.text.toList := by
  rw [toList_text, head]
  simp

/-- How the text of a specification stands between the commas of a list. -/
inductive IsPiece : List Char → Transport → Prop where
  | first (t : Transport) : IsPiece t.text.toList t
  /-- The comma in front is followed by a blank. -/
  | later (t : Transport) : IsPiece (' ' :: t.text.toList) t

theorem IsPiece.length_specs_pos {piece : List Char} {t : Transport} (h : IsPiece piece t) :
    0 < (specs piece).length := by
  have hmem : '/' ∈ piece := by
    cases h with
    | first => exact slash_mem_text t
    | later => exact List.mem_cons_of_mem _ (slash_mem_text t)
  exact Transport.length_specs_pos hmem (by decide) (by decide)

/-- A comma in a mode cuts its text in two. -/
theorem IsPiece.one_lt_length_specs {piece : List Char} {t : Transport} (h : IsPiece piece t)
    {mode : String} (hmode : t.mode = some mode) (hcomma : ',' ∈ mode.toList) :
    1 < (specs piece).length := by
  obtain ⟨before, after, hsplit⟩ := List.append_of_mem hcomma
  have htext : ∃ front, t.text.toList = front ++ '"' :: (before ++ ',' :: (after ++ ['"'])) := by
    refine ⟨({ t with mode := none }.text ++ ";mode=").toList, ?_⟩
    unfold text
    simp [parameter, hmode, hsplit]
  obtain ⟨front, hfront⟩ := htext
  have hpiece : ∃ front, piece = (front ++ '"' :: before) ++ ',' :: (after ++ ['"']) := by
    cases h with
    | first => exact ⟨front, by simp [hfront]⟩
    | later => exact ⟨' ' :: front, by simp [hfront]⟩
  obtain ⟨front, rfl⟩ := hpiece
  -- A quote is left on each side, which is neither white space nor a comma.
  have hfirst : 0 < (specs (front ++ '"' :: before)).length :=
    Transport.length_specs_pos (c := '"') (by simp) (by decide) (by decide)
  have hlast : 0 < (specs (after ++ ['"'])).length :=
    Transport.length_specs_pos (c := '"') (by simp) (by decide) (by decide)
  rw [specs_append_cons, List.length_append]
  omega

/-- Texts make at least as many specifications as there are, and more if a mode holds a comma. -/
theorem length_le_of_isPiece {pieces : List (List Char)} {ts : List Transport}
    (h : List.Forall₂ IsPiece pieces ts) :
    ts.length ≤ (pieces.flatMap specs).length
      ∧ ((∃ t ∈ ts, ∃ mode ∈ t.mode, ',' ∈ mode.toList) →
        ts.length < (pieces.flatMap specs).length) := by
  induction h with
  | nil => simp
  | @cons piece t pieces ts hpiece _ ih =>
    have hpos := hpiece.length_specs_pos
    rw [List.flatMap_cons, List.length_append, List.length_cons]
    refine ⟨by omega, ?_⟩
    rintro ⟨u, hu, mode, hmode, hcomma⟩
    rcases List.mem_cons.1 hu with rfl | hu
    · have hcut := hpiece.one_lt_length_specs hmode hcomma
      omega
    · have hlater := ih.2 ⟨u, hu, mode, hmode, hcomma⟩
      omega

/-- Without commas each text is one specification, and it is read back. -/
theorem read?_of_isPiece {pieces : List (List Char)} {ts : List Transport}
    (h : List.Forall₂ IsPiece pieces ts) (hlistable : ∀ t ∈ ts, t.IsListable)
    (hmode : ∀ t ∈ ts, ∀ mode ∈ t.mode, ',' ∉ mode.toList) :
    List.Forall₂ (fun spec t => read? spec = some t) (pieces.flatMap specs) ts := by
  induction h with
  | nil => exact .nil
  | @cons piece t pieces ts hpiece _ ih =>
    have ht := hlistable t List.mem_cons_self
    have hcomma := comma_not_mem_text ht (hmode t List.mem_cons_self)
    have hslash := slash_mem_text t
    have hone : specs piece = [piece] ∧ read? piece = some t := by
      cases hpiece with
      | first => exact ⟨specs_eq_singleton hcomma hslash (by decide), read?_text ht.wellFormed⟩
      | later =>
        rw [read?_cons_blank (by decide)]
        exact ⟨specs_eq_singleton (by simp [hcomma]) (List.mem_cons_of_mem _ hslash) (by decide),
          read?_text ht.wellFormed⟩
    rw [List.flatMap_cons, hone.1]
    exact .cons hone.2 (ih (fun u hu => hlistable u (List.mem_cons_of_mem _ hu))
      fun u hu => hmode u (List.mem_cons_of_mem _ hu))

/-- The pieces of a list as it is written. -/
theorem exists_pieces (ts : List Transport) :
    ∃ pieces, specs (String.intercalate ", " (ts.map text)).toList = pieces.flatMap specs
      ∧ List.Forall₂ IsPiece pieces ts := by
  rw [String.toList_intercalate, List.map_map]
  cases ts with
  | nil => exact ⟨[], rfl, .nil⟩
  | cons t ts =>
    refine ⟨_, specs_intercalate t.text.toList (ts.map (String.toList ∘ text)), ?_⟩
    refine .cons (.first t) ?_
    rw [List.map_map, List.forall₂_map_left_iff, List.forall₂_same]
    exact fun u _ => .later u

/-- A list is read back as it was written if no mode holds a comma, and only then. -/
theorem parseAll_intercalate (ts : List Transport) (h : ∀ t ∈ ts, t.IsListable) :
    parseAll (String.intercalate ", " (ts.map text)) = .ok ts
      ↔ ∀ t ∈ ts, ∀ mode ∈ t.mode, ',' ∉ mode.toList := by
  obtain ⟨pieces, hspecs, hpieces⟩ := exists_pieces ts
  rw [parseAll_eq_ok_iff, hspecs]
  constructor
  · intro hread t ht mode hmode hcomma
    have hmore := (length_le_of_isPiece hpieces).2 ⟨t, ht, mode, hmode, hcomma⟩
    exact absurd hread.length_eq (Nat.ne_of_gt hmore)
  · exact read?_of_isPiece hpieces h

/-- Two specifications, the second with a quoted text that is not trimmed. -/
theorem parseAll_intercalate_two :
    let ts : List Transport :=
      [onChannels 0 1, { toPorts ⟨4588, some 4589⟩ with ssrc := some 0xAB, mode := some " PLAY " }]
    (∀ t ∈ ts, t.IsListable) ∧ (∀ t ∈ ts, ∀ mode ∈ t.mode, ',' ∉ mode.toList)
      ∧ parseAll (String.intercalate ", " (ts.map text)) = .ok ts := by
  intro ts
  have hlistable : ∀ t ∈ ts, t.IsListable := by
    refine List.forall_mem_cons.2 ⟨?_, List.forall_mem_singleton.2 ?_⟩
    · exact ⟨⟨by decide, by decide, by decide, by decide, by decide⟩, by decide, by decide,
        by decide, by decide⟩
    · exact ⟨⟨by decide, by decide, by decide, by decide, by decide⟩, by decide, by decide,
        by decide, by decide⟩
  have hmode : ∀ t ∈ ts, ∀ mode ∈ t.mode, ',' ∉ mode.toList := by
    decide
  exact ⟨hlistable, hmode, (parseAll_intercalate ts hlistable).2 hmode⟩

/-- A mode with two methods is written so that it is read back by itself, but not in a list. -/
theorem parseAll_two_methods :
    let t : Transport := { mode := some "PLAY,RECORD" }
    t.IsListable ∧ parse t.text = .ok t
      ∧ parseAll (String.intercalate ", " ([t].map text)) = .error (.parse .transport) := by
  intro t
  have hwell : t.WellFormed := ⟨by decide, by decide, by decide, by decide, by decide⟩
  refine ⟨⟨hwell, by decide, by decide, by decide, by decide⟩, ?_, by decide +kernel⟩
  rw [parse, read?_text hwell]

end Transport
end Rtsp
