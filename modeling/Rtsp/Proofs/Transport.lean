-- SUMMARY: Transport specifications are read back as they are written.
import Rtsp.Proofs.Text.Hex
import Rtsp.Proofs.Text.Words
import Rtsp.Transport

/-!
# Transport round trip

The text of a specification is its first part and its parameters, with semicolons between them
(`Transport.toList_text`). Each parameter is read as what it is in front of any others, and one that
is not there leaves its field as it was (`Transport.foldlM_field`), so all of them are read one
after the other, in the order in which they are written (`Transport.foldlM_fields`). Every text that
is read leaves a specification that can be written (`Transport.wellFormed_of_read?`), but for white
space around a protocol or a profile, which is not trimmed.
-/

namespace Rtsp

open Text

namespace Text

theorem isPart_hexUpper (width n : Nat) : IsPart (hexUpper width n).toList := by
  have hall : "0123456789ABCDEF".toList.all
      (fun d => decide (isBlank d = false ∧ d ≠ ';')) = true := by decide
  exact isPart_of_forall fun c hc => of_decide_eq_true (List.all_eq_true.1 hall c (mem_hexUpper hc))

end Text

/-! ## Pairs -/

namespace PortPair

theorem toList_text (p : PortPair) :
    p.text.toList = Nat.toDigits 10 p.first.toNat
      ++ p.second.elim [] fun second => '-' :: Nat.toDigits 10 second.toNat := by
  unfold text
  split
  next second h => simp [h]
  next h => simp [h]

theorem isPart_text (p : PortPair) : IsPart p.text.toList := by
  rw [toList_text]
  cases p.second with
  | none => simpa using isPart_toDigits _
  | some second => exact isPart_join (by decide) (by decide) (isPart_toDigits _) (isPart_toDigits _)

/-- A pair is read back, with a second number or without. -/
theorem read?_text (p : PortPair) : read? p.text.toList = some p := by
  have hhyphen : ∀ n, '-' ∉ Nat.toDigits 10 n := fun n hmem =>
    absurd (isDigit_of_mem_toDigits hmem) (by decide)
  unfold read?
  rw [(isPart_text p).1, toList_text]
  obtain ⟨first, second⟩ := p
  cases second with
  | none =>
    have hcut := cut_eq_none (hhyphen first.toNat)
    simp [hcut, readUInt16_toDigits]
  | some second =>
    have hcut := cut_append (hhyphen first.toNat) (Nat.toDigits 10 second.toNat)
    simp [hcut, readUInt16_toDigits]

end PortPair

namespace Transport

/-- A specification whose texts are read back. -/
structure WellFormed (t : Transport) : Prop where
  protocol : IsPart t.protocol.toList ∧ '/' ∉ t.protocol.toList
  profile : IsPart t.profile.toList ∧ '/' ∉ t.profile.toList
  destination : ∀ v ∈ t.destination, IsPart v.toList
  source : ∀ v ∈ t.source, IsPart v.toList
  mode : ∀ v ∈ t.mode, ';' ∉ v.toList ∧ v.toList.head? ≠ some '"' ∧ v.toList.getLast? ≠ some '"'

/-! ## Writing -/

/-- The part in front of the parameters. -/
def head (t : Transport) : List Char :=
  t.protocol.toList ++ '/' :: (t.profile.toList ++ if t.lower = .tcp then "/TCP".toList else [])

/-- A parameter with a value, if there is one. -/
def field {α : Type} (name : String) (write : α → String) (value : Option α) : List (List Char) :=
  (value.map fun v => name.toList ++ '=' :: (write v).toList).toList

/-- The parameters, as they are written between semicolons. -/
def fields (t : Transport) : List (List Char) :=
  (if t.multicast then "multicast".toList else "unicast".toList)
    :: (field "destination" id t.destination
    ++ (field "source" id t.source
    ++ (field "interleaved" PortPair.text t.interleaved
    ++ ((if t.append then ["append".toList] else [])
    ++ (field "ttl" (fun n => toString n.toNat) t.ttl
    ++ (field "layers" (fun n => toString n.toNat) t.layers
    ++ (field "port" PortPair.text t.port
    ++ (field "client_port" PortPair.text t.clientPort
    ++ (field "server_port" PortPair.text t.serverPort
    ++ (field "ssrc" (fun n => hexUpper 8 n.toNat) t.ssrc
    ++ field "mode" (fun mode => "\"" ++ mode ++ "\"") t.mode))))))))))

theorem toList_parameter {α : Type} (name : String) (write : α → String) (value : Option α) :
    (parameter name write value).toList = (field name write value).flatMap (';' :: ·) := by
  cases value <;> simp [parameter, field]

theorem toList_text (t : Transport) :
    t.text.toList = t.head ++ t.fields.flatMap (';' :: ·) := by
  have hslash : "/".toList = ['/'] := rfl
  have hlower : (if t.lower = .tcp then "/TCP" else "").toList
      = if t.lower = .tcp then "/TCP".toList else [] := by split <;> rfl
  have hcast : (if t.multicast then ";multicast" else ";unicast").toList
      = ';' :: if t.multicast then "multicast".toList else "unicast".toList := by split <;> rfl
  have happend : (if t.append then ";append" else "").toList
      = (if t.append then ["append".toList] else []).flatMap (';' :: ·) := by split <;> rfl
  unfold text head fields
  simp only [String.toList_append, toList_parameter, List.flatMap_cons, List.flatMap_append, hslash,
    hlower, hcast, happend, List.append_assoc, List.cons_append, List.nil_append]

/-! ## Reading -/

/-- A name of a parameter, as it is looked for. -/
def IsName (name : String) : Prop :=
  IsPart name.toList ∧ '=' ∉ name.toList ∧ Text.lower name = name

instance (name : String) : Decidable (IsName name) :=
  inferInstanceAs (Decidable (_ ∧ _))

theorem isPart_of_mem_field {α : Type} {name : String} (hname : IsName name) {write : α → String}
    {value : Option α} (hvalue : ∀ v ∈ value, IsPart (write v).toList) :
    ∀ f ∈ field name write value, IsPart f ∧ f ≠ [] := by
  intro f hf
  unfold field at hf
  obtain ⟨v, hv, rfl⟩ := Option.map_eq_some_iff.1 (Option.mem_toList.1 hf)
  exact ⟨isPart_join (by decide) (by decide) hname.1 (hvalue v hv), by simp⟩

theorem applyParameter?_append {name : String} (hname : IsName name) (t : Transport)
    (value : List Char) :
    t.applyParameter? (name.toList ++ '=' :: value) = t.applyValue? name (trim value) := by
  obtain ⟨⟨htrim, -⟩, hequals, hlower⟩ := hname
  unfold applyParameter?
  simp only [cut_append hequals, htrim, String.ofList_toList, hlower]

/-- A parameter is read in front of others, whether it is there or not. -/
theorem foldlM_field {α : Type} {name : String} (hname : IsName name) {write : α → String}
    (put : Option α → Transport) {value : Option α}
    (hput : ∀ v ∈ value, (put none).applyValue? name (trim (write v).toList) = some (put (some v)))
    (rest : List (List Char)) :
    (field name write value ++ rest).foldlM applyParameter? (put none)
      = rest.foldlM applyParameter? (put value) := by
  cases value with
  | none => rfl
  | some v =>
    have happly := applyParameter?_append hname (put none) (write v).toList
    rw [hput v rfl] at happly
    simp only [field, Option.map_some, Option.toList_some, List.cons_append, List.nil_append,
      List.foldlM_cons, happly]
    rfl

/-- Trimming leaves a quoted text alone, and then its quotes are stripped and nothing else. -/
theorem stripChar_trim_quoted {cs : List Char} (hfirst : cs.head? ≠ some '"')
    (hlast : cs.getLast? ≠ some '"') : stripChar '"' (trim ('"' :: (cs ++ ['"']))) = cs := by
  rw [(isFramed_quoted cs).trim_eq, stripChar_cons_append hfirst hlast]

/-- The parameters of a specification are read one after the other, each into the field that the
others left alone. -/
theorem foldlM_fields {t : Transport} (h : t.WellFormed) :
    t.fields.foldlM applyParameter?
      { protocol := t.protocol, profile := t.profile, lower := t.lower } = some t := by
  obtain ⟨-, -, hdestination, hsource, hmode⟩ := h
  obtain ⟨protocol, profile, lower, multicast, destination, source, interleaved, append, ttl,
    layers, port, clientPort, serverPort, ssrc, mode⟩ := t
  have hcast : (mk protocol profile lower false none none none false none none none none none none
      none).applyParameter? (if multicast then "multicast".toList else "unicast".toList)
      = some (mk protocol profile lower multicast none none none false none none none none none none
        none) := by
    cases multicast <;> rfl
  unfold fields
  dsimp only
  rw [List.foldlM_cons, hcast, Option.bind_eq_bind, Option.bind_some,
    foldlM_field (by decide)
      (mk protocol profile lower multicast · none none false none none none none none none none)
      (fun v hv => by simp [applyValue?, (hdestination v hv).1]),
    foldlM_field (by decide)
      (mk protocol profile lower multicast destination · none false none none none none none none
        none)
      (fun v hv => by simp [applyValue?, (hsource v hv).1]),
    foldlM_field (by decide)
      (mk protocol profile lower multicast destination source · false none none none none none none
        none)
      (fun v hv => by simp [applyValue?, (PortPair.isPart_text v).1, PortPair.read?_text])]
  have happend : ∀ rest, ((if append then ["append".toList] else []) ++ rest).foldlM applyParameter?
      (mk protocol profile lower multicast destination source interleaved false none none none none
        none none none)
      = rest.foldlM applyParameter?
        (mk protocol profile lower multicast destination source interleaved append none none none
          none none none none) := by
    intro rest
    cases append <;> rfl
  rw [happend,
    foldlM_field (by decide)
      (mk protocol profile lower multicast destination source interleaved append · none none none
        none none none)
      (fun v hv => by simp [applyValue?, readUInt8_toDigits]),
    foldlM_field (by decide)
      (mk protocol profile lower multicast destination source interleaved append ttl · none none
        none none none)
      (fun v hv => by simp [applyValue?, readUInt32_toDigits]),
    foldlM_field (by decide)
      (mk protocol profile lower multicast destination source interleaved append ttl layers · none
        none none none)
      (fun v hv => by simp [applyValue?, (PortPair.isPart_text v).1, PortPair.read?_text]),
    foldlM_field (by decide)
      (mk protocol profile lower multicast destination source interleaved append ttl layers port ·
        none none none)
      (fun v hv => by simp [applyValue?, (PortPair.isPart_text v).1, PortPair.read?_text]),
    foldlM_field (by decide)
      (mk protocol profile lower multicast destination source interleaved append ttl layers port
        clientPort · none none)
      (fun v hv => by simp [applyValue?, (PortPair.isPart_text v).1, PortPair.read?_text]),
    foldlM_field (by decide)
      (mk protocol profile lower multicast destination source interleaved append ttl layers port
        clientPort serverPort · none)
      (fun v hv => by
        simp [applyValue?, (isPart_hexUpper 8 v.toNat).1, readHex_hexUpper 8 v.toNat_lt]),
    ← List.append_nil (field "mode" _ mode),
    foldlM_field (by decide)
      (mk protocol profile lower multicast destination source interleaved append ttl layers port
        clientPort serverPort ssrc ·)
      (fun v hv => by simp [applyValue?, stripChar_trim_quoted (hmode v hv).2.1 (hmode v hv).2.2])]
  rfl

theorem readProfile?_head {t : Transport} (h : t.WellFormed) :
    readProfile? t.head
      = some { protocol := t.protocol, profile := t.profile, lower := t.lower } := by
  unfold readProfile? head
  rw [List.splitOn_append_cons_self_of_not_mem h.protocol.2]
  cases hlower : t.lower with
  | udp =>
    simp only [reduceCtorEq, if_false, List.append_nil]
    rw [List.splitOn_eq_singleton h.profile.2]
    simp
  | tcp =>
    have hparts : (t.profile.toList ++ "/TCP".toList).splitOn '/'
        = [t.profile.toList, "TCP".toList] :=
      (List.splitOn_append_cons_self_of_not_mem h.profile.2 "TCP".toList).trans
        (congrArg (t.profile.toList :: ·) (List.splitOn_eq_singleton (by decide)))
    have hnames : sameIgnoringCase "TCP" "UDP" = false ∧ sameIgnoringCase "TCP" "TCP" = true := by
      decide
    rw [if_pos rfl, hparts]
    simp only [String.ofList_toList, hnames.1, hnames.2]
    rfl

theorem isPart_head {t : Transport} (h : t.WellFormed) : IsPart t.head := by
  unfold head
  refine isPart_join (by decide) (by decide) h.protocol.1 ?_
  split
  · have htcp : IsPart "TCP".toList := by decide
    exact isPart_join (by decide) (by decide) h.profile.1 htcp
  · rw [List.append_nil]
    exact h.profile.1

theorem isPart_of_mem_fields {t : Transport} (h : t.WellFormed) :
    ∀ f ∈ t.fields, IsPart f ∧ f ≠ [] := by
  have hpair : ∀ {name : String} (_ : IsName name) (value : Option PortPair),
      ∀ f ∈ field name PortPair.text value, IsPart f ∧ f ≠ [] := fun hname _ =>
    isPart_of_mem_field hname fun v _ => v.isPart_text
  have hquoted : ∀ v ∈ t.mode, IsPart ("\"" ++ v ++ "\"").toList := by
    intro v hv
    have hframed : IsFramed ('"' :: (v.toList ++ ['"'])) := isFramed_quoted v.toList
    exact ⟨by simpa using hframed.trim_eq, by simpa using (h.mode v hv).1⟩
  unfold fields
  simp only [List.forall_mem_cons, List.forall_mem_append]
  refine ⟨by split <;> decide, isPart_of_mem_field (by decide) h.destination,
    isPart_of_mem_field (by decide) h.source, hpair (by decide) _, ?_,
    isPart_of_mem_field (by decide) fun v _ => ?_, isPart_of_mem_field (by decide) fun v _ => ?_,
    hpair (by decide) _, hpair (by decide) _, hpair (by decide) _,
    isPart_of_mem_field (by decide) fun v _ => isPart_hexUpper 8 _,
    isPart_of_mem_field (by decide) hquoted⟩
  · split
    · decide
    · simp
  · simpa using isPart_toDigits v.toNat
  · simpa using isPart_toDigits v.toNat

/-- A specification is read back as it was written. -/
theorem read?_text {t : Transport} (h : t.WellFormed) : read? t.text.toList = some t := by
  have hparts : ∀ p ∈ t.head :: t.fields, IsPart p := by
    rintro p hp
    rcases List.mem_cons.1 hp with rfl | hp
    · exact isPart_head h
    · exact (isPart_of_mem_fields h p hp).1
  have htrim : (t.head :: t.fields).map trim = t.head :: t.fields :=
    (List.map_congr_left fun p hp => (hparts p hp).1).trans (List.map_id _)
  have hkept : t.fields.filter (!·.isEmpty) = t.fields :=
    List.filter_eq_self.2 fun f hf => by simpa using (isPart_of_mem_fields h f hf).2
  unfold read?
  rw [toList_text, splitOn_append_flatMap fun p hp => (hparts p hp).2, htrim]
  dsimp only
  rw [hkept, readProfile?_head h]
  exact foldlM_fields h

/-! ## What is read -/

theorem isPart_trim {cs : List Char} (h : ';' ∉ cs) : IsPart (trim cs) :=
  ⟨trim_trim cs, fun hmem => h ((trim_sublist cs).subset hmem)⟩

/-- Without white space, protocol and profile are trimmed. -/
theorem wellFormed_of_readProfile? {spec : List Char} {t : Transport}
    (hspec : ∀ c ∈ spec, isBlank c = false ∧ c ≠ ';') (h : readProfile? spec = some t) :
    t.WellFormed := by
  have hpart : ∀ part ∈ spec.splitOn '/', IsPart part ∧ '/' ∉ part := by
    intro part hmem
    refine ⟨isPart_of_forall fun c hc => hspec c (not_and_mem_of_mem_splitOnP hmem hc).2, ?_⟩
    exact fun hslash => absurd (not_and_mem_of_mem_splitOnP hmem hslash).1 (by simp)
  unfold readProfile? at h
  split at h
  next protocol profile more hsplit =>
    have hprotocol := hpart protocol (by simp [hsplit])
    have hprofile := hpart profile (by simp [hsplit])
    have hbase : ∀ lower, WellFormed
        { protocol := String.ofList protocol, profile := String.ofList profile, lower } := by
      intro lower
      refine ⟨?_, ?_, by simp, by simp, by simp⟩
      · rwa [String.toList_ofList]
      · rwa [String.toList_ofList]
    dsimp only at h
    split at h
    next => exact Option.some.inj h ▸ hbase .udp
    next =>
      split_ifs at h
      · exact Option.some.inj h ▸ hbase .udp
      · exact Option.some.inj h ▸ hbase .tcp
  next => cases h

namespace WellFormed

variable {t t' : Transport}

theorem applyFlag (h : t.WellFormed) (name : String) : (t.applyFlag name).WellFormed := by
  unfold Transport.applyFlag
  split <;> exact ⟨h.protocol, h.profile, h.destination, h.source, h.mode⟩

theorem applyValue? (h : t.WellFormed) {name : String} {value : List Char} (hvalue : IsPart value)
    (happly : t.applyValue? name value = some t') : t'.WellFormed := by
  have hsome : ∀ v ∈ some (String.ofList value), IsPart v.toList := by
    intro v hv
    rwa [← Option.some.inj hv, String.toList_ofList]
  have hmode : ∀ v ∈ some (String.ofList (stripChar '"' value)),
      ';' ∉ v.toList ∧ v.toList.head? ≠ some '"' ∧ v.toList.getLast? ≠ some '"' := by
    intro v hv
    rw [← Option.some.inj hv, String.toList_ofList]
    exact ⟨fun hmem => hvalue.2 ((stripChar_sublist _ _).subset hmem), head?_stripChar _ _,
      getLast?_stripChar _ _⟩
  unfold Transport.applyValue? at happly
  split at happly
  next => exact Option.some.inj happly ▸ ⟨h.protocol, h.profile, hsome, h.source, h.mode⟩
  next => exact Option.some.inj happly ▸ ⟨h.protocol, h.profile, h.destination, hsome, h.mode⟩
  rotate_right 2
  next => exact Option.some.inj happly ▸ ⟨h.protocol, h.profile, h.destination, h.source, hmode⟩
  next => exact Option.some.inj happly ▸ h
  all_goals
    obtain ⟨v, -, hv⟩ := Option.bind_eq_some_iff.1 happly
    exact Option.some.inj hv ▸ ⟨h.protocol, h.profile, h.destination, h.source, h.mode⟩

theorem applyParameter? (h : t.WellFormed) {p : List Char} (hp : ';' ∉ p)
    (happly : t.applyParameter? p = some t') : t'.WellFormed := by
  unfold Transport.applyParameter? at happly
  split at happly
  next => exact Option.some.inj happly ▸ h.applyFlag _
  next name value hcut =>
    have hvalue : ';' ∉ value := fun hmem =>
      hp ((eq_append_of_cut hcut).2 ▸ List.mem_append_right _ (List.mem_cons_of_mem _ hmem))
    exact h.applyValue? (isPart_trim hvalue) happly

theorem foldlM (h : t.WellFormed) {parameters : List (List Char)}
    (hparameters : ∀ p ∈ parameters, ';' ∉ p)
    (hread : parameters.foldlM Transport.applyParameter? t = some t') : t'.WellFormed := by
  induction parameters generalizing t with
  | nil => exact Option.some.inj hread ▸ h
  | cons p parameters ih =>
    rw [List.foldlM_cons] at hread
    obtain ⟨next, hnext, hrest⟩ := Option.bind_eq_some_iff.1 hread
    exact ih (h.applyParameter? (hparameters p List.mem_cons_self) hnext)
      (fun q hq => hparameters q (List.mem_cons_of_mem _ hq)) hrest

end WellFormed

/-- What is read is well-formed, if no white space stands in its first part. -/
theorem wellFormed_of_read? {value : List Char} {t : Transport}
    (hvalue : ∀ c ∈ value.takeWhile (· != ';'), isBlank c = false) (h : read? value = some t) :
    t.WellFormed := by
  have hsemi : ∀ part ∈ value.splitOn ';', ';' ∉ part := fun part hpart hmem =>
    absurd (not_and_mem_of_mem_splitOnP hpart hmem).1 (by simp)
  unfold read? at h
  obtain ⟨spec, parameters, hsplit⟩ := List.exists_cons_of_ne_nil (List.splitOn_ne_nil ';' value)
  rw [hsplit] at h hsemi
  rw [List.map_cons] at h
  obtain ⟨base, hbase, hrest⟩ := Option.bind_eq_some_iff.1 h
  have hspec : ∀ c ∈ trim spec, isBlank c = false ∧ c ≠ ';' := by
    intro c hc
    have hmem : c ∈ spec := (trim_sublist spec).subset hc
    have hne : ∀ d ∈ spec, (d != ';') = true := fun d hd => by
      simpa using ne_of_mem_of_not_mem hd (hsemi spec List.mem_cons_self)
    obtain ⟨rest, rfl⟩ := prefix_of_splitOn hsplit
    rw [List.takeWhile_append_of_pos hne] at hvalue
    exact ⟨hvalue c (List.mem_append_left _ hmem), by simpa using hne c hmem⟩
  refine (wellFormed_of_readProfile? hspec hbase).foldlM ?_ hrest
  intro p hp
  obtain ⟨q, hq, rfl⟩ := List.mem_map.1 (List.mem_filter.1 hp).1
  exact (isPart_trim (hsemi q (List.mem_cons_of_mem _ hq))).2

/-- A specification is read back as it was written; and what is read from any text whose first part
holds no white space is written so that it is read again. -/
theorem parse_text :
    (∀ t : Transport, t.WellFormed → parse t.text = .ok t)
      ∧ ∀ (value : String) (t : Transport),
        (∀ c ∈ value.toList.takeWhile (· != ';'), isBlank c = false) → parse value = .ok t →
          parse t.text = .ok t := by
  have hwell : ∀ t : Transport, t.WellFormed → parse t.text = .ok t := by
    intro t h
    rw [parse, read?_text h]
  refine ⟨hwell, fun value t hvalue h => hwell t (wellFormed_of_read? hvalue ?_)⟩
  unfold parse at h
  split at h
  next t' hread => rw [hread, Except.ok.inj h]
  next => cases h

/-- All parameters at once, and a text with odd spacing. -/
theorem parse_text_every_parameter :
    let t : Transport :=
      ⟨"", "AVP", .tcp, true, some "a=b", some "", some ⟨0, some 1⟩, true, some 255,
        some 4294967295, some ⟨65535, none⟩, some ⟨7000, some 7001⟩, some ⟨0, none⟩, some 0x1A2B,
        some " PLAY\" "⟩
    let value := "x/y/Udp/z; ;Destination = 10.0.0.1\t; client_port= +1 - 02;ssrc=fF;x;mode=\" \"\""
    let t' : Transport :=
      { protocol := "x", profile := "y", destination := some "10.0.0.1",
        clientPort := some ⟨1, some 2⟩, ssrc := some 0xFF, mode := some " " }
    (t.WellFormed ∧ parse t.text = .ok t)
      ∧ (∀ c ∈ value.toList.takeWhile (· != ';'), isBlank c = false) ∧ parse value = .ok t'
        ∧ parse t'.text = .ok t' := by
  intro t value t'
  have hwell : t.WellFormed :=
    ⟨by decide, by decide, by decide, by decide, by decide⟩
  have hblank : ∀ c ∈ value.toList.takeWhile (· != ';'), isBlank c = false := by
    simp [value, isBlank]
  have hparse : parse value = .ok t' := by decide +kernel
  exact ⟨⟨hwell, parse_text.1 t hwell⟩, hblank, hparse, parse_text.2 value t' hblank hparse⟩

end Transport
end Rtsp
