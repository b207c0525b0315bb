-- SUMMARY: Base64 decoding inverts encoding, and which characters an encoding has.
import Rtsp.Proofs.Text.Words
import Rtsp.Text.Base64

/-!
# Base64 round trip

A group of three bytes makes four symbols that are no padding, so the decoder takes it for a whole
group, whatever follows; only the last group may be padded (`Base64.decode?_encode`). The decoder
accepts nothing else (`Base64.eq_encode_of_decode?`). The symbols of an encoding are neither white
space nor any other character that separates texts (`Base64.mem_encode`).
-/

namespace Rtsp.Text.Base64

/-! ## Symbols -/

theorem value?_symbol {v : Nat} (h : v < 64) : value? (symbol v) = some v := by
  have hall : ∀ v : Fin 64, value? (symbol v.val) = some v.val := by decide
  exact hall ⟨v, h⟩

theorem symbol_ne_padding {v : Nat} (h : v < 64) : symbol v ≠ '=' := by
  have hall : ∀ v : Fin 64, symbol v.val ≠ '=' := by decide
  exact hall ⟨v, h⟩

/-! ## Decoding -/

/-- A group that is not padded is decoded in front of others. -/
theorem decode?_group {s t u v : Nat} (hs : s < 64) (ht : t < 64) (hu : u < 64) (hv : v < 64)
    (rest : List Char) :
    decode? (symbol s :: symbol t :: symbol u :: symbol v :: rest)
      = (decode? rest).map fun tail =>
        let n := ((s * 64 + t) * 64 + u) * 64 + v
        UInt8.ofNat (n / 65536) :: UInt8.ofNat (n / 256) :: UInt8.ofNat n :: tail := by
  rw [decode?, value?_symbol hs, value?_symbol ht, value?_symbol hu, value?_symbol hv]
  · cases decode? rest <;> rfl
  · exact fun _ hpadding => absurd hpadding (symbol_ne_padding hv)
  · exact fun hpadding => absurd hpadding (symbol_ne_padding hv)

theorem decode?_two {s t : Nat} (hs : s < 64) (ht : t < 64) (h : (s * 64 + t) % 16 = 0) :
    decode? [symbol s, symbol t, '=', '='] = some [UInt8.ofNat ((s * 64 + t) / 16)] := by
  rw [decode?, value?_symbol hs, value?_symbol ht]
  exact if_pos h

theorem decode?_three {s t u : Nat} (hs : s < 64) (ht : t < 64) (hu : u < 64)
    (h : ((s * 64 + t) * 64 + u) % 4 = 0) :
    decode? [symbol s, symbol t, symbol u, '=']
      = some [UInt8.ofNat (((s * 64 + t) * 64 + u) / 1024),
          UInt8.ofNat (((s * 64 + t) * 64 + u) / 4)] := by
  rw [decode?, value?_symbol hs, value?_symbol ht, value?_symbol hu]
  · exact if_pos h
  · exact fun hpadding => absurd hpadding (symbol_ne_padding hu)

theorem decode?_encode (bytes : Bytes) : decode? (encode bytes) = some bytes := by
  fun_induction encode bytes with
  | case1 => rfl
  | case2 a n =>
    have ha := a.toNat_lt
    -- A byte is the low part of what it was shifted into, here and in the longer groups.
    rw [decode?_two (by omega) (by omega) (by omega),
      (UInt8.ofNat_eq_iff_mod_eq_toNat _ a).2 (by omega)]
  | case3 a b n =>
    have ha := a.toNat_lt
    have hb := b.toNat_lt
    rw [decode?_three (by omega) (by omega) (by omega) (by omega),
      (UInt8.ofNat_eq_iff_mod_eq_toNat _ a).2 (by omega),
      (UInt8.ofNat_eq_iff_mod_eq_toNat _ b).2 (by omega)]
  | case4 a b c rest n ih =>
    have ha := a.toNat_lt
    have hb := b.toNat_lt
    have hc := c.toNat_lt
    rw [decode?_group (by omega) (by omega) (by omega) (by omega), ih, Option.map_some]
    dsimp only
    rw [(UInt8.ofNat_eq_iff_mod_eq_toNat _ a).2 (by omega),
      (UInt8.ofNat_eq_iff_mod_eq_toNat _ b).2 (by omega),
      (UInt8.ofNat_eq_iff_mod_eq_toNat _ c).2 (by omega)]

/-! ## What is decoded -/

/-- A symbol is the only one of its value. -/
theorem symbol_of_value? {c : Char} {v : Nat} (h : value? c = some v) : symbol v = c ∧ v < 64 := by
  have hchar : ∀ n, n = c.toNat → Char.ofNat n = c := by
    rintro _ rfl
    exact Char.ofNat_toNat c
  unfold value? at h
  simp only [Bool.and_eq_true, decide_eq_true_eq, Char.le_def, UInt32.le_iff_toNat_le,
    beq_iff_eq] at h
  unfold symbol
  split at h
  next hupper =>
    obtain rfl := Option.some.inj h
    have hc : 65 ≤ c.toNat ∧ c.toNat ≤ 90 := hupper
    simp only [Char.reduceToNat]
    exact ⟨by rw [if_pos (by omega), hchar _ (by omega)], by omega⟩
  split at h
  next hlower =>
    obtain rfl := Option.some.inj h
    have hc : 97 ≤ c.toNat ∧ c.toNat ≤ 122 := hlower
    simp only [Char.reduceToNat]
    exact ⟨by rw [if_neg (by omega), if_pos (by omega), hchar _ (by omega)], by omega⟩
  split at h
  next hdigit =>
    obtain rfl := Option.some.inj h
    have hc : 48 ≤ c.toNat ∧ c.toNat ≤ 57 := hdigit
    simp only [Char.reduceToNat]
    exact ⟨by rw [if_neg (by omega), if_neg (by omega), if_pos (by omega), hchar _ (by omega)],
      by omega⟩
  split at h
  next hplus =>
    obtain rfl := Option.some.inj h
    exact ⟨hplus.symm, by decide⟩
  split at h
  next hslash =>
    obtain rfl := Option.some.inj h
    exact ⟨hslash.symm, by decide⟩
  next => cases h

/-- The symbols of a padded group are those of its byte, if the bits that no byte uses are zero. -/
theorem encode_two {s t : Nat} (hs : s < 64) (ht : t < 64) (h : (s * 64 + t) % 16 = 0) :
    encode [UInt8.ofNat ((s * 64 + t) / 16)] = [symbol s, symbol t, '=', '='] := by
  have hbyte : (UInt8.ofNat ((s * 64 + t) / 16)).toNat * 16 = s * 64 + t := by
    rw [UInt8.toNat_ofNat']
    omega
  have hfirst : (s * 64 + t) / 64 = s := by omega
  have hsecond : (s * 64 + t) % 64 = t := by omega
  simp only [encode, hbyte, hfirst, hsecond]

theorem encode_three {s t u : Nat} (hs : s < 64) (ht : t < 64) (hu : u < 64)
    (h : ((s * 64 + t) * 64 + u) % 4 = 0) :
    encode [UInt8.ofNat (((s * 64 + t) * 64 + u) / 1024), UInt8.ofNat (((s * 64 + t) * 64 + u) / 4)]
      = [symbol s, symbol t, symbol u, '='] := by
  have hbytes : ((UInt8.ofNat (((s * 64 + t) * 64 + u) / 1024)).toNat * 256
      + (UInt8.ofNat (((s * 64 + t) * 64 + u) / 4)).toNat) * 4 = (s * 64 + t) * 64 + u := by
    rw [UInt8.toNat_ofNat', UInt8.toNat_ofNat']
    omega
  have hfirst : ((s * 64 + t) * 64 + u) / 4096 = s := by omega
  have hsecond : ((s * 64 + t) * 64 + u) / 64 % 64 = t := by omega
  have hthird : ((s * 64 + t) * 64 + u) % 64 = u := by omega
  simp only [encode, hbytes, hfirst, hsecond, hthird]

theorem encode_group {s t u v : Nat} (hs : s < 64) (ht : t < 64) (hu : u < 64) (hv : v < 64)
    (tail : Bytes) :
    let n := ((s * 64 + t) * 64 + u) * 64 + v
    encode (UInt8.ofNat (n / 65536) :: UInt8.ofNat (n / 256) :: UInt8.ofNat n :: tail)
      = symbol s :: symbol t :: symbol u :: symbol v :: encode tail := by
  intro n
  have hbytes : ((UInt8.ofNat (n / 65536)).toNat * 256 + (UInt8.ofNat (n / 256)).toNat) * 256
      + (UInt8.ofNat n).toNat = n := by
    rw [UInt8.toNat_ofNat', UInt8.toNat_ofNat', UInt8.toNat_ofNat']
    omega
  have hfirst : n / 262144 = s := by omega
  have hsecond : n / 4096 % 64 = t := by omega
  have hthird : n / 64 % 64 = u := by omega
  have hfourth : n % 64 = v := by omega
  simp only [encode, hbytes, hfirst, hsecond, hthird, hfourth]

/-- The strict decoder accepts encodings only. -/
theorem eq_encode_of_decode? {cs : List Char} {bytes : Bytes} (h : decode? cs = some bytes) :
    cs = encode bytes := by
  fun_induction decode? cs generalizing bytes with
  | case1 =>
    obtain rfl := Option.some.inj h
    rfl
  | case2 s t =>
    obtain ⟨vs, hs, h⟩ := Option.bind_eq_some_iff.1 h
    obtain ⟨vt, ht, h⟩ := Option.bind_eq_some_iff.1 h
    obtain ⟨hzero, hbytes⟩ := Option.ite_none_right_eq_some.1 h
    obtain ⟨rfl, hvs⟩ := symbol_of_value? hs
    obtain ⟨rfl, hvt⟩ := symbol_of_value? ht
    rw [← Option.some.inj hbytes, encode_two hvs hvt hzero]
  | case3 s t u =>
    obtain ⟨vs, hs, h⟩ := Option.bind_eq_some_iff.1 h
    obtain ⟨vt, ht, h⟩ := Option.bind_eq_some_iff.1 h
    obtain ⟨vu, hu, h⟩ := Option.bind_eq_some_iff.1 h
    obtain ⟨hzero, hbytes⟩ := Option.ite_none_right_eq_some.1 h
    obtain ⟨rfl, hvs⟩ := symbol_of_value? hs
    obtain ⟨rfl, hvt⟩ := symbol_of_value? ht
    obtain ⟨rfl, hvu⟩ := symbol_of_value? hu
    rw [← Option.some.inj hbytes, encode_three hvs hvt hvu hzero]
  | case4 s t u v rest _ _ ih =>
    obtain ⟨vs, hs, h⟩ := Option.bind_eq_some_iff.1 h
    obtain ⟨vt, ht, h⟩ := Option.bind_eq_some_iff.1 h
    obtain ⟨vu, hu, h⟩ := Option.bind_eq_some_iff.1 h
    obtain ⟨vv, hv, h⟩ := Option.bind_eq_some_iff.1 h
    obtain ⟨tail, htail, hbytes⟩ := Option.bind_eq_some_iff.1 h
    obtain ⟨rfl, hvs⟩ := symbol_of_value? hs
    obtain ⟨rfl, hvt⟩ := symbol_of_value? ht
    obtain ⟨rfl, hvu⟩ := symbol_of_value? hu
    obtain ⟨rfl, hvv⟩ := symbol_of_value? hv
    rw [← Option.some.inj hbytes, encode_group hvs hvt hvu hvv, ← ih htail]
  | case5 => cases h

/-! ## Characters -/

/-- What an encoding is made of: symbols and padding. -/
theorem mem_encode {bytes : Bytes} {c : Char} (h : c ∈ encode bytes) :
    c = '=' ∨ ∃ v < 64, c = symbol v := by
  have hsymbol : ∀ {v}, v < 64 → symbol v = '=' ∨ ∃ w < 64, symbol v = symbol w :=
    fun hv => .inr ⟨_, hv, rfl⟩
  fun_induction encode bytes with
  | case1 => cases h
  | case2 a n =>
    have ha := a.toNat_lt
    simp only [List.mem_cons, List.not_mem_nil, or_false] at h
    rcases h with rfl | rfl | rfl | rfl
    · exact hsymbol (by omega)
    · exact hsymbol (by omega)
    · exact .inl rfl
    · exact .inl rfl
  | case3 a b n =>
    have ha := a.toNat_lt
    have hb := b.toNat_lt
    simp only [List.mem_cons, List.not_mem_nil, or_false] at h
    rcases h with rfl | rfl | rfl | rfl
    · exact hsymbol (by omega)
    · exact hsymbol (by omega)
    · exact hsymbol (by omega)
    · exact .inl rfl
  | case4 a b c rest n ih =>
    have ha := a.toNat_lt
    have hb := b.toNat_lt
    have hc := c.toNat_lt
    simp only [List.mem_cons] at h
    rcases h with rfl | rfl | rfl | rfl | h
    · exact hsymbol (by omega)
    · exact hsymbol (by omega)
    · exact hsymbol (by omega)
    · exact hsymbol (by omega)
    · exact ih h

theorem encode_ne_nil {bytes : Bytes} (h : bytes ≠ []) : encode bytes ≠ [] := by
  fun_cases encode bytes with
  | case1 => exact absurd rfl h
  | case2 => exact List.cons_ne_nil _ _
  | case3 => exact List.cons_ne_nil _ _
  | case4 => exact List.cons_ne_nil _ _

/-- The characters of an encoding separate no texts. -/
theorem not_blank_of_mem_encode {bytes : Bytes} {c : Char} (h : c ∈ encode bytes) :
    isBlank c = false ∧ c ≠ ',' := by
  have hall : ∀ v : Fin 64, isBlank (symbol v.val) = false ∧ symbol v.val ≠ ',' := by decide
  rcases mem_encode h with rfl | ⟨v, hv, rfl⟩
  · decide
  · exact hall ⟨v, hv⟩

end Rtsp.Text.Base64
