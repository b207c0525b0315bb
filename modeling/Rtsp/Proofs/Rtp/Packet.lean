-- SUMMARY: Reading a datagram accepts exactly what writing a packet produces.
import Rtsp.Rtp.Packet

/-!
# Datagrams

A packet is well-formed if its fields fit into the places that a datagram has for them
(`RtpPacket.WellFormed`). A datagram is read as a packet exactly if it is what this packet is
written as, and the packet is well-formed (`RtpPacket.read?_eq_some_iff`). So the parts of a packet
make up the whole datagram, in their order and without a gap.
-/

namespace Rtsp

namespace RtpPacket

/-! ## Words -/

theorem readWords?_append (words : List UInt32) (rest : Bytes) :
    readWords? words.length (words.flatMap be32 ++ rest) = some (words, rest) := by
  induction words with
  | nil => rfl
  | cons word words ih =>
    simp only [List.length_cons, List.flatMap_cons, be32, List.cons_append, List.nil_append,
      readWords?, ih, ofBe32_be32]
    rfl

theorem eq_of_readWords? {n : Nat} {bs rest : Bytes} {words : List UInt32}
    (h : readWords? n bs = some (words, rest)) :
    words.length = n ∧ words.flatMap be32 ++ rest = bs := by
  fun_induction readWords? n bs generalizing words with
  | case1 bs =>
    cases h
    exact ⟨rfl, rfl⟩
  | case2 n a b c d bs ih =>
    obtain ⟨⟨others, after⟩, hothers, heq⟩ := Option.bind_eq_some_iff.1 h
    cases heq
    obtain ⟨hlength, hbytes⟩ := ih hothers
    refine ⟨congrArg (· + 1) hlength, ?_⟩
    rw [List.flatMap_cons, be32_ofBe32, List.append_assoc, hbytes]
    rfl
  | case3 => cases h

/-- There are as many words as the bytes have room for. -/
theorem exists_readWords? {n : Nat} {bs : Bytes} (h : 4 * n ≤ bs.length) :
    ∃ words, readWords? n bs = some (words, bs.drop (4 * n)) := by
  fun_induction readWords? n bs with
  | case1 bs => exact ⟨[], rfl⟩
  | case2 n a b c d bs ih =>
    obtain ⟨words, hwords⟩ := ih (by simp only [List.length_cons] at h; omega)
    exact ⟨ofBe32 a b c d :: words, by simp [hwords, Nat.mul_add]⟩
  | case3 n bs hshort =>
    match bs, h with
    | a :: b :: c :: d :: bs, _ => exact (hshort a b c d bs rfl).elim

/-! ## Extensions -/

/-- The words of an extension can be counted in its length field. -/
def IsExtension (e : UInt16 × Bytes) : Prop :=
  ∃ n : UInt16, e.2.length = 4 * n.toNat

theorem IsExtension.length_field {e : UInt16 × Bytes} (h : IsExtension e) :
    4 * (UInt16.ofNat (e.2.length / 4)).toNat = e.2.length := by
  obtain ⟨n, hn⟩ := h
  rw [hn, Nat.mul_div_cancel_left _ (by decide), UInt16.ofNat_toNat]

theorem readExtension?_append {e : UInt16 × Bytes} (h : IsExtension e) (rest : Bytes) :
    readExtension? (encodeExtension (some e) ++ rest) = some (e, rest) := by
  have hlength := h.length_field
  obtain ⟨id, words⟩ := e
  simp only [encodeExtension, be16, List.cons_append, List.nil_append, readExtension?, ofBe16_be16]
  rw [hlength, List.take_left, List.drop_left, if_pos rfl]

theorem eq_of_readExtension? {e : UInt16 × Bytes} {bs rest : Bytes}
    (h : readExtension? bs = some (e, rest)) :
    IsExtension e ∧ encodeExtension (some e) ++ rest = bs := by
  unfold readExtension? at h
  split at h
  next i1 i0 n1 n0 bs =>
    dsimp only at h
    split at h
    next hlength =>
      cases h
      refine ⟨⟨_, hlength⟩, ?_⟩
      rw [encodeExtension, be16_ofBe16, hlength, Nat.mul_div_cancel_left _ (by decide),
        UInt16.ofNat_toNat, be16_ofBe16]
      simp
    next => cases h
  next => cases h

/-- The extension, if the flags say that there is one. -/
def readOptional? : Bool → Bytes → Option (Option (UInt16 × Bytes) × Bytes)
  | true, bs => (readExtension? bs).map fun (e, rest) => (some e, rest)
  | false, bs => some (none, bs)

theorem readOptional?_append {extension : Option (UInt16 × Bytes)}
    (h : ∀ e, extension = some e → IsExtension e) (rest : Bytes) :
    readOptional? extension.isSome (encodeExtension extension ++ rest)
      = some (extension, rest) := by
  cases extension with
  | none => rfl
  | some e =>
    rw [Option.isSome_some, readOptional?, readExtension?_append (h e rfl)]
    rfl

theorem eq_of_readOptional? {present : Bool} {extension : Option (UInt16 × Bytes)}
    {bs rest : Bytes} (h : readOptional? present bs = some (extension, rest)) :
    extension.isSome = present ∧ (∀ e, extension = some e → IsExtension e)
      ∧ encodeExtension extension ++ rest = bs := by
  cases present with
  | false =>
    cases h
    exact ⟨rfl, fun _ he => absurd he (by simp), rfl⟩
  | true =>
    obtain ⟨⟨e, after⟩, hread, heq⟩ := Option.map_eq_some_iff.1 h
    cases heq
    obtain ⟨he, hbytes⟩ := eq_of_readExtension? hread
    exact ⟨rfl, fun _ h => Option.some.inj h ▸ he, hbytes⟩

/-! ## Padding -/

/-- The payload and the padding, which has this size if there is any. -/
def splitPadding? : Option Nat → Bytes → Option (Bytes × Option Bytes)
  | none, bs => some (bs, none)
  | some size, bs =>
    if bs.length < size then none
    else some (bs.take (bs.length - size), some (bs.drop (bs.length - size)))

theorem splitPadding?_append (payload : Bytes) (padding : Option Bytes) :
    splitPadding? (padding.map List.length) (payload ++ padding.getD [])
      = some (payload, padding) := by
  cases padding with
  | none => simp [splitPadding?]
  | some bytes => simp [splitPadding?]

theorem eq_of_splitPadding? {size : Option Nat} {bs payload : Bytes} {padding : Option Bytes}
    (h : splitPadding? size bs = some (payload, padding)) :
    padding.map List.length = size ∧ payload ++ padding.getD [] = bs := by
  cases size with
  | none =>
    cases h
    exact ⟨rfl, List.append_nil _⟩
  | some size =>
    rw [splitPadding?] at h
    split at h
    next => cases h
    next hfits =>
      cases h
      refine ⟨congrArg some ?_, List.take_append_drop _ _⟩
      rw [List.length_drop]
      omega

/-! ## The fixed header -/

/-- Which parts there are, and the number of contributing sources. -/
def flags (p : RtpPacket) : UInt8 :=
  UInt8.ofNat (128 + (if p.padding.isSome then 32 else 0) + (if p.extension.isSome then 16 else 0)
    + p.csrcs.length)

/-- The marker, and the type of the payload. -/
def kind (p : RtpPacket) : UInt8 :=
  UInt8.ofNat ((if p.marker then 128 else 0) + p.payloadType.toNat)

/-- The twelve bytes that every datagram begins with. -/
def fixedHeader (p : RtpPacket) : Bytes :=
  p.flags :: p.kind :: (be16 p.sequence ++ be32 p.timestamp ++ be32 p.ssrc)

theorem encode_eq (p : RtpPacket) :
    p.encode = p.fixedHeader ++ (p.csrcs.flatMap be32 ++ (encodeExtension p.extension
      ++ (p.payload ++ p.padding.getD []))) := by
  simp [encode, fixedHeader, flags, kind]

theorem encode_cons (p : RtpPacket) :
    p.encode = p.flags :: p.kind
      :: UInt8.ofNat (p.sequence.toNat / 256) :: UInt8.ofNat p.sequence.toNat
      :: UInt8.ofNat (p.timestamp.toNat / 16777216) :: UInt8.ofNat (p.timestamp.toNat / 65536)
      :: UInt8.ofNat (p.timestamp.toNat / 256) :: UInt8.ofNat p.timestamp.toNat
      :: UInt8.ofNat (p.ssrc.toNat / 16777216) :: UInt8.ofNat (p.ssrc.toNat / 65536)
      :: UInt8.ofNat (p.ssrc.toNat / 256) :: UInt8.ofNat p.ssrc.toNat
      :: (p.csrcs.flatMap be32 ++ (encodeExtension p.extension
        ++ (p.payload ++ p.padding.getD []))) :=
  p.encode_eq

theorem flags_bits {p : RtpPacket} (h : p.csrcs.length < 16) :
    p.flags.toNat / 64 = 2 ∧ p.flags.toNat % 16 = p.csrcs.length
      ∧ bit p.flags 4 = p.extension.isSome ∧ bit p.flags 5 = p.padding.isSome := by
  have hall : ∀ padded extended : Bool, ∀ n < 16,
      let flags := UInt8.ofNat (128 + (if padded then 32 else 0) + (if extended then 16 else 0) + n)
      flags.toNat / 64 = 2 ∧ flags.toNat % 16 = n ∧ bit flags 4 = extended
        ∧ bit flags 5 = padded := by
    decide +kernel
  exact hall _ _ _ h

theorem kind_bits {p : RtpPacket} (h : p.payloadType.toNat < 128) :
    bit p.kind 7 = p.marker ∧ UInt8.ofNat (p.kind.toNat % 128) = p.payloadType := by
  have hall : ∀ marker : Bool, ∀ n < 128,
      bit (UInt8.ofNat ((if marker then 128 else 0) + n)) 7 = marker
        ∧ (UInt8.ofNat ((if marker then 128 else 0) + n)).toNat % 128 = n := by
    decide +kernel
  obtain ⟨hmarker, htype⟩ := hall p.marker _ h
  exact ⟨hmarker, by rw [kind, htype, UInt8.ofNat_toNat]⟩

/-- The version and the bits of the flags are all there is in them. -/
theorem eq_flags {p : RtpPacket} {b : UInt8} (hversion : b.toNat / 64 = 2)
    (hcount : p.csrcs.length = b.toNat % 16) (hextended : p.extension.isSome = bit b 4)
    (hpadded : p.padding.isSome = bit b 5) : p.flags = b := by
  have hall : ∀ n : Fin 256, (UInt8.ofNat n).toNat / 64 = 2 →
      UInt8.ofNat (128 + (if bit (.ofNat n) 5 then 32 else 0) + (if bit (.ofNat n) 4 then 16 else 0)
        + (UInt8.ofNat n).toNat % 16) = .ofNat n := by
    decide +kernel
  have hbits := hall ⟨b.toNat, b.toNat_lt⟩
  rw [UInt8.ofNat_toNat] at hbits
  rw [flags, hcount, hextended, hpadded]
  exact hbits hversion

theorem eq_kind {p : RtpPacket} {b : UInt8} (hmarker : p.marker = bit b 7)
    (htype : p.payloadType = UInt8.ofNat (b.toNat % 128)) : p.kind = b := by
  have hall : ∀ n : Fin 256,
      UInt8.ofNat ((if bit (.ofNat n) 7 then 128 else 0)
        + (UInt8.ofNat ((UInt8.ofNat n).toNat % 128)).toNat) = .ofNat n := by
    decide +kernel
  have hbits := hall ⟨b.toNat, b.toNat_lt⟩
  rw [UInt8.ofNat_toNat] at hbits
  rw [kind, hmarker, htype]
  exact hbits

/-! ## Packets -/

/-- The last byte of a padded datagram is the number of its padding bytes. -/
def paddingOf (data : Bytes) (flags : UInt8) : Option Nat :=
  if bit flags 5 then some (data.getLast?.getD 0).toNat else none

/-- The fields of the packet fit into their places in a datagram. -/
structure WellFormed (p : RtpPacket) : Prop where
  payloadType : p.payloadType.toNat < 128
  csrcs : p.csrcs.length < 16
  extension : ∀ e, p.extension = some e → IsExtension e
  padding : p.padding.map List.length = paddingOf p.encode p.flags

section

variable (flags kind s1 s0 t3 t2 t1 t0 r3 r2 r1 r0 : UInt8) (rest : Bytes)

/-- The parts behind the fixed header are read one after the other. -/
theorem read?_cons {data : Bytes}
    (h : data = flags :: kind :: s1 :: s0 :: t3 :: t2 :: t1 :: t0 :: r3 :: r2 :: r1 :: r0 :: rest) :
    read? data
      = if flags.toNat / 64 ≠ 2 then none
        else (readWords? (flags.toNat % 16) rest).bind fun (csrcs, rest) =>
          (readOptional? (bit flags 4) rest).bind fun (extension, rest) =>
            (splitPadding? (paddingOf data flags) rest).map fun (payload, padding) =>
              { marker := bit kind 7
                payloadType := UInt8.ofNat (kind.toNat % 128)
                sequence := ofBe16 s1 s0
                timestamp := ofBe32 t3 t2 t1 t0
                ssrc := ofBe32 r3 r2 r1 r0
                csrcs, extension, payload, padding } := by
  subst h
  -- What is done with the parts, once the extension has been read.
  have hsplit : ∀ (size : Option Nat) (bs : Bytes) (f : Bytes → Option Bytes → RtpPacket),
      (if bs.length < size.getD 0 then none
        else some (f (bs.take (bs.length - size.getD 0))
          (size.map fun size => bs.drop (bs.length - size))))
        = (splitPadding? size bs).map fun (payload, padding) => f payload padding := by
    intro size bs f
    cases size with
    | none => simp [splitPadding?]
    | some size =>
      dsimp only [splitPadding?, Option.getD_some, Option.map_some]
      split <;> rfl
  unfold read? paddingOf
  dsimp only
  cases bit flags 4 <;> cases bit flags 5 <;> simp only [← hsplit] <;> rfl

end

theorem read?_encode {p : RtpPacket} (h : p.WellFormed) : read? p.encode = some p := by
  obtain ⟨hversion, hcsrcs, hextended, -⟩ := flags_bits h.csrcs
  obtain ⟨hmarker, htype⟩ := kind_bits h.payloadType
  rw [read?_cons _ _ _ _ _ _ _ _ _ _ _ _ _ p.encode_cons, if_neg (not_not_intro hversion), hcsrcs,
    readWords?_append, Option.bind_some]
  dsimp only
  rw [hextended, readOptional?_append h.extension, Option.bind_some]
  dsimp only
  rw [← h.padding, splitPadding?_append, hmarker, htype, ofBe16_be16, ofBe32_be32, ofBe32_be32]
  rfl

theorem eq_encode_of_read? {p : RtpPacket} {data : Bytes} (h : read? data = some p) :
    p.WellFormed ∧ p.encode = data := by
  match data, h with
  | flags :: kind :: s1 :: s0 :: t3 :: t2 :: t1 :: t0 :: r3 :: r2 :: r1 :: r0 :: rest, h =>
    rw [read?_cons _ _ _ _ _ _ _ _ _ _ _ _ _ rfl] at h
    split at h
    next => cases h
    next hversion =>
      obtain ⟨⟨csrcs, rest₁⟩, hcsrcs, h⟩ := Option.bind_eq_some_iff.1 h
      obtain ⟨⟨extension, rest₂⟩, hextension, h⟩ := Option.bind_eq_some_iff.1 h
      obtain ⟨⟨payload, padding⟩, hsplit, hp⟩ := Option.map_eq_some_iff.1 h
      obtain ⟨hcount, hwords⟩ := eq_of_readWords? hcsrcs
      obtain ⟨hextended, hcounted, hbytes⟩ := eq_of_readOptional? hextension
      obtain ⟨hsize, hparts⟩ := eq_of_splitPadding? hsplit
      have hpadded : padding.isSome = bit flags 5 := by
        rw [← Option.isSome_map, hsize, paddingOf]
        cases bit flags 5 <;> rfl
      have hflags : p.flags = flags := by
        rw [← hp]
        exact eq_flags (Decidable.not_not.1 hversion) hcount hextended hpadded
      have hkind : p.kind = kind := by
        rw [← hp]
        exact eq_kind rfl rfl
      have hencode : p.encode
          = flags :: kind :: s1 :: s0 :: t3 :: t2 :: t1 :: t0 :: r3 :: r2 :: r1 :: r0 :: rest := by
        rw [encode_eq, fixedHeader, hflags, hkind, ← hp, hparts, hbytes, hwords, be16_ofBe16,
          be32_ofBe32, be32_ofBe32]
        rfl
      refine ⟨⟨?_, ?_, ?_, ?_⟩, hencode⟩
      · rw [← hp, UInt8.toNat_ofNat']
        omega
      · rw [← hp, hcount]
        exact Nat.mod_lt _ (by decide)
      · rw [← hp]
        exact hcounted
      · rw [hencode, hflags, ← hp]
        exact hsize

/-- Reading accepts exactly what writing produces. -/
theorem read?_eq_some_iff {p : RtpPacket} {data : Bytes} :
    read? data = some p ↔ p.WellFormed ∧ p.encode = data := by
  refine ⟨eq_encode_of_read?, ?_⟩
  rintro ⟨hp, rfl⟩
  exact read?_encode hp

end RtpPacket
end Rtsp
