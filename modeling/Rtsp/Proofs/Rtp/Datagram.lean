-- SUMMARY: A datagram is read as a packet exactly if what it declares fits into it.
import Rtsp.Proofs.Rtp.Packet

/-!
# What a datagram declares

How many contributing sources there are, and the sizes of the header extension and of the padding,
are read off fixed places of a datagram (`Datagram.csrcCount`, `Datagram.extensionSize`,
`Datagram.paddingSize`). The datagram is read as a packet exactly if all of that fits into it
(`RtpPacket.exists_read?_iff`), and the packet has parts of these sizes.
-/

namespace Rtsp

open RtpPacket

/-! ## What a datagram declares -/

namespace Datagram

variable (data : Bytes)

/-- The four lowest bits of the first byte. -/
def csrcCount : Nat :=
  (data.getD 0 0).toNat % 16

def isExtended : Bool :=
  bit (data.getD 0 0) 4

def isPadded : Bool :=
  bit (data.getD 0 0) 5

/-- Where the header extension is, or the payload if there is none. -/
def headerSize : Nat :=
  12 + 4 * csrcCount data

/-- The length field of the header extension: its second two bytes, high byte first. -/
def wordCount : Nat :=
  (data.getD (headerSize data + 2) 0).toNat * 256 + (data.getD (headerSize data + 3) 0).toNat

def extensionSize : Nat :=
  if isExtended data then 4 * (wordCount data + 1) else 0

/-- The last byte of the datagram, if it is padded. -/
def paddingSize : Nat :=
  if isPadded data then (data.getD (data.length - 1) 0).toNat else 0

/-- Everything that the datagram declares is inside it. -/
structure Fits : Prop where
  header : 12 ≤ data.length
  version : (data.getD 0 0).toNat / 64 = 2
  wordCount_inside : isExtended data → headerSize data + 4 ≤ data.length
  parts : headerSize data + extensionSize data + paddingSize data ≤ data.length

instance : Decidable (Fits data) :=
  decidable_of_iff (12 ≤ data.length ∧ (data.getD 0 0).toNat / 64 = 2
      ∧ (isExtended data → headerSize data + 4 ≤ data.length)
      ∧ headerSize data + extensionSize data + paddingSize data ≤ data.length)
    ⟨fun ⟨header, version, inside, parts⟩ => ⟨header, version, inside, parts⟩,
      fun h => ⟨h.header, h.version, h.wordCount_inside, h.parts⟩⟩

end Datagram

/-! ## What a packet declares -/

namespace RtpPacket

/-- What stands in front of the header extension. -/
def front (p : RtpPacket) : Bytes :=
  p.fixedHeader ++ p.csrcs.flatMap be32

/-- What stands behind the header extension. -/
def back (p : RtpPacket) : Bytes :=
  p.payload ++ p.padding.getD []

theorem encode_eq_front (p : RtpPacket) :
    p.encode = p.front ++ (encodeExtension p.extension ++ p.back) := by
  rw [encode_eq, front, back, List.append_assoc]

theorem length_front (p : RtpPacket) : p.front.length = p.headerSize := by
  have hwords : (p.csrcs.flatMap be32).length = 4 * p.csrcs.length := by
    induction p.csrcs with
    | nil => rfl
    | cons w ws ih =>
      simp only [List.flatMap_cons, List.length_append, ih, be32, List.length_cons, List.length_nil]
      omega
  rw [front, List.length_append, hwords]
  rfl

theorem length_back (p : RtpPacket) : p.back.length = p.payload.length + p.paddingSize := by
  rw [back, List.length_append, paddingSize]
  cases p.padding <;> rfl

theorem length_encodeExtension (p : RtpPacket) :
    (encodeExtension p.extension).length = p.extensionSize := by
  unfold extensionSize
  cases p.extension with
  | none => rfl
  | some e =>
    simp [encodeExtension, be16]
    omega

theorem length_encode (p : RtpPacket) : p.encode.length = p.size := by
  rw [encode_eq_front, List.length_append, List.length_append, length_front,
    length_encodeExtension, length_back, size, Nat.add_assoc, Nat.add_assoc]

/-- A byte behind the front is found by its offset there. -/
theorem getD_encode (p : RtpPacket) (i : Nat) :
    p.encode.getD (p.headerSize + i) 0 = (encodeExtension p.extension ++ p.back).getD i 0 := by
  rw [encode_eq_front, ← length_front, List.getD, List.getElem?_append_right (Nat.le_add_right _ _),
    Nat.add_sub_cancel_left, List.getD]

theorem paddingOf_eq (data : Bytes) :
    (paddingOf data (data.getD 0 0)).getD 0 = Datagram.paddingSize data := by
  unfold paddingOf Datagram.paddingSize Datagram.isPadded
  rw [List.getLast?_eq_getElem?]
  cases bit (data.getD 0 0) 5 <;> rfl

namespace WellFormed

variable {p : RtpPacket} (h : p.WellFormed)
include h

theorem csrcCount_encode : Datagram.csrcCount p.encode = p.csrcs.length :=
  (flags_bits h.csrcs).2.1

theorem headerSize_encode : Datagram.headerSize p.encode = p.headerSize :=
  congrArg (12 + 4 * ·) h.csrcCount_encode

theorem isExtended_encode : Datagram.isExtended p.encode = p.extension.isSome :=
  (flags_bits h.csrcs).2.2.1

theorem isPadded_encode : Datagram.isPadded p.encode = p.padding.isSome :=
  (flags_bits h.csrcs).2.2.2

theorem extensionSize_encode : Datagram.extensionSize p.encode = p.extensionSize := by
  unfold Datagram.extensionSize extensionSize
  rw [h.isExtended_encode]
  cases hext : p.extension with
  | none => rfl
  | some e =>
    have hcount : Datagram.wordCount p.encode = (UInt16.ofNat (e.2.length / 4)).toNat := by
      rw [Datagram.wordCount, h.headerSize_encode, getD_encode, getD_encode, hext, ← toNat_ofBe16]
      exact congrArg UInt16.toNat (ofBe16_be16 _)
    have hlength := (h.extension e hext).length_field
    simp only [Option.isSome_some, if_true, hcount]
    omega

theorem paddingSize_encode : Datagram.paddingSize p.encode = p.paddingSize := by
  have hflags : p.encode.getD 0 0 = p.flags := rfl
  rw [← paddingOf_eq, hflags, ← h.padding, paddingSize]
  cases p.padding <;> rfl

theorem fits : Datagram.Fits p.encode where
  header := by
    rw [length_encode, size, headerSize]
    omega
  version := (flags_bits h.csrcs).1
  wordCount_inside := by
    rw [h.isExtended_encode, h.headerSize_encode, length_encode, size, extensionSize]
    cases p.extension with
    | none => simp
    | some e =>
      intro _
      dsimp only
      omega
  parts := by
    rw [h.headerSize_encode, h.extensionSize_encode, h.paddingSize_encode, length_encode, size]
    omega

end WellFormed

/-! ## Datagrams that fit -/

theorem exists_four_bytes : ∀ {bs : Bytes}, 4 ≤ bs.length →
    ∃ b₀ b₁ b₂ b₃ rest, bs = b₀ :: b₁ :: b₂ :: b₃ :: rest
  | b₀ :: b₁ :: b₂ :: b₃ :: rest, _ => ⟨b₀, b₁, b₂, b₃, rest, rfl⟩

/-- The extension is there if there is room for the words that it declares. -/
theorem exists_readExtension? {bs : Bytes} (hlength : 4 ≤ bs.length) {count : Nat}
    (hcount : count = (bs.getD 2 0).toNat * 256 + (bs.getD 3 0).toNat)
    (hfits : 4 * (count + 1) ≤ bs.length) :
    ∃ e, readExtension? bs = some (e, bs.drop (4 * (count + 1))) := by
  obtain ⟨i1, i0, n1, n0, bs, rfl⟩ := exists_four_bytes hlength
  have hwords : (ofBe16 n1 n0).toNat = count := (toNat_ofBe16 n1 n0).trans hcount.symm
  have htaken : (bs.take (4 * count)).length = 4 * count := by
    rw [List.length_take, Nat.min_eq_left]
    exact Nat.le_of_add_le_add_right hfits
  refine ⟨(ofBe16 i1 i0, bs.take (4 * count)), ?_⟩
  rw [readExtension?, hwords]
  exact if_pos htaken

theorem exists_splitPadding? {bs : Bytes} : ∀ {size : Option Nat}, size.getD 0 ≤ bs.length →
    ∃ payload padding, splitPadding? size bs = some (payload, padding)
  | none, _ => ⟨bs, none, rfl⟩
  | some _, h => ⟨_, _, if_neg (Nat.not_lt.2 h)⟩

theorem exists_header {data : Bytes} (h : 12 ≤ data.length) :
    ∃ flags kind s1 s0 t3 t2 t1 t0 r3 r2 r1 r0 rest,
      data = flags :: kind :: s1 :: s0 :: t3 :: t2 :: t1 :: t0 :: r3 :: r2 :: r1 :: r0 :: rest := by
  obtain ⟨flags, kind, s1, s0, bs, rfl⟩ := exists_four_bytes (Nat.le_trans (by decide) h)
  have hsecond : 8 ≤ bs.length := by simpa using h
  obtain ⟨t3, t2, t1, t0, bs, rfl⟩ := exists_four_bytes (Nat.le_trans (by decide) hsecond)
  have hthird : 4 ≤ bs.length := by simpa using hsecond
  obtain ⟨r3, r2, r1, r0, rest, rfl⟩ := exists_four_bytes hthird
  exact ⟨flags, kind, s1, s0, t3, t2, t1, t0, r3, r2, r1, r0, rest, rfl⟩

end RtpPacket

namespace Datagram.Fits

variable {data : Bytes} (h : Fits data)
include h

theorem exists_csrcs :
    ∃ csrcs, readWords? (csrcCount data) (data.drop 12)
      = some (csrcs, data.drop (headerSize data)) := by
  have hparts := h.parts
  have hroom : 4 * csrcCount data ≤ (data.drop 12).length := by
    rw [List.length_drop]
    unfold headerSize at hparts
    omega
  obtain ⟨csrcs, hcsrcs⟩ := exists_readWords? hroom
  exact ⟨csrcs, by rw [hcsrcs, List.drop_drop, headerSize]⟩

theorem exists_extension :
    ∃ extension, readOptional? (isExtended data) (data.drop (headerSize data))
      = some (extension, data.drop (headerSize data + extensionSize data)) := by
  cases hextended : isExtended data with
  | false => exact ⟨none, by simp [readOptional?, extensionSize, hextended]⟩
  | true =>
    have hinside := h.wordCount_inside hextended
    have hparts := h.parts
    have hsize : extensionSize data = 4 * (wordCount data + 1) := by simp [extensionSize, hextended]
    have hcount : wordCount data = ((data.drop (headerSize data)).getD 2 0).toNat * 256
        + ((data.drop (headerSize data)).getD 3 0).toNat := by
      simp [wordCount, List.getElem?_drop]
    obtain ⟨e, he⟩ := exists_readExtension? (by rw [List.length_drop]; omega) hcount
      (by rw [List.length_drop]; omega)
    exact ⟨some e, by rw [readOptional?, he, hsize, List.drop_drop, Option.map_some]⟩

theorem exists_payload :
    ∃ payload padding, splitPadding? (paddingOf data (data.getD 0 0))
      (data.drop (headerSize data + extensionSize data)) = some (payload, padding) := by
  have hparts := h.parts
  refine exists_splitPadding? ?_
  rw [paddingOf_eq, List.length_drop]
  omega

end Datagram.Fits

/-- A datagram is read as a packet exactly if it fits. -/
theorem RtpPacket.exists_read?_iff {data : Bytes} :
    (∃ p, read? data = some p) ↔ Datagram.Fits data := by
  constructor
  · rintro ⟨p, hp⟩
    obtain ⟨hwell, rfl⟩ := read?_eq_some_iff.1 hp
    exact hwell.fits
  · intro h
    obtain ⟨csrcs, hcsrcs⟩ := h.exists_csrcs
    obtain ⟨extension, hextension⟩ := h.exists_extension
    obtain ⟨payload, padding, hpayload⟩ := h.exists_payload
    obtain ⟨flags, kind, s1, s0, t3, t2, t1, t0, r3, r2, r1, r0, rest, hdata⟩ :=
      exists_header h.header
    have hflags : data.getD 0 0 = flags := hdata ▸ rfl
    have hrest : data.drop 12 = rest := hdata ▸ rfl
    have hversion : flags.toNat / 64 = 2 := hflags ▸ h.version
    rw [Datagram.csrcCount, hflags, hrest] at hcsrcs
    rw [Datagram.isExtended, hflags] at hextension
    rw [hflags] at hpayload
    rw [read?_cons _ _ _ _ _ _ _ _ _ _ _ _ _ hdata, if_neg (not_not_intro hversion), hcsrcs,
      Option.bind_some]
    dsimp only
    rw [hextension, Option.bind_some]
    dsimp only
    rw [hpayload, Option.map_some]
    exact ⟨_, rfl⟩

end Rtsp
