-- SUMMARY: No access of a view is outside of its datagram, and its parts make up the datagram.
import Rtsp.Rtp.View
import Rtsp.Proofs.Rtp.Datagram

/-!
# Views

A view is made of a datagram exactly if what the datagram declares fits into it
(`RtpView.read?_eq`). Then no access is a fault: the view shows the fields and the parts of the
packet that the datagram is read as (`RtpView.shows_ofPacket`), and these parts make up the whole
datagram (`RtpView.parse_partition`).
-/

namespace Rtsp.RtpView

open RtpPacket (bit encodeExtension)
open Datagram (Fits)

/-! ## Access -/

theorem byteAt_of_lt {data : Bytes} {i : Nat} (h : i < data.length) :
    byteAt data i = .ok (data.getD i 0) := by
  simp [byteAt, List.getElem?_eq_getElem h, List.getD]

theorem word16At_of_lt {data : Bytes} {i : Nat} (h : i + 1 < data.length) :
    word16At data i = .ok (ofBe16 (data.getD i 0) (data.getD (i + 1) 0)) := by
  rw [word16At, byteAt_of_lt (Nat.lt_of_succ_lt h), byteAt_of_lt h]
  rfl

/-! ## Making a view -/

theorem declaredExtension_eq (data : Bytes) :
    declaredExtension data (data.getD 0 0) (Datagram.headerSize data)
      = .ok (if Datagram.isExtended data ∧ data.length < Datagram.headerSize data + 4 then none
        else some (Datagram.extensionSize data)) := by
  unfold declaredExtension Datagram.extensionSize Datagram.isExtended
  cases bit (data.getD 0 0) 4 with
  | false => rfl
  | true =>
    by_cases hshort : data.length < Datagram.headerSize data + 4
    · simp [hshort]
    · have hinside : Datagram.headerSize data + 2 + 1 < data.length := by omega
      simp only [if_true, hshort, if_false, and_false, word16At_of_lt hinside]
      refine congrArg (fun n => Except.ok (some (4 * (n + 1)))) ?_
      exact toNat_ofBe16 _ _

theorem declaredPadding_eq {data : Bytes} (h : 0 < data.length) :
    declaredPadding data (data.getD 0 0) = .ok (Datagram.paddingSize data) := by
  have hminus : minus data.length 1 = .ok (data.length - 1) := if_pos h
  unfold declaredPadding Datagram.paddingSize Datagram.isPadded
  cases bit (data.getD 0 0) 5 with
  | false => rfl
  | true =>
    rw [hminus]
    simp only [if_true]
    change (byteAt data (data.length - 1) >>= _) = _
    rw [byteAt_of_lt (Nat.sub_lt h Nat.one_pos)]
    rfl

/-- A view is made exactly of a datagram that fits. Making it is never a fault. -/
theorem read?_eq (data : Bytes) :
    read? data = .ok (if Fits data then
      some ⟨data, Datagram.extensionSize data, Datagram.paddingSize data⟩ else none) := by
  unfold read?
  by_cases hheader : data.length < 12
  · rw [if_pos hheader, if_neg]
    exact fun h => absurd h.header (Nat.not_le.2 hheader)
  rw [if_neg hheader, byteAt_of_lt (by omega)]
  change (if (data.getD 0 0).toNat / 64 ≠ 2 ∨ data.length < Datagram.headerSize data then _
    else declaredExtension data (data.getD 0 0) (Datagram.headerSize data) >>= _) = _
  by_cases hfront : (data.getD 0 0).toNat / 64 ≠ 2 ∨ data.length < Datagram.headerSize data
  · rw [if_pos hfront, if_neg]
    · rfl
    · intro h
      have hparts := h.parts
      exact hfront.elim (fun hversion => hversion h.version) (by omega)
  rw [if_neg hfront, declaredExtension_eq]
  by_cases hextended : Datagram.isExtended data ∧ data.length < Datagram.headerSize data + 4
  · rw [if_pos hextended, if_neg]
    · rfl
    · exact fun h => absurd (h.wordCount_inside hextended.1) (Nat.not_le.2 hextended.2)
  rw [if_neg hextended]
  change (declaredPadding data (data.getD 0 0) >>= _) = _
  rw [declaredPadding_eq (by omega)]
  change (if data.length < Datagram.headerSize data + Datagram.extensionSize data
    + Datagram.paddingSize data then _ else _) = _
  by_cases hparts : data.length < Datagram.headerSize data + Datagram.extensionSize data
      + Datagram.paddingSize data
  · rw [if_pos hparts, if_neg]
    · rfl
    · exact fun h => absurd h.parts (Nat.not_le.2 hparts)
  · rw [if_neg hparts, if_pos]
    · rfl
    · exact ⟨Nat.not_lt.1 hheader, Decidable.not_not.1 fun hne => hfront (.inl hne),
        fun hext => Nat.not_lt.1 fun hlt => hextended ⟨hext, hlt⟩, Nat.not_lt.1 hparts⟩

/-! ## The view of a packet -/

/-- The view of the datagram that the packet is written as. -/
def ofPacket (p : RtpPacket) : RtpView :=
  ⟨p.encode, p.extensionSize, p.paddingSize⟩

/-- A view is made exactly of the datagrams that are read as packets. -/
theorem parse_eq (data : Bytes) :
    parse data = .ok ((RtpPacket.parse data).map ofPacket) := by
  unfold parse
  rw [read?_eq]
  cases hread : RtpPacket.read? data with
  | none =>
    have hunfit : ¬Fits data := fun h => by
      obtain ⟨p, hp⟩ := RtpPacket.exists_read?_iff.2 h
      rw [hread] at hp
      cases hp
    rw [if_neg hunfit, RtpPacket.parse, hread]
    rfl
  | some p =>
    obtain ⟨hp, rfl⟩ := RtpPacket.read?_eq_some_iff.1 hread
    rw [if_pos hp.fits, hp.extensionSize_encode, hp.paddingSize_encode, RtpPacket.parse, hread]
    rfl

theorem parse_eq_ok_iff {data : Bytes} {v : RtpView} :
    parse data = .ok (.ok v) ↔ ∃ p, RtpPacket.read? data = some p ∧ ofPacket p = v := by
  rw [parse_eq, RtpPacket.parse]
  cases RtpPacket.read? data with
  | none => simp [Except.map]
  | some p => simp [Except.map]

/-- Every access of the view succeeds and shows what it shows of the packet. -/
structure Shows (v : RtpView) (p : RtpPacket) : Prop where
  version : v.version = .ok 2
  hasPadding : v.hasPadding = .ok p.padding.isSome
  hasExtension : v.hasExtension = .ok p.extension.isSome
  csrcCount : v.csrcCount = .ok p.csrcs.length
  marker : v.marker = .ok p.marker
  payloadType : v.payloadType = .ok p.payloadType
  sequence : v.sequence = .ok p.sequence
  timestamp : v.timestamp = .ok p.timestamp
  ssrc : v.ssrc = .ok p.ssrc
  csrc : ∀ index, v.csrc index = .ok p.csrcs[index]?
  headerSize : v.headerSize = .ok p.headerSize
  payloadSize : v.payloadSize = .ok p.payload.length
  payload : v.payload = .ok p.payload
  extension : v.extension = .ok p.extension

/-! ### Finding the parts -/

theorem byteAt_append (before after : Bytes) (i : Nat) :
    byteAt (before ++ after) (before.length + i) = byteAt after i := by
  rw [byteAt, List.getElem?_append_right (Nat.le_add_right _ _), Nat.add_sub_cancel_left, byteAt]

theorem word16At_append (before after : Bytes) (i : Nat) :
    word16At (before ++ after) (before.length + i) = word16At after i := by
  simp only [word16At, Nat.add_assoc, byteAt_append]

theorem word32At_append (before after : Bytes) (i : Nat) :
    word32At (before ++ after) (before.length + i) = word32At after i := by
  simp only [word32At, Nat.add_assoc, byteAt_append]

theorem word16At_be16 (n : UInt16) (after : Bytes) : word16At (be16 n ++ after) 0 = .ok n :=
  congrArg Except.ok (ofBe16_be16 n)

theorem word32At_be32 (n : UInt32) (after : Bytes) : word32At (be32 n ++ after) 0 = .ok n :=
  congrArg Except.ok (ofBe32_be32 n)

theorem word32At_flatMap {words : List UInt32} {i : Nat} (h : i < words.length) (after : Bytes) :
    word32At (words.flatMap be32 ++ after) (4 * i) = .ok words[i] := by
  induction words generalizing i with
  | nil => exact absurd h (Nat.not_lt_zero i)
  | cons word words ih =>
    rw [List.flatMap_cons, List.append_assoc]
    cases i with
    | zero => exact word32At_be32 word _
    | succ i =>
      have hoffset : 4 * (i + 1) = (be32 word).length + 4 * i := Nat.add_comm _ _
      rw [hoffset, word32At_append, ih (Nat.lt_of_succ_lt_succ h), List.getElem_cons_succ]

theorem slice_append (before part after : Bytes) :
    slice (before ++ (part ++ after)) before.length (before.length + part.length) = .ok part := by
  have hfits : before.length ≤ before.length + part.length
      ∧ before.length + part.length ≤ (before ++ (part ++ after)).length := by
    simp only [List.length_append]
    omega
  rw [slice, if_pos hfits, ← List.length_append, ← List.append_assoc, List.take_left,
    List.drop_left]

theorem minus_eq {a b c : Nat} (h : a = b + c) : minus a b = .ok c := by
  rw [minus, if_pos (h ▸ Nat.le_add_right b c), h, Nat.add_sub_cancel_left]

section

variable {p : RtpPacket} (h : p.WellFormed)
include h

theorem csrcCount_ofPacket : (ofPacket p).csrcCount = .ok p.csrcs.length :=
  congrArg Except.ok h.csrcCount_encode

theorem headerSize_ofPacket : (ofPacket p).headerSize = .ok p.headerSize := by
  rw [headerSize, csrcCount_ofPacket h]
  rfl

theorem csrc_ofPacket (index : Nat) : (ofPacket p).csrc index = .ok p.csrcs[index]? := by
  unfold csrc
  rw [csrcCount_ofPacket h]
  change (if p.csrcs.length ≤ index then _ else _) = _
  by_cases hindex : p.csrcs.length ≤ index
  · rw [if_pos hindex, List.getElem?_eq_none hindex]
    rfl
  · have hlt : index < p.csrcs.length := Nat.not_le.1 hindex
    have hword : word32At (ofPacket p).data (12 + 4 * index) = .ok p.csrcs[index] := by
      have hhead : 12 = p.fixedHeader.length := rfl
      rw [ofPacket, RtpPacket.encode_eq, hhead, word32At_append, word32At_flatMap]
    rw [if_neg hindex, hword, List.getElem?_eq_getElem hlt]
    rfl

theorem payloadSize_ofPacket : (ofPacket p).payloadSize = .ok p.payload.length := by
  have hlength : p.encode.length
      = p.headerSize + (p.extensionSize + (p.paddingSize + p.payload.length)) := by
    rw [p.length_encode, RtpPacket.size]
    omega
  unfold payloadSize
  rw [headerSize_ofPacket h]
  change (minus p.encode.length p.headerSize >>= fun size =>
    minus size p.extensionSize >>= fun size => minus size p.paddingSize) = _
  rw [minus_eq hlength]
  change (minus _ p.extensionSize >>= _) = _
  rw [minus_eq rfl]
  exact minus_eq rfl

theorem payload_ofPacket : (ofPacket p).payload = .ok p.payload := by
  have hbytes : p.encode
      = (p.front ++ encodeExtension p.extension) ++ (p.payload ++ p.padding.getD []) := by
    rw [p.encode_eq_front, RtpPacket.back, List.append_assoc]
  have hstart : p.headerSize + p.extensionSize
      = (p.front ++ encodeExtension p.extension).length := by
    rw [List.length_append, p.length_front, p.length_encodeExtension]
  have hlength : p.encode.length
      = p.paddingSize + (p.headerSize + p.extensionSize + p.payload.length) := by
    rw [p.length_encode, RtpPacket.size]
    omega
  unfold payload
  rw [headerSize_ofPacket h]
  change (minus p.encode.length p.paddingSize >>=
    slice p.encode (p.headerSize + p.extensionSize)) = _
  rw [minus_eq hlength]
  change slice p.encode _ _ = _
  rw [hbytes, hstart, slice_append]

theorem hasExtension_ofPacket : (ofPacket p).hasExtension = .ok p.extension.isSome :=
  congrArg Except.ok h.isExtended_encode

theorem extension_ofPacket : (ofPacket p).extension = .ok p.extension := by
  unfold extension
  rw [hasExtension_ofPacket h, headerSize_ofPacket h]
  cases hext : p.extension with
  | none => rfl
  | some e =>
    have hbytes : p.encode
        = p.front ++ (be16 e.1 ++ (be16 (UInt16.ofNat (e.2.length / 4)) ++ (e.2 ++ p.back))) := by
      rw [p.encode_eq_front, hext, encodeExtension, List.append_assoc, List.append_assoc]
    have hid : word16At p.encode p.headerSize = .ok e.1 := by
      rw [hbytes, ← p.length_front]
      exact (word16At_append _ _ 0).trans (word16At_be16 _ _)
    have hwords : slice p.encode (p.headerSize + 4) (p.headerSize + p.extensionSize) = .ok e.2 := by
      have hstart : p.headerSize + 4
          = (p.front ++ (be16 e.1 ++ be16 (UInt16.ofNat (e.2.length / 4)))).length := by
        rw [List.length_append, p.length_front]
        rfl
      have hstop : p.headerSize + p.extensionSize = p.headerSize + 4 + e.2.length := by
        rw [RtpPacket.extensionSize, hext, Nat.add_assoc]
      have hparts : p.encode = (p.front ++ (be16 e.1 ++ be16 (UInt16.ofNat (e.2.length / 4))))
          ++ (e.2 ++ p.back) := by
        rw [hbytes, List.append_assoc, List.append_assoc]
      rw [hstop, hstart, hparts, slice_append]
    change (word16At p.encode p.headerSize >>= fun id =>
      slice p.encode (p.headerSize + 4) (p.headerSize + p.extensionSize) >>= _) = _
    rw [hid, hwords]
    rfl

theorem shows_ofPacket : (ofPacket p).Shows p where
  version := congrArg Except.ok (RtpPacket.flags_bits h.csrcs).1
  hasPadding := congrArg Except.ok h.isPadded_encode
  hasExtension := hasExtension_ofPacket h
  csrcCount := csrcCount_ofPacket h
  marker := congrArg Except.ok (RtpPacket.kind_bits h.payloadType).1
  payloadType := congrArg Except.ok (RtpPacket.kind_bits h.payloadType).2
  sequence := congrArg Except.ok (ofBe16_be16 p.sequence)
  timestamp := congrArg Except.ok (ofBe32_be32 p.timestamp)
  ssrc := congrArg Except.ok (ofBe32_be32 p.ssrc)
  csrc := csrc_ofPacket h
  headerSize := headerSize_ofPacket h
  payloadSize := payloadSize_ofPacket h
  payload := payload_ofPacket h
  extension := extension_ofPacket h

end

/-! ## The whole datagram -/

/-- The view finds the parts of the packet in the datagram: they have the sizes that it declares,
and they are all of it, in their order. -/
structure Partition (data : Bytes) (v : RtpView) (p : RtpPacket) : Prop where
  parse : RtpPacket.parse data = .ok p
  csrc : ∀ index, v.csrc index = .ok p.csrcs[index]?
  length_csrcs : p.csrcs.length = Datagram.csrcCount data
  extension : v.extension = .ok p.extension
  isSome_extension : p.extension.isSome = Datagram.isExtended data
  payload : v.payload = .ok p.payload
  payloadSize : v.payloadSize = .ok p.payload.length
  length_padding : (p.padding.getD []).length = Datagram.paddingSize data
  bytes : data = data.take 12 ++ (p.csrcs.flatMap be32 ++ (encodeExtension p.extension
    ++ (p.payload ++ p.padding.getD [])))

/-- A datagram is accepted exactly if what it declares fits into it, and is refused without a fault
otherwise. If it is accepted, no access is outside of it, and the parts that are shown make up the
whole of it. -/
theorem parse_partition (data : Bytes) :
    ((∃ v, parse data = .ok (.ok v)) ↔ Fits data)
      ∧ (¬Fits data → parse data = .ok (.error (.parse .rtpPacket)))
      ∧ ∀ v, parse data = .ok (.ok v) → ∃ p, Partition data v p := by
  refine ⟨?_, ?_, ?_⟩
  · rw [← RtpPacket.exists_read?_iff]
    constructor
    · rintro ⟨v, hv⟩
      obtain ⟨p, hread, -⟩ := parse_eq_ok_iff.1 hv
      exact ⟨p, hread⟩
    · rintro ⟨p, hread⟩
      exact ⟨ofPacket p, parse_eq_ok_iff.2 ⟨p, hread, rfl⟩⟩
  · intro hunfit
    rw [parse, read?_eq, if_neg hunfit]
    rfl
  · intro v hv
    obtain ⟨p, hread, rfl⟩ := parse_eq_ok_iff.1 hv
    obtain ⟨hp, rfl⟩ := RtpPacket.read?_eq_some_iff.1 hread
    have hshows := shows_ofPacket hp
    exact
      ⟨p,
        { parse := by rw [RtpPacket.parse, hread]
          csrc := hshows.csrc
          length_csrcs := hp.csrcCount_encode.symm
          extension := hshows.extension
          isSome_extension := hp.isExtended_encode.symm
          payload := hshows.payload
          payloadSize := hshows.payloadSize
          length_padding := by
            rw [hp.paddingSize_encode, RtpPacket.paddingSize]
            cases p.padding <;> rfl
          bytes := p.encode_eq }⟩

/-- A padded datagram with two contributing sources and an extension of one word. -/
theorem parse_partition_every_part :
    let data : Bytes := [0xB2, 0x60, 0, 7, 0, 0, 0x0B, 0xB8, 1, 2, 3, 4] ++ [0, 0, 0, 1, 0, 0, 0, 2]
      ++ [0xBE, 0xDE, 0, 1, 9, 9, 9, 9] ++ [0x41, 0x42, 0x43] ++ [0, 0, 3]
    parse data = .ok (.ok ⟨data, 8, 3⟩) ∧ ∃ p, Partition data ⟨data, 8, 3⟩ p :=
  ⟨by rfl, (parse_partition _).2.2 _ (by rfl)⟩

end Rtsp.RtpView
