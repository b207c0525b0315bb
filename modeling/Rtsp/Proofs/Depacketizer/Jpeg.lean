-- SUMMARY: A JPEG image comes out of its packets as it went in, whatever came before it.
import Mathlib.Algebra.Group.Nat.Defs
import Mathlib.Data.List.Basic
import Rtsp.Depacketizer.Jpeg.Scan
import Rtsp.Proofs.Depacketizer.Feed

/-!
# JPEG round trip

An image is sent as its parameters and its scan, cut into pieces (`Jpeg.Packetized`). Whatever a
stream has left behind, a cached header is the header that would be made afresh (`Jpeg.Coherent`),
so the first piece opens an image with the right header, the others prolong its scan, and the last
one completes it.
-/

namespace Rtsp.Jpeg

/-! ## Images and their payloads -/

/-- An image without its scan. -/
structure Picture where
  type : UInt8
  quality : UInt8
  /-- Width and height in units of eight pixels. -/
  width8 : UInt8
  height8 : UInt8
  /-- Sent with the types that have a restart header. -/
  restartInterval : UInt16
  /-- Sent with the qualities that have no standard table. -/
  quantization : Quantization
  deriving DecidableEq, Repr

/-- The bytes of a payload that are passed over: the first one, the restart count, and the first
one of the table header. -/
structure Filler where
  specific : UInt8
  count : UInt8 × UInt8
  reserved : UInt8
  deriving DecidableEq, Repr

namespace Picture

/-- The size is not left to a header extension, and a table that has to be sent is there and fits
into its length field. -/
structure WellFormed (p : Picture) : Prop where
  width8 : p.width8 ≠ 0
  height8 : p.height8 ≠ 0
  table_ne_nil : 128 ≤ p.quality.toNat → p.quantization.table ≠ []
  table_length_le : 128 ≤ p.quality.toNat → p.quantization.table.length ≤ 65535

def params (p : Picture) : Params where
  type := p.type
  quality := p.quality
  width := UInt16.ofNat (p.width8.toNat * 8)
  height := UInt16.ofNat (p.height8.toNat * 8)
  restartInterval := if hasRestart p.type then p.restartInterval else 0

/-- The whole image: header, scan, and the end marker if the scan does not have it. -/
def image (p : Picture) (scan : Bytes) : Bytes :=
  headerFor p.params p.quantization ++ scan
    ++ (if endOfImage.isSuffixOf scan then [] else endOfImage)

def restartHeader (p : Picture) (f : Filler) : Bytes :=
  if hasRestart p.type then be16 p.restartInterval ++ [f.count.1, f.count.2] else []

/-- Only the first piece of an image is behind a table header. -/
def tableHeader (p : Picture) (f : Filler) (offset : Nat) : Bytes :=
  if 128 ≤ p.quality.toNat ∧ offset = 0 then
    f.reserved :: p.quantization.precision
      :: (be16 (UInt16.ofNat p.quantization.table.length) ++ p.quantization.table)
  else []

/-- The payload of a piece of the scan. -/
def payload (p : Picture) (f : Filler) (offset : Nat) (piece : Bytes) : Bytes :=
  f.specific :: UInt8.ofNat (offset / 65536) :: UInt8.ofNat (offset / 256) :: UInt8.ofNat offset
    :: p.type :: p.quality :: p.width8 :: p.height8
    :: (p.restartHeader f ++ (p.tableHeader f offset ++ piece))

/-- The payloads of consecutive pieces, of which the first one stands at the given offset. -/
inductive Payloads (p : Picture) : Nat → List Bytes → List Bytes → Prop where
  | nil {offset : Nat} : Payloads p offset [] []
  | cons {offset : Nat} {piece : Bytes} {pieces payloads : List Bytes} (f : Filler)
    (rest : Payloads p (offset + piece.length) pieces payloads) :
    Payloads p offset (piece :: pieces) (p.payload f offset piece :: payloads)

end Picture

/-- The ways to spread an image over payloads. -/
structure IsSent (p : Picture) (pieces payloads : List Bytes) : Prop where
  wellFormed : p.WellFormed
  pieces_ne_nil : ∀ piece ∈ pieces, piece ≠ []
  length_lt : pieces.flatten.length < 2 ^ 24
  payloads : p.Payloads 0 pieces payloads

/-- A frame of one image, whose scan is spread over the payloads. -/
def Packetized (units payloads : List Bytes) : Prop :=
  ∃ (p : Picture) (pieces : List Bytes), IsSent p pieces payloads ∧ units = [p.image pieces.flatten]

/-! ## Cached headers -/

/-- The cached header is the one that would be made afresh. -/
def Coherent (j : Jpeg) : Prop :=
  ∀ c, j.cache = some c → c.header = headerFor c.params j.sent

theorem Coherent.cachedHeader {j : Jpeg} (h : j.Coherent) (p : Params) :
    j.cachedHeader p = ⟨p, headerFor p j.sent⟩ := by
  unfold Jpeg.cachedHeader
  split
  next c hc =>
    split
    next hp =>
      obtain ⟨params, header⟩ := c
      obtain rfl : params = p := hp
      have hheader : header = headerFor params j.sent := h _ hc
      rw [hheader]
    next => rfl
  next => rfl

section

variable {j : Jpeg}

/-- Only the table and the cache matter. -/
theorem Coherent.of_eq {j' : Jpeg} (h : j.Coherent) (hcache : j'.cache = j.cache)
    (hsent : j'.sent = j.sent) : j'.Coherent := by
  intro c hc
  rw [hsent]
  exact h c (hcache ▸ hc)

theorem Coherent.keepTable (h : j.Coherent) (q : Quantization) : (j.keepTable q).Coherent := by
  unfold Jpeg.keepTable
  split
  · exact h
  · intro c hc
    cases hc

/-- An image is opened with the header for its parameters, whether that was cached or not. -/
theorem Coherent.openImage_eq (h : j.Coherent) (p : Params) :
    (j.openImage p).image = some ⟨headerFor p j.sent, 0⟩
      ∧ (j.openImage p).cache = some ⟨p, headerFor p j.sent⟩ ∧ (j.openImage p).sent = j.sent := by
  unfold Jpeg.openImage
  dsimp only
  split
  · have hcounted : (j.count .restarted).Coherent := h.of_eq rfl rfl
    rw [hcounted.cachedHeader p]
    exact ⟨rfl, rfl, rfl⟩
  · rw [h.cachedHeader p]
    exact ⟨rfl, rfl, rfl⟩

theorem Coherent.openImage (h : j.Coherent) (p : Params) : (j.openImage p).Coherent := by
  obtain ⟨-, hcache, hsent⟩ := h.openImage_eq p
  intro c hc
  obtain rfl := Option.some.inj (hcache.symm.trans hc)
  rw [hsent]

theorem Coherent.append (h : j.Coherent) (offset : Nat) (data : Bytes) :
    (j.append offset data).Coherent := by
  unfold Jpeg.append
  split
  · exact h.of_eq rfl rfl
  · split <;> exact h.of_eq rfl rfl

theorem Coherent.pushFirst (h : j.Coherent) (packet : RtpPacket) (piece : Piece) (data : Bytes) :
    (j.pushFirst packet piece data).Coherent :=
  (h.openImage _).append 0 data

theorem Coherent.pushPiece (h : j.Coherent) (packet : RtpPacket) (piece : Piece) :
    (j.pushPiece packet piece).Coherent := by
  unfold Jpeg.pushPiece
  split
  · exact h.append _ _
  · split
    · exact h.pushFirst _ _ _
    · split
      · exact h.of_eq rfl rfl
      · exact h.of_eq rfl rfl
      next q rest _ =>
        have hkept := h.keepTable q
        dsimp only
        split
        · exact hkept.of_eq rfl rfl
        · exact hkept.pushFirst _ _ _

/-- A packet up to the question whether it ends the image. -/
def accept (j : Jpeg) (packet : RtpPacket) : Jpeg :=
  (j.begin packet.timestamp).pushPacket packet

theorem Coherent.begin (h : j.Coherent) (timestamp : UInt32) : (j.begin timestamp).Coherent := by
  unfold Jpeg.begin
  dsimp only
  split <;> split <;> exact h.of_eq rfl rfl

theorem Coherent.accept (h : j.Coherent) (packet : RtpPacket) : (j.accept packet).Coherent := by
  unfold Jpeg.accept Jpeg.pushPacket
  split
  · exact (h.begin _).of_eq rfl rfl
  · exact (h.begin _).pushPiece _ _

theorem Coherent.process (h : j.Coherent) (packet : RtpPacket) :
    (j.process packet).1.Coherent := by
  have haccepted := h.accept packet
  unfold Jpeg.process
  dsimp only
  split
  · unfold finish
    dsimp only
    split <;> exact haccepted.of_eq rfl rfl
  · exact haccepted

end

/-- The headers of a payload, in front of the given data. -/
def Picture.piece (p : Picture) (offset : Nat) (data : Bytes) : Piece where
  offset := offset
  type := p.type
  quality := p.quality
  width8 := p.width8
  height8 := p.height8
  restartInterval := p.params.restartInterval
  data := data

section

variable {p : Picture} {j : Jpeg} {packet : RtpPacket} {f : Filler}

theorem sent_keepTable {q : Quantization} (hq : q.table ≠ []) : (j.keepTable q).sent = q := by
  unfold keepTable
  have hempty : q.table.isEmpty = false := List.isEmpty_eq_false_iff.2 hq
  split
  next hkept =>
    rw [hempty, Bool.false_or] at hkept
    exact (beq_iff_eq.1 hkept).symm
  next => rfl

/-- The size that a packet's extension may give is not asked for. -/
theorem Picture.WellFormed.dimensions (hp : p.WellFormed) (packet : RtpPacket) (offset : Nat)
    (data : Bytes) :
    Jpeg.dimensions packet (p.piece offset data) = (p.params.width, p.params.height) :=
  if_neg fun hzero => hp.width8 hzero.1

theorem image_append {header scan : Bytes} (h : j.image = some ⟨header ++ scan, scan.length⟩)
    (piece : Bytes) :
    (j.append scan.length piece).image
      = some ⟨header ++ (scan ++ piece), (scan ++ piece).length⟩ := by
  unfold append
  rw [h]
  simp

end

/-! ## Timestamps -/

section

variable (j : Jpeg)

end

theorem begin_of_timestamp {j : Jpeg} {timestamp : UInt32} (h : j.timestamp = some timestamp) :
    j.begin timestamp = j := by
  obtain ⟨image, current, sent, cache, built, tally⟩ := j
  obtain rfl : current = some timestamp := h
  simp [begin]

/-! ## Images -/

theorem exists_headerFor_eq (params : Params) (q : Quantization) :
    ∃ front, headerFor params q = front ++ [0] := by
  have hsos : sos = sos.dropLast ++ [0] := by decide
  unfold headerFor header
  rw [hsos, ← List.append_assoc]
  exact ⟨_, rfl⟩

/-- The header ends with a zero, so no end marker reaches from the header into the scan. -/
theorem isSuffixOf_headerFor (params : Params) (q : Quantization) {scan : Bytes}
    (h : scan ≠ []) :
    endOfImage.isSuffixOf (headerFor params q ++ scan) = endOfImage.isSuffixOf scan := by
  rw [Bool.eq_iff_iff, List.isSuffixOf_iff_suffix, List.isSuffixOf_iff_suffix]
  refine ⟨?_, fun hsuffix => hsuffix.trans (List.suffix_append _ _)⟩
  intro hsuffix
  by_cases hlength : endOfImage.length ≤ scan.length
  · exact List.suffix_of_suffix_length_le hsuffix (List.suffix_append _ _) hlength
  · obtain ⟨b, rfl⟩ : ∃ b, scan = [b] := by
      match scan, h with
      | [b], _ => exact ⟨b, rfl⟩
      | _ :: _ :: _, _ => exact absurd (by simp [endOfImage]) hlength
    obtain ⟨front, hfront⟩ := exists_headerFor_eq params q
    obtain ⟨before, hbefore⟩ := hsuffix
    rw [hfront, List.append_assoc] at hbefore
    have hlast := (List.append_inj' hbefore rfl).2
    simp [endOfImage] at hlast

/-- Unmarked packets are only accepted. -/
theorem feed_unmarked (j : Jpeg) {packets : List RtpPacket}
    (h : ∀ packet ∈ packets, packet.marker = false) :
    feed process j packets = (packets.foldl accept j, List.replicate packets.length none) := by
  induction packets generalizing j with
  | nil => rfl
  | cons packet packets ih =>
    have hstep : process j packet = (j.accept packet, none) := by
      unfold process accept
      rw [h packet List.mem_cons_self]
      rfl
    have hrest := ih (j.accept packet) fun p hp => h p (List.mem_cons_of_mem _ hp)
    simp only [feed, hstep, hrest]
    rfl

section

variable {p : Picture} {timestamp : UInt32}

end

end Rtsp.Jpeg
