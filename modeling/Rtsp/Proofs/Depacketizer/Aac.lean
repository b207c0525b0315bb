-- SUMMARY: Which payloads hold AAC access units, and that they come out as they went in.
import Rtsp.Depacketizer.Aac
import Mathlib.Data.List.Basic
import Mathlib.Order.Monotone.Basic
import Mathlib.Tactic.Ring

/-!
# AAC access units

Bit fields are read as they are written (`Aac.readBits?_eq_some_iff`), so the header section of a
payload can be said to begin with the headers of some units. A payload is taken apart exactly if it
holds units whose headers fill the declared length and whose data fit (`Aac.split?_eq_some_iff`).
-/

namespace Rtsp.Aac

/-! ## Bits -/

/-- The number that bits stand for, the highest first. -/
def ofBits (bs : List Bool) : Nat :=
  bs.foldl (fun n b => 2 * n + b.toNat) 0

/-- The lowest bits of a number, the highest of them first. -/
def bitsOf : Nat → Nat → List Bool
  | 0, _ => []
  | width + 1, n => n.testBit width :: bitsOf width n

theorem length_bitsOf (width n : Nat) : (bitsOf width n).length = width := by
  induction width with
  | zero => rfl
  | succ width ih => exact congrArg (· + 1) ih

theorem foldl_bits (start : Nat) (bs : List Bool) :
    bs.foldl (fun n b => 2 * n + b.toNat) start = start * 2 ^ bs.length + ofBits bs := by
  induction bs generalizing start with
  | nil => simp [ofBits]
  | cons b bs ih =>
    have hstart := ih (2 * start + b.toNat)
    have hzero := ih (2 * 0 + b.toNat)
    rw [ofBits, List.foldl_cons, List.foldl_cons, hstart, hzero, List.length_cons, Nat.pow_succ]
    ring

theorem ofBits_cons (b : Bool) (bs : List Bool) :
    ofBits (b :: bs) = b.toNat * 2 ^ bs.length + ofBits bs := by
  rw [ofBits, List.foldl_cons, foldl_bits, Nat.mul_zero, Nat.zero_add]

theorem ofBits_lt (bs : List Bool) : ofBits bs < 2 ^ bs.length := by
  induction bs with
  | nil => exact Nat.one_pos
  | cons b bs ih =>
    rw [ofBits_cons, List.length_cons, Nat.pow_succ]
    cases b <;> simp <;> omega

/-- A number that fits is read back. -/
theorem ofBits_bitsOf {width n : Nat} (h : n < 2 ^ width) : ofBits (bitsOf width n) = n := by
  have hmod : ∀ width, ofBits (bitsOf width n) = n % 2 ^ width := by
    intro width
    induction width with
    | zero => simp [bitsOf, ofBits, Nat.mod_one]
    | succ width ih =>
      rw [bitsOf, ofBits_cons, length_bitsOf, ih, Nat.toNat_testBit, Nat.mod_pow_succ]
      ring
  rw [hmod, Nat.mod_eq_of_lt h]

theorem bitsOf_congr {width m n : Nat} (h : ∀ i < width, m.testBit i = n.testBit i) :
    bitsOf width m = bitsOf width n := by
  induction width with
  | zero => rfl
  | succ width ih =>
    rw [bitsOf, bitsOf, h width (Nat.lt_succ_self width), ih fun i hi => h i (Nat.lt_succ_of_lt hi)]

theorem bitsOf_ofBits (bs : List Bool) : bitsOf bs.length (ofBits bs) = bs := by
  induction bs with
  | nil => rfl
  | cons b bs ih =>
    have htest : ∀ i, (ofBits (b :: bs)).testBit i
        = if i < bs.length then (ofBits bs).testBit i else b.toNat.testBit (i - bs.length) := by
      intro i
      rw [ofBits_cons, Nat.mul_comm, Nat.testBit_two_pow_mul_add _ (ofBits_lt bs)]
    have hlow : bitsOf bs.length (ofBits (b :: bs)) = bitsOf bs.length (ofBits bs) :=
      bitsOf_congr fun i hi => by rw [htest, if_pos hi]
    have hhigh : (ofBits (b :: bs)).testBit bs.length = b := by
      rw [htest, if_neg (Nat.lt_irrefl _), Nat.sub_self]
      cases b <;> rfl
    rw [List.length_cons, bitsOf, hhigh, hlow, ih]

/-! ### Reading -/

/-- A field is read as it is written. -/
theorem readBits?_eq_some_iff {width n : Nat} {bs rest : List Bool} :
    readBits? width bs = some (n, rest) ↔ n < 2 ^ width ∧ bs = bitsOf width n ++ rest := by
  unfold readBits?
  constructor
  · intro hread
    dsimp only at hread
    split at hread
    next hlength =>
      obtain ⟨rfl, rfl⟩ := Prod.mk.inj (Option.some.inj hread)
      have hlt := ofBits_lt (bs.take width)
      have hbits := bitsOf_ofBits (bs.take width)
      rw [hlength] at hlt hbits
      rw [ofBits] at hlt hbits
      exact ⟨hlt, by rw [hbits, List.take_append_drop]⟩
    next => cases hread
  · rintro ⟨hlt, rfl⟩
    have htake : (bitsOf width n ++ rest).take width = bitsOf width n :=
      List.take_left' (length_bitsOf width n)
    have hdrop : (bitsOf width n ++ rest).drop width = rest :=
      List.drop_left' (length_bitsOf width n)
    have hnumber := ofBits_bitsOf hlt
    rw [ofBits] at hnumber
    dsimp only
    rw [htake, hdrop, if_pos (length_bitsOf width n), hnumber]

theorem readBits?_bitsOf (width n : Nat) (rest : List Bool) :
    readBits? width (bitsOf width n ++ rest) = some (n % 2 ^ width, rest) := by
  refine readBits?_eq_some_iff.2 ⟨Nat.mod_lt _ (Nat.two_pow_pos width), ?_⟩
  congr 1
  exact bitsOf_congr fun i hi => by rw [Nat.testBit_mod_two_pow, decide_eq_true hi, Bool.true_and]

/-! ## Bytes -/

theorem bits_cons (b : UInt8) (bs : Bytes) : bits (b :: bs) = bitsOf 8 b.toNat ++ bits bs :=
  rfl

theorem length_bits (bs : Bytes) : (bits bs).length = 8 * bs.length := by
  induction bs with
  | nil => rfl
  | cons b bs ih =>
    rw [bits_cons, List.length_append, length_bitsOf, ih, List.length_cons, Nat.mul_succ,
      Nat.add_comm]

/-- Bits in bytes, the last of which is filled up with zeros. -/
def pack : List Bool → Bytes
  | [] => []
  | b :: bs => UInt8.ofNat (ofBits (b :: (bs ++ List.replicate 7 false).take 7)) :: pack (bs.drop 7)
termination_by bs => bs.length

theorem length_pack (bs : List Bool) : (pack bs).length = (bs.length + 7) / 8 := by
  fun_induction pack bs with
  | case1 => rfl
  | case2 b bs ih =>
    rw [List.length_cons, ih, List.length_drop, List.length_cons]
    omega

theorem bits_pack (bs : List Bool) :
    bits (pack bs) = bs ++ List.replicate (8 * (pack bs).length - bs.length) false := by
  fun_induction pack bs with
  | case1 => rfl
  | case2 b bs ih =>
    obtain ⟨seven, hseven⟩ : ∃ seven, seven = (bs ++ List.replicate 7 false).take 7 := ⟨_, rfl⟩
    have hlength : (b :: seven).length = 8 := by simp [hseven]
    have hbyte : bitsOf 8 (UInt8.ofNat (ofBits (b :: seven))).toNat = b :: seven := by
      have hlt := ofBits_lt (b :: seven)
      have hbits := bitsOf_ofBits (b :: seven)
      rw [hlength] at hlt hbits
      rw [UInt8.toNat_ofNat', Nat.mod_eq_of_lt hlt, hbits]
    rw [bits_cons, ← hseven, hbyte, ih, List.length_cons, length_pack, List.length_drop,
      List.length_cons]
    -- Zeros are needed only if the byte is not full, and then it is the last one.
    by_cases hmore : 7 ≤ bs.length
    · have htake : seven = bs.take 7 := hseven.trans (List.take_append_of_le_length hmore)
      rw [htake, List.cons_append, ← List.append_assoc, List.take_append_drop, List.cons_append]
      congr 3
      omega
    · have hdrop : bs.drop 7 = [] := List.drop_eq_nil_of_le (by omega)
      have htake : seven = bs ++ List.replicate (7 - bs.length) false := by
        rw [hseven, List.take_append, List.take_of_length_le (by omega), List.take_replicate]
        congr 2
        omega
      rw [hdrop, htake, List.nil_append, List.cons_append, List.append_assoc,
        List.replicate_append_replicate, List.cons_append]
      congr 3
      omega

/-! ## Units and their headers -/

/-- An access unit and the index in its header. -/
structure AccessUnit where
  index : Nat
  data : Bytes
  deriving DecidableEq, Repr

variable {layout : AacLayout}

/-- The header of a unit, whose index has the given width. -/
def header (layout : AacLayout) (index : Nat) (u : AccessUnit) : List Bool :=
  bitsOf layout.size u.data.length ++ bitsOf index u.index

/-- The headers of units, of which the first index has the given width. -/
def headersFrom (layout : AacLayout) (index : Nat) : List AccessUnit → List Bool
  | [] => []
  | u :: us => header layout index u ++ headersFrom layout layout.indexDelta us

/-- The headers of all units of a payload. -/
def headers (layout : AacLayout) (us : List AccessUnit) : List Bool :=
  headersFrom layout layout.index us

/-- The width of so many headers, of which the first index has the given width. -/
def widthFrom (layout : AacLayout) (index : Nat) : Nat → Nat
  | 0 => 0
  | n + 1 => layout.size + index + n * (layout.size + layout.indexDelta)

/-- The width of the headers of so many units: a size and an index for the first one, and a size and
an index difference for each further one. -/
def headersWidth (layout : AacLayout) (n : Nat) : Nat :=
  widthFrom layout layout.index n

theorem widthFrom_succ (layout : AacLayout) (index n : Nat) :
    widthFrom layout index (n + 1)
      = layout.size + index + widthFrom layout layout.indexDelta n := by
  cases n with
  | zero => simp [widthFrom]
  | succ n =>
    rw [widthFrom, widthFrom]
    ring

theorem length_headersFrom (layout : AacLayout) (index : Nat) (us : List AccessUnit) :
    (headersFrom layout index us).length = widthFrom layout index us.length := by
  induction us generalizing index with
  | nil => rfl
  | cons u us ih =>
    rw [headersFrom, header, List.length_append, List.length_append, length_bitsOf, length_bitsOf,
      ih, List.length_cons, widthFrom_succ]

theorem widthFrom_lt_iff (hs : 0 < layout.size) (index : Nat) {k n : Nat} :
    widthFrom layout index k < widthFrom layout index n ↔ k < n := by
  refine StrictMono.lt_iff_lt (strictMono_nat_of_lt_succ fun n => ?_)
  cases n with
  | zero => simp [widthFrom, hs]
  | succ n => simp [widthFrom, Nat.add_mul, hs]

/-! ## Reading units -/

/-- So many headers reach a declared width, and no fewer. -/
def Fill (layout : AacLayout) (index declared n : Nat) : Prop :=
  ∀ k, k < n ↔ widthFrom layout index k < declared

theorem fill_zero_iff {index declared : Nat} : Fill layout index declared 0 ↔ declared = 0 := by
  constructor
  · intro h
    have hzero := h 0
    simp [widthFrom] at hzero
    exact hzero
  · rintro rfl k
    simp

theorem fill_succ_iff {index declared n : Nat} :
    Fill layout index declared (n + 1)
      ↔ declared ≠ 0 ∧ Fill layout layout.indexDelta (declared - (layout.size + index)) n := by
  constructor
  · intro h
    refine ⟨?_, ?_⟩
    · have hzero := (h 0).1 (Nat.succ_pos n)
      rw [widthFrom] at hzero
      omega
    · intro k
      have hk := h (k + 1)
      rw [widthFrom_succ] at hk
      omega
  · rintro ⟨hne, h⟩ k
    cases k with
    | zero => simp [widthFrom]; omega
    | succ k =>
      have hk := h k
      rw [widthFrom_succ]
      omega

/-- The bits begin with the headers of the units and the data with the units themselves, and the
headers fill the declared width. -/
structure Begins (layout : AacLayout) (index declared : Nat) (bs : List Bool) (data : Bytes)
    (us : List AccessUnit) : Prop where
  size_lt : ∀ u ∈ us, u.data.length < 2 ^ layout.size
  headers : headersFrom layout index us <+: bs
  data : us.flatMap (·.data) <+: data
  fill : Fill layout index declared us.length

theorem begins_nil_iff {index declared : Nat} {bs : List Bool} {data : Bytes} :
    Begins layout index declared bs data [] ↔ declared = 0 := by
  constructor
  · exact fun h => fill_zero_iff.1 h.fill
  · exact fun h => ⟨nofun, List.nil_prefix, List.nil_prefix, fill_zero_iff.2 h⟩

theorem begins_cons_iff {index declared : Nat} {bs : List Bool} {data : Bytes} {u : AccessUnit}
    {us : List AccessUnit} :
    Begins layout index declared bs data (u :: us)
      ↔ declared ≠ 0 ∧ u.data.length < 2 ^ layout.size
        ∧ ∃ bs' data', bs = header layout index u ++ bs' ∧ data = u.data ++ data'
          ∧ Begins layout layout.indexDelta (declared - (layout.size + index)) bs' data' us := by
  constructor
  · rintro ⟨hsize, ⟨bs', hbs⟩, ⟨data', hdata⟩, hfill⟩
    obtain ⟨hne, hrest⟩ := fill_succ_iff.1 hfill
    rw [headersFrom, List.append_assoc] at hbs
    rw [List.flatMap_cons, List.append_assoc] at hdata
    refine ⟨hne, hsize u List.mem_cons_self, _, _, hbs.symm, hdata.symm, ?_⟩
    exact ⟨fun v hv => hsize v (List.mem_cons_of_mem _ hv), List.prefix_append _ _,
      List.prefix_append _ _, hrest⟩
  · rintro ⟨hne, hu, bs', data', rfl, rfl, hsize, hbs, hdata, hfill⟩
    refine ⟨List.forall_mem_cons.2 ⟨hu, hsize⟩, ?_, ?_, fill_succ_iff.2 ⟨hne, hfill⟩⟩
    · exact (List.prefix_append_right_inj _).2 hbs
    · rw [List.flatMap_cons]
      exact (List.prefix_append_right_inj _).2 hdata

/-- Units are read exactly if they are there. -/
theorem readUnits?_eq_some_iff (hs : 0 < layout.size) {index declared : Nat} {bs : List Bool}
    {data : Bytes} {units : List Bytes} :
    readUnits? layout hs index declared bs data = some units
      ↔ ∃ us, Begins layout index declared bs data us ∧ us.map (·.data) = units := by
  -- On the declared width: a header has a size, so every one leaves less to be read.
  induction declared using Nat.strongRecOn generalizing index bs data units with
  | ind declared ih =>
    by_cases hzero : declared = 0
    · rw [readUnits?, if_pos hzero]
      constructor
      · rintro ⟨rfl⟩
        exact ⟨[], begins_nil_iff.2 hzero, rfl⟩
      · rintro ⟨us, hus, rfl⟩
        cases us with
        | nil => rfl
        | cons u us => exact absurd hzero (begins_cons_iff.1 hus).1
    · rw [readUnits?, if_neg hzero]
      have hless : declared - (layout.size + index) < declared := by omega
      constructor
      · intro hread
        obtain ⟨⟨size, bs₁⟩, hsize, hread⟩ := Option.bind_eq_some_iff.1 hread
        obtain ⟨⟨i, bs₂⟩, hindex, hread⟩ := Option.bind_eq_some_iff.1 hread
        dsimp only at hread
        split at hread
        · cases hread
        next hfits =>
          obtain ⟨rest, hrest, hunits⟩ := Option.bind_eq_some_iff.1 hread
          obtain ⟨us, hus, rfl⟩ := (ih _ hless).1 hrest
          obtain ⟨hlt, rfl⟩ := readBits?_eq_some_iff.1 hsize
          obtain ⟨-, rfl⟩ := readBits?_eq_some_iff.1 hindex
          have hlength : (data.take size).length = size :=
            List.length_take_of_le (Nat.not_lt.1 hfits)
          refine ⟨⟨i, data.take size⟩ :: us, begins_cons_iff.2 ?_, Option.some.inj hunits⟩
          refine ⟨hzero, hlength.symm ▸ hlt, bs₂, data.drop size, ?_, ?_, hus⟩
          · rw [header, hlength, List.append_assoc]
          · exact (List.take_append_drop size data).symm
      · rintro ⟨us, hus, rfl⟩
        cases us with
        | nil => exact absurd (begins_nil_iff.1 hus) hzero
        | cons u us =>
          obtain ⟨-, hu, bs', data', rfl, rfl, hmore⟩ := begins_cons_iff.1 hus
          have hrest := (ih _ hless).2 ⟨us, hmore, rfl⟩
          have hfits : ¬(u.data ++ data').length < u.data.length := by simp
          rw [header, List.append_assoc, readBits?_bitsOf, Nat.mod_eq_of_lt hu]
          simp only [Option.bind_eq_bind, Option.bind_some, readBits?_bitsOf, if_neg hfits,
            List.drop_left, List.take_left, hrest, List.map_cons]

/-! ## Payloads -/

/-- The width of all headers in bits, as a payload declares it. -/
def declaredWidth : Bytes → Nat
  | hi :: lo :: _ => (ofBe16 hi lo).toNat
  | _ => 0

/-- The bytes that the headers take. -/
def sectionSize (payload : Bytes) : Nat :=
  (declaredWidth payload + 7) / 8

/-- The bytes of a payload behind its header section. -/
def unitData (payload : Bytes) : Bytes :=
  payload.drop (2 + sectionSize payload)

/-- The payload is long enough for its header section, which begins with the headers of the units;
these fill the declared width, and the units follow. -/
structure Holds (layout : AacLayout) (payload : Bytes) (us : List AccessUnit) : Prop where
  length_ge : 2 + sectionSize payload ≤ payload.length
  size_lt : ∀ u ∈ us, u.data.length < 2 ^ layout.size
  headers : headers layout us <+: bits ((payload.drop 2).take (sectionSize payload))
  data : us.flatMap (·.data) <+: unitData payload
  fill : ∀ k, k < us.length ↔ headersWidth layout k < declaredWidth payload

/-- A payload is taken apart exactly if it holds some units. -/
theorem split?_eq_some_iff (hs : 0 < layout.size) {payload : Bytes} {units : List Bytes} :
    split? layout payload = some units
      ↔ ∃ us, Holds layout payload us ∧ us.map (·.data) = units := by
  unfold split?
  rw [dif_neg (Nat.ne_of_gt hs)]
  match payload with
  | [] | [_] =>
    refine iff_of_false nofun ?_
    rintro ⟨us, hus, -⟩
    have hlength := hus.length_ge
    simp only [List.length_cons, List.length_nil] at hlength
    omega
  | hi :: lo :: rest =>
    have hdata : unitData (hi :: lo :: rest) = rest.drop (sectionSize (hi :: lo :: rest)) := by
      rw [unitData, Nat.add_comm]
      rfl
    dsimp only
    split
    next hshort =>
      refine iff_of_false nofun ?_
      rintro ⟨us, hus, -⟩
      have hlength := hus.length_ge
      simp only [sectionSize, declaredWidth, List.length_cons, List.length_take] at hlength hshort
      omega
    next hlong =>
      rw [readUnits?_eq_some_iff hs]
      refine exists_congr fun us => and_congr_left fun _ => ?_
      constructor
      · intro hus
        refine ⟨?_, hus.size_lt, hus.headers, hdata ▸ hus.data, hus.fill⟩
        simp only [sectionSize, declaredWidth, List.length_cons, List.length_take] at hlong ⊢
        omega
      · intro hus
        exact ⟨hus.size_lt, hus.headers, hdata ▸ hus.data, hus.fill⟩

/-! ### Payloads of units -/

/-- The payload of units, with more bytes behind them: the width of the headers, the headers in
whole bytes, and the units in the same order. -/
def payload (layout : AacLayout) (us : List AccessUnit) (trailing : Bytes) : Bytes :=
  be16 (UInt16.ofNat (headers layout us).length)
    ++ (pack (headers layout us) ++ (us.flatMap (·.data) ++ trailing))

theorem declaredWidth_payload {us : List AccessUnit} (h : (headers layout us).length ≤ 65535)
    (trailing : Bytes) :
    declaredWidth (payload layout us trailing) = (headers layout us).length :=
  toNat_ofBe16_be16 h

theorem holds_payload (hs : 0 < layout.size) {us : List AccessUnit}
    (hsize : ∀ u ∈ us, u.data.length < 2 ^ layout.size)
    (hwidth : (headers layout us).length ≤ 65535) (trailing : Bytes) :
    Holds layout (payload layout us trailing) us := by
  have hdeclared := declaredWidth_payload hwidth trailing
  have hsection : sectionSize (payload layout us trailing) = (pack (headers layout us)).length := by
    rw [sectionSize, hdeclared, length_pack]
  have hrest : (payload layout us trailing).drop 2
      = pack (headers layout us) ++ (us.flatMap (·.data) ++ trailing) := rfl
  have hdata : unitData (payload layout us trailing) = us.flatMap (·.data) ++ trailing := by
    rw [unitData, hsection, ← List.drop_drop, hrest, List.drop_left]
  exact {
    length_ge := by
      rw [hsection, payload, List.length_append, List.length_append]
      exact Nat.add_le_add_left (Nat.le_add_right _ _) 2
    size_lt := hsize
    headers := by
      rw [hrest, hsection, List.take_left, bits_pack]
      exact List.prefix_append _ _
    data := by
      rw [hdata]
      exact List.prefix_append _ _
    fill := by
      intro k
      rw [hdeclared, headers, length_headersFrom]
      exact (widthFrom_lt_iff hs layout.index).symm }

/-- Units come out of their payload as they went in, whatever their indices are and whatever stands
behind them. -/
theorem process_payload (a : Aac) {us : List AccessUnit} {packet : RtpPacket} {trailing : Bytes}
    (hs : 0 < a.layout.size) (hne : us ≠ []) (hsize : ∀ u ∈ us, u.data.length < 2 ^ a.layout.size)
    (hwidth : (headers a.layout us).length ≤ 65535)
    (hpayload : packet.payload = payload a.layout us trailing) :
    a.process packet
      = ({ a with tally := a.tally.count .frame },
        some ⟨packet.timestamp, us.map (·.data)⟩) := by
  have hsplit : split? a.layout packet.payload = some (us.map (·.data)) :=
    (split?_eq_some_iff hs).2 ⟨us, hpayload ▸ holds_payload hs hsize hwidth trailing, rfl⟩
  obtain ⟨u, us, rfl⟩ := List.exists_cons_of_ne_nil hne
  rw [process, hsplit]
  rfl

/-- Fields of five, three and two bits: two headers and a bit that fills up their last byte. -/
theorem process_payload_two_units :
    let a : Aac := { layout := ⟨5, 3, 2⟩ }
    let packet : RtpPacket :=
      { marker := true, payloadType := 97, sequence := 3, timestamp := 90, ssrc := 1,
        payload := [0, 15, 0x09, 0x14, 9, 7, 8, 0xEE] }
    packet.payload = payload a.layout [⟨1, [9]⟩, ⟨2, [7, 8]⟩] [0xEE]
      ∧ a.process packet
        = (⟨⟨5, 3, 2⟩, { frames := 1 }⟩, some ⟨90, [[9], [7, 8]]⟩) := by
  intro a packet
  have hpayload : packet.payload = payload a.layout [⟨1, [9]⟩, ⟨2, [7, 8]⟩] [0xEE] := by
    have hheaders : headers a.layout [⟨1, [9]⟩, ⟨2, [7, 8]⟩]
        = [false, false, false, false, true, false, false, true]
          ++ [false, false, false, true, false, true, false] := by decide
    simp [packet, payload, hheaders, pack, ofBits, be16]
  exact ⟨hpayload,
    process_payload a (by decide) (by decide) (by decide) (by decide) hpayload⟩

/-! ### The last header -/

theorem Holds.declaredWidth_le {us : List AccessUnit} {payload : Bytes}
    (h : Holds layout payload us) : declaredWidth payload ≤ headersWidth layout us.length :=
  Nat.not_lt.1 fun hlt => Nat.lt_irrefl _ ((h.fill _).2 hlt)

/-- All headers are read from the header section. -/
theorem Holds.headersWidth_le {us : List AccessUnit} {payload : Bytes}
    (h : Holds layout payload us) : headersWidth layout us.length ≤ 8 * sectionSize payload := by
  have hlength := h.headers.length_le
  rw [Aac.headers, length_headersFrom, length_bits, List.length_take] at hlength
  exact hlength.trans (Nat.mul_le_mul_left 8 (Nat.min_le_left _ _))

/-- A payload is taken apart exactly if it holds units, and else counted as truncated. The declared
width is then that of the headers, unless the last header ends in the bits that fill up the last
byte of the header section. -/
theorem process_split (a : Aac) (hs : 0 < a.layout.size) (packet : RtpPacket) :
    (∀ units, split? a.layout packet.payload = some units
        ↔ ∃ us, Holds a.layout packet.payload us ∧ us.map (·.data) = units)
      ∧ (∀ us, Holds a.layout packet.payload us →
        declaredWidth packet.payload = headersWidth a.layout us.length
          ∨ declaredWidth packet.payload < headersWidth a.layout us.length
            ∧ headersWidth a.layout us.length ≤ 8 * sectionSize packet.payload)
      ∧ ((¬∃ us, Holds a.layout packet.payload us) → split? a.layout packet.payload = none
        ∧ a.process packet = ({ a with tally := a.tally.count .truncated }, none)) := by
  refine ⟨fun units => split?_eq_some_iff hs, ?_, ?_⟩
  · intro us hus
    exact (Nat.eq_or_lt_of_le hus.declaredWidth_le).imp_right fun hlt => ⟨hlt, hus.headersWidth_le⟩
  · intro hnone
    have hsplit : split? a.layout packet.payload = none := by
      refine Option.eq_none_iff_forall_ne_some.2 fun units hunits => ?_
      obtain ⟨us, hus, -⟩ := (split?_eq_some_iff hs).1 hunits
      exact hnone ⟨us, hus⟩
    refine ⟨hsplit, ?_⟩
    rw [process, hsplit]

/-- Two headers that fill their section, and a section that is longer than the payload. -/
theorem process_split_whole_and_short :
    let packet (payload : Bytes) : RtpPacket :=
      { marker := true, payloadType := 97, sequence := 3, timestamp := 90, ssrc := 1, payload }
    let whole := packet [0, 32, 0, 16, 0, 24, 0xA, 0xA, 0xB, 0xB, 0xB]
    let short := packet [0, 64, 0]
    split? .highRate whole.payload = some [[0xA, 0xA], [0xB, 0xB, 0xB]]
      ∧ declaredWidth whole.payload = headersWidth .highRate 2
      ∧ process {} short = ({ tally := { truncated := 1 } }, none) := by
  intro packet whole short
  have hwhole : Holds .highRate whole.payload [⟨0, [0xA, 0xA]⟩, ⟨0, [0xB, 0xB, 0xB]⟩] := {
    length_ge := by decide
    size_lt := by decide
    headers := by decide
    data := by decide
    fill := fun k => (widthFrom_lt_iff (by decide) 3).symm }
  have hshort : ¬∃ us, Holds .highRate short.payload us := by
    rintro ⟨us, hus⟩
    exact absurd hus.length_ge (by decide)
  exact ⟨((process_split {} (by decide) whole).1 _).2 ⟨_, hwhole, rfl⟩, by decide,
    ((process_split {} (by decide) short).2.2 hshort).2⟩

/-- Nine bits are declared, and a header of sixteen is read. -/
theorem split_header_in_padding :
    split? .highRate [0, 9, 0, 8, 0x41] = some [[0x41]]
      ∧ declaredWidth [0, 9, 0, 8, 0x41] = 9 ∧ headersWidth .highRate 1 = 16 := by
  refine ⟨(split?_eq_some_iff (by decide)).2 ⟨[⟨0, [0x41]⟩], ?_, rfl⟩, by decide, by decide⟩
  exact {
    length_ge := by decide
    size_lt := by decide
    headers := by decide
    data := by decide
    fill := by
      intro k
      match k with
      | 0 => decide
      | k + 1 =>
        simp only [headersWidth, widthFrom, AacLayout.highRate, declaredWidth, List.length_cons,
          List.length_nil]
        have hdeclared : (ofBe16 0 9).toNat = 9 := by decide
        omega }

end Rtsp.Aac
