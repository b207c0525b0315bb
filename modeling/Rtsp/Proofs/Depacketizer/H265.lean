-- SUMMARY: H.265 access units come out of their packets as they went in.
import Rtsp.Proofs.Depacketizer.NalPayload

/-!
# H.265 round trip

As for H.264, the NAL units of an access unit may be sent one by one, in aggregates, or in
fragments, in any mixture (`H265.Packetized`). The header of a unit has two bytes. A fragment takes
the second one over as it is; the type stands in the middle of the first one, between two bits that
the fragment takes over too (`H265.fragment_headers`).
-/

namespace Rtsp.H265

/-! ## Payloads -/

/-- The payload of an aggregate. -/
def aggregate (first second : UInt8) (nals : List Bytes) : Bytes :=
  first :: second :: NalAssembly.entries nals

/-- The first byte of the payload of a fragment: that of the unit, but for the type. -/
def outerHeader (first : UInt8) : UInt8 :=
  first &&& 0x81 ||| 0x62

/-- The fragment header: whether the piece starts and stops the unit, and the type of the unit. -/
def innerHeader (first : UInt8) (start stop : Bool) : UInt8 :=
  (if start then 0x80 else 0) ||| (if stop then 0x40 else 0) ||| (first / 2 &&& 0x3F)

/-- The payload of a fragment. -/
def fragment (first second : UInt8) (start stop : Bool) (piece : Bytes) : Bytes :=
  outerHeader first :: second :: innerHeader first start stop :: piece

/-- The ways to spread NAL units over payloads. -/
inductive Packetized : List Bytes → List Bytes → Prop where
  | nil : Packetized [] []
  /-- The unit itself is the payload, which its type must allow. -/
  | single {first second : UInt8} {body : Bytes} {nals payloads : List Bytes}
    (type : first.toNat / 2 % 64 ≤ 47) (rest : Packetized nals payloads) :
    Packetized ((first :: second :: body) :: nals) ((first :: second :: body) :: payloads)
  /-- Some units share a payload. -/
  | aggregate {first second : UInt8} {group nals payloads : List Bytes}
    (type : first.toNat / 2 % 64 = 48) (ne_nil : ∀ nal ∈ group, nal ≠ [])
    (length_le : ∀ nal ∈ group, nal.length ≤ 65535) (rest : Packetized nals payloads) :
    Packetized (group ++ nals) (aggregate first second group :: payloads)
  /-- The bytes behind the header are cut into pieces, each of which gets a payload. -/
  | fragments {first second : UInt8} {pieces nals payloads : List Bytes} (ne_nil : pieces ≠ [])
    (rest : Packetized nals payloads) :
    Packetized ((first :: second :: pieces.flatten) :: nals)
      (NalAssembly.fragments (fragment first second) true pieces ++ payloads)

/-! ## What each payload adds -/

section

variable {first second : UInt8} (a : NalAssembly)

theorem pushPayload_single (body : Bytes) (h : first.toNat / 2 % 64 ≤ 47) :
    pushPayload a false (first :: second :: body)
      = { a with nals := a.nals ++ [first :: second :: body] } := by
  simp only [pushPayload, Bool.false_eq_true, if_false, if_pos h]
  rfl

theorem pushPayload_aggregate {nals : List Bytes} (htype : first.toNat / 2 % 64 = 48)
    (hne : ∀ nal ∈ nals, nal ≠ []) (hle : ∀ nal ∈ nals, nal.length ≤ 65535) :
    pushPayload a false (aggregate first second nals) = { a with nals := a.nals ++ nals } := by
  simp only [pushPayload, aggregate, htype]
  exact NalAssembly.pushAggregate_entries hne hle a

end

/-! ### Fragments -/

/-- What the headers of a piece say, whatever the header of the unit is. -/
theorem fragment_headers (first : UInt8) (start stop : Bool) :
    (outerHeader first).toNat / 2 % 64 = 49
      ∧ RtpPacket.bit (innerHeader first start stop) 7 = start
      ∧ RtpPacket.bit (innerHeader first start stop) 6 = stop
      ∧ fragmentHeader (outerHeader first) (innerHeader first start stop) = first := by
  have hall : ∀ n : Fin 256, ∀ start stop : Bool,
      (outerHeader (.ofNat n)).toNat / 2 % 64 = 49
        ∧ RtpPacket.bit (innerHeader (.ofNat n) start stop) 7 = start
        ∧ RtpPacket.bit (innerHeader (.ofNat n) start stop) 6 = stop
        ∧ fragmentHeader (outerHeader (.ofNat n)) (innerHeader (.ofNat n) start stop) = .ofNat n := by
    decide +kernel
  have hfirst := hall ⟨first.toNat, first.toNat_lt⟩ start stop
  rwa [UInt8.ofNat_toNat] at hfirst

theorem pushPayload_fragment (first second : UInt8) (a : NalAssembly) (start stop : Bool)
    (piece : Bytes) :
    pushPayload a false (fragment first second start stop piece)
      = a.pushFragment start stop [first, second] piece := by
  obtain ⟨htype, hstart, hstop, hfirst⟩ := fragment_headers first start stop
  simp only [pushPayload, fragment, htype, hstart, hstop, hfirst]
  rfl

/-! ## Access units -/

/-- What payloads add is what they were made from. -/
theorem adds {nals payloads : List Bytes} (h : Packetized nals payloads) :
    NalAssembly.Adds (pushPayload · false) nals payloads := by
  induction h with
  | nil => exact .nil
  | single type rest ih => exact .append (.of_push fun a => pushPayload_single a _ type) ih
  | aggregate type ne_nil length_le rest ih =>
    exact .append (.of_push fun a => pushPayload_aggregate a type ne_nil length_le) ih
  | fragments ne_nil rest ih => exact .append (.fragments (pushPayload_fragment _ _) ne_nil) ih

theorem inverts : NalAssembly.Inverts (pushPayload · false) Packetized where
  timestamp := (reads false).timestamp
  nals := fun h _ ha => adds h _ ha

/-! ## Packets -/

/-- Whether order numbers are sent stands beside the assembly and never changes. -/
theorem feed_process_eq (orderNumbers : Bool) (a : NalAssembly) (packets : List RtpPacket) :
    feed process ⟨a, orderNumbers⟩ packets
      = (⟨(feed (NalAssembly.step (pushPayload · orderNumbers)) a packets).1, orderNumbers⟩,
        (feed (NalAssembly.step (pushPayload · orderNumbers)) a packets).2) :=
  feed_map (H265.mk · orderNumbers) (fun _ _ => rfl) a packets

/-- Access units that are sent one after the other, without order numbers, come out again, each with
its last packet, and nothing else comes out or is counted. -/
theorem feed_accessUnits (ts : List Transmission) (hts : ∀ t ∈ ts, t.Carries Packetized) :
    feed process {} (ts.flatMap (·.packets))
      = ({ assembly := { tally := { frames := ts.length } } }, ts.flatMap (·.outputs)) := by
  have hfeed := NalAssembly.feed_transmissions inverts ts hts {}
  rw [Nat.zero_add] at hfeed
  rw [feed_process_eq, hfeed]

/-- Two units in an aggregate and one in two fragments, and then a unit by itself. The bits around
the type of the fragmented unit are set. -/
theorem feed_accessUnits_mixed :
    let packet (timestamp : UInt32) (marker : Bool) (payload : Bytes) : RtpPacket :=
      { marker, payloadType := 96, sequence := 7, timestamp, ssrc := 1, payload }
    let first : Transmission :=
      { frame := ⟨90, [[0x40, 1, 5], [0x42, 1], [0xA7, 0x0B, 2, 3]]⟩
        before := [packet 90 false [0x60, 1, 0, 3, 0x40, 1, 5, 0, 2, 0x42, 1],
          packet 90 false [0xE3, 0x0B, 0x93, 2]]
        last := packet 90 true [0xE3, 0x0B, 0x53, 3] }
    let second : Transmission :=
      { frame := ⟨3090, [[0x02, 1, 4]]⟩, before := [], last := packet 3090 true [0x02, 1, 4] }
    (∀ t ∈ [first, second], t.Carries Packetized)
      ∧ feed process {} (first.packets ++ second.packets)
        = ({ assembly := { tally := { frames := 2 } } },
          [none, none, some first.frame, some second.frame]) := by
  intro packet first second
  have hmixed : Packetized ([[0x40, 1, 5], [0x42, 1]] ++ [0xA7 :: 0x0B :: [[2], [3]].flatten])
      (aggregate 0x60 1 [[0x40, 1, 5], [0x42, 1]]
        :: (NalAssembly.fragments (fragment 0xA7 0x0B) true [[2], [3]] ++ [])) :=
    .aggregate (by decide) (by decide) (by decide) (.fragments (by decide) .nil)
  have hsingle : Packetized [[0x02, 1, 4]] [[0x02, 1, 4]] := .single (by decide) .nil
  have hcarries : ∀ t ∈ [first, second], t.Carries Packetized := by
    simp only [List.forall_mem_cons, List.not_mem_nil, false_implies, implies_true, and_true]
    exact ⟨⟨by decide, by decide, by decide, rfl, hmixed⟩,
      ⟨by decide, by decide, by decide, rfl, hsingle⟩⟩
  exact ⟨hcarries, feed_accessUnits [first, second] hcarries⟩

end Rtsp.H265
