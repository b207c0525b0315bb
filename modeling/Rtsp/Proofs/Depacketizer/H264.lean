-- SUMMARY: H.264 access units come out of their packets as they went in.
import Rtsp.Proofs.Depacketizer.NalPayload

/-!
# H.264 round trip

The NAL units of an access unit may be sent one by one, in aggregates, or in fragments, in any
mixture (`H264.Packetized`). Each of these structures adds exactly the units that it was made from
(`H264.inverts`), so every access unit comes out again.
-/

namespace Rtsp.H264

/-! ## Payloads -/

/-- The payload of an aggregate. -/
def aggregate (indicator : UInt8) (nals : List Bytes) : Bytes :=
  indicator :: NalAssembly.entries nals

/-- The payload of a fragment. The indicator keeps the upper three bits of the header, and the
fragment header keeps its type. -/
def fragment (header : UInt8) (start stop : Bool) (piece : Bytes) : Bytes :=
  (header &&& 0xE0 ||| 28)
    :: ((if start then 0x80 else 0) ||| (if stop then 0x40 else 0) ||| (header &&& 0x1F)) :: piece

/-- The ways to spread NAL units over payloads. -/
inductive Packetized : List Bytes → List Bytes → Prop where
  | nil : Packetized [] []
  /-- The unit itself is the payload, which its type must allow. -/
  | single {header : UInt8} {body : Bytes} {nals payloads : List Bytes}
    (type : 1 ≤ header.toNat % 32 ∧ header.toNat % 32 ≤ 23) (rest : Packetized nals payloads) :
    Packetized ((header :: body) :: nals) ((header :: body) :: payloads)
  /-- Some units share a payload. -/
  | aggregate {indicator : UInt8} {group nals payloads : List Bytes}
    (type : indicator.toNat % 32 = 24) (ne_nil : ∀ nal ∈ group, nal ≠ [])
    (length_le : ∀ nal ∈ group, nal.length ≤ 65535) (rest : Packetized nals payloads) :
    Packetized (group ++ nals) (aggregate indicator group :: payloads)
  /-- The bytes behind the header are cut into pieces, each of which gets a payload. -/
  | fragments {header : UInt8} {pieces nals payloads : List Bytes} (ne_nil : pieces ≠ [])
    (rest : Packetized nals payloads) :
    Packetized ((header :: pieces.flatten) :: nals)
      (NalAssembly.fragments (fragment header) true pieces ++ payloads)

/-! ## What each payload adds -/

theorem pushPayload_single {header : UInt8} (body : Bytes)
    (h : 1 ≤ header.toNat % 32 ∧ header.toNat % 32 ≤ 23) (a : NalAssembly) :
    pushPayload a (header :: body) = { a with nals := a.nals ++ [header :: body] } := by
  simp only [pushPayload, if_pos h]
  rfl

theorem pushPayload_aggregate {indicator : UInt8} {nals : List Bytes}
    (htype : indicator.toNat % 32 = 24) (hne : ∀ nal ∈ nals, nal ≠ [])
    (hle : ∀ nal ∈ nals, nal.length ≤ 65535) (a : NalAssembly) :
    pushPayload a (aggregate indicator nals) = { a with nals := a.nals ++ nals } := by
  simp only [pushPayload, aggregate, htype]
  exact NalAssembly.pushAggregate_entries hne hle a

/-! ### Fragments -/

/-- What the two bytes in front of a piece say. -/
theorem fragment_bytes (header : UInt8) (start stop : Bool) :
    let indicator := header &&& 0xE0 ||| 28
    let second := (if start then 0x80 else 0) ||| (if stop then 0x40 else 0) ||| (header &&& 0x1F)
    indicator.toNat % 32 = 28 ∧ RtpPacket.bit second 7 = start ∧ RtpPacket.bit second 6 = stop
      ∧ fragmentHeader indicator second = header := by
  have hall : ∀ n : Fin 256, ∀ start stop : Bool,
      let header := UInt8.ofNat n
      let indicator := header &&& 0xE0 ||| 28
      let second := (if start then 0x80 else 0) ||| (if stop then 0x40 else 0) ||| (header &&& 0x1F)
      indicator.toNat % 32 = 28 ∧ RtpPacket.bit second 7 = start ∧ RtpPacket.bit second 6 = stop
        ∧ fragmentHeader indicator second = header := by decide +kernel
  have hheader := hall ⟨header.toNat, header.toNat_lt⟩ start stop
  rwa [UInt8.ofNat_toNat] at hheader

theorem pushPayload_fragment (header : UInt8) (a : NalAssembly) (start stop : Bool)
    (piece : Bytes) :
    pushPayload a (fragment header start stop piece) = a.pushFragment start stop [header] piece := by
  obtain ⟨htype, hstart, hstop, hheader⟩ := fragment_bytes header start stop
  simp only [pushPayload, fragment, htype, hstart, hstop, hheader]
  rfl

/-! ## Access units -/

/-- What payloads add is what they were made from. -/
theorem adds {nals payloads : List Bytes} (h : Packetized nals payloads) :
    NalAssembly.Adds pushPayload nals payloads := by
  induction h with
  | nil => exact .nil
  | single type rest ih => exact .append (.of_push (pushPayload_single _ type)) ih
  | aggregate type ne_nil length_le rest ih =>
    exact .append (.of_push (pushPayload_aggregate type ne_nil length_le)) ih
  | fragments ne_nil rest ih => exact .append (.fragments (pushPayload_fragment _) ne_nil) ih

theorem inverts : NalAssembly.Inverts pushPayload Packetized where
  timestamp := reads.timestamp
  nals := fun h _ ha => adds h _ ha

/-- Access units that are sent one after the other come out again, each with its last packet, and
nothing else comes out or is counted. -/
theorem feed_process (ts : List Transmission) (hts : ∀ t ∈ ts, t.Carries Packetized) :
    feed process {} (ts.flatMap (·.packets))
      = ({ tally := { frames := ts.length } }, ts.flatMap (·.outputs)) := by
  have hfeed := NalAssembly.feed_transmissions inverts ts hts {}
  rw [Nat.zero_add] at hfeed
  exact hfeed

/-- Two units in an aggregate and one in two fragments, and then a unit by itself. -/
theorem feed_process_mixed :
    let packet (timestamp : UInt32) (marker : Bool) (payload : Bytes) : RtpPacket :=
      { marker, payloadType := 96, sequence := 7, timestamp, ssrc := 1, payload }
    let first : Transmission :=
      { frame := ⟨90, [[0x67, 1], [0x68], [0x65, 2, 3]]⟩
        before := [packet 90 false [0x78, 0, 2, 0x67, 1, 0, 1, 0x68],
          packet 90 false [0x7C, 0x85, 2]]
        last := packet 90 true [0x7C, 0x45, 3] }
    let second : Transmission :=
      { frame := ⟨3090, [[0x41, 4]]⟩, before := [], last := packet 3090 true [0x41, 4] }
    (∀ t ∈ [first, second], t.Carries Packetized)
      ∧ feed process {} (first.packets ++ second.packets)
        = ({ tally := { frames := 2 } }, [none, none, some first.frame, some second.frame]) := by
  intro packet first second
  have hmixed : Packetized ([[0x67, 1], [0x68]] ++ [0x65 :: [[2], [3]].flatten])
      (aggregate 0x78 [[0x67, 1], [0x68]]
        :: (NalAssembly.fragments (fragment 0x65) true [[2], [3]] ++ [])) :=
    .aggregate (by decide) (by decide) (by decide) (.fragments (by decide) .nil)
  have hsingle : Packetized [[0x41, 4]] [[0x41, 4]] := .single (by decide) .nil
  have hcarries : ∀ t ∈ [first, second], t.Carries Packetized := by
    simp only [List.forall_mem_cons, List.not_mem_nil, false_implies, implies_true, and_true]
    exact ⟨⟨by decide, by decide, by decide, rfl, hmixed⟩,
      ⟨by decide, by decide, by decide, rfl, hsingle⟩⟩
  exact ⟨hcarries, feed_process [first, second] hcarries⟩

end Rtsp.H264
