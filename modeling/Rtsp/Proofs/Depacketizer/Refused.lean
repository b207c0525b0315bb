-- SUMMARY: A packet that is refused leaves nothing behind but its count.
import Rtsp.Depacketizer
import Rtsp.Proofs.Depacketizer.Aggregate
import Rtsp.Proofs.Depacketizer.JpegCache
import Rtsp.Proofs.Depacketizer.NalPayload

/-!
# Refused packets

What has been counted changes nothing that a depacketizer does (`Depacketizer.process_count`). A
payload that is refused is counted before anything is touched, so that all that is left of its packet
is the timestamp, which the next packet brings anyway (`Depacketizer.process_begin`).
-/

namespace Rtsp

/-! ## Counts -/

theorem Tally.count_comm (t : Tally) (first second : Incident) :
    (t.count first).count second = (t.count second).count first := by
  cases first <;> cases second <;> rfl

theorem Tally.foldl_count_count (t : Tally) (incident : Incident) (incidents : List Incident) :
    incidents.foldl count (t.count incident) = (incidents.foldl count t).count incident := by
  induction incidents generalizing t with
  | nil => rfl
  | cons other incidents ih => rw [List.foldl_cons, t.count_comm, ih, List.foldl_cons]

namespace NalAssembly

variable (a : NalAssembly) (incident : Incident)

theorem count_comm (other : Incident) :
    (a.count incident).count other = (a.count other).count incident := by
  unfold count
  rw [Tally.count_comm]

theorem begin_count (timestamp : UInt32) :
    (a.count incident).begin timestamp = (a.begin timestamp).count incident := by
  rw [begin_eq, begin_eq, apply_ite (count · incident)]
  refine if_congr Iff.rfl ?_ rfl
  rw [count_comm]
  rfl

theorem push_count (p : NalPayload) :
    (a.count incident).push p = (a.push p).count incident := by
  obtain ⟨nals, timestamp, begun, tally⟩ := a
  cases p with
  | unit nal =>
    simp only [push, pushUnit, count]
    split <;> rfl
  | aggregate data =>
    simp only [push, pushAggregate, count]
    split
    · rfl
    · rw [Tally.count_comm]
  | fragment start stop header data =>
    simp only [push, pushFragment, count]
    cases start <;> cases stop <;> cases begun <;> simp [Tally.count_comm _ incident]
  | refused other => exact count_comm _ incident other

theorem finishIf_count (marker : Bool) :
    (a.count incident).finishIf marker
      = ((a.finishIf marker).1.count incident, (a.finishIf marker).2) := by
  obtain ⟨nals, timestamp, fragment, tally⟩ := a
  cases marker with
  | false => rfl
  | true =>
    simp only [finishIf, finish, count]
    cases fragment <;> cases nals <;> simp [Tally.count_comm _ incident]

section

variable {push : NalAssembly → Bytes → NalAssembly} {read : Bytes → NalPayload}

theorem Reads.step_count (h : Reads push read) (packet : RtpPacket) :
    step push (a.count incident) packet
      = ((step push a packet).1.count incident, (step push a packet).2) := by
  unfold step
  rw [h.push_eq, h.push_eq, begin_count, push_count, finishIf_count]

/-- Of an unmarked packet with a payload that is only counted, the timestamp is noted. -/
theorem Reads.step_refused (h : Reads push read) {packet : RtpPacket} {incident : Incident}
    (hmarker : packet.marker = false)
    (hrefused : ∀ a : NalAssembly, a.push (read packet.payload) = a.count incident) :
    step push a packet = ((a.count incident).begin packet.timestamp, none) := by
  rw [step, h.push_eq, hrefused, hmarker, begin_count]
  rfl

end

end NalAssembly

namespace Jpeg

variable (j : Jpeg) (incident : Incident)

theorem count_comm (other : Incident) :
    (j.count incident).count other = (j.count other).count incident := by
  unfold count
  rw [Tally.count_comm]

theorem append_count (offset : Nat) (data : Bytes) :
    (j.count incident).append offset data = (j.append offset data).count incident := by
  unfold append
  have himage : (j.count incident).image = j.image := rfl
  rw [himage]
  cases j.image with
  | none => exact j.count_comm incident .orphan
  | some image =>
    dsimp only
    split
    · rfl
    · rw [count_comm]
      rfl

theorem openImage_count (p : Params) :
    (j.count incident).openImage p = (j.openImage p).count incident := by
  obtain ⟨image, timestamp, sent, cache, built, tally⟩ := j
  cases image with
  | none => rfl
  | some image =>
    simp only [openImage, count, Tally.count_comm _ incident, Option.isSome_some, if_true, isCached,
      cachedHeader]

theorem keepTable_count (q : Quantization) :
    (j.count incident).keepTable q = (j.keepTable q).count incident := by
  unfold keepTable
  rw [apply_ite (count · incident)]
  rfl

theorem pushFirst_count (packet : RtpPacket) (piece : Piece) (data : Bytes) :
    (j.count incident).pushFirst packet piece data
      = (j.pushFirst packet piece data).count incident := by
  unfold pushFirst
  obtain ⟨width, height⟩ := dimensions packet piece
  dsimp only
  rw [openImage_count, append_count]

theorem pushPacket_count (packet : RtpPacket) :
    (j.count incident).pushPacket packet = (j.pushPacket packet).count incident := by
  unfold pushPacket
  split
  · exact j.count_comm incident .malformed
  next piece _ =>
    unfold pushPiece
    split
    · exact j.append_count incident _ _
    split
    · exact j.pushFirst_count incident packet piece _
    split
    · exact j.count_comm incident .malformed
    · rw [count_comm j incident .truncated, count_comm (j.count .truncated) incident .malformed]
    next q rest _ =>
      rw [keepTable_count]
      dsimp only
      have hsent : ((j.keepTable q).count incident).sent = (j.keepTable q).sent := rfl
      rw [hsent]
      split
      · exact count_comm _ incident .malformed
      · exact pushFirst_count _ incident packet piece rest

theorem begin_count (timestamp : UInt32) :
    (j.count incident).begin timestamp = (j.begin timestamp).count incident := by
  rw [begin_eq, begin_eq, apply_ite (count · incident)]
  refine if_congr Iff.rfl ?_ rfl
  rw [count_comm]
  rfl

theorem finish_count (timestamp : UInt32) :
    (j.count incident).finish timestamp
      = ((j.finish timestamp).1.count incident, (j.finish timestamp).2) := by
  obtain ⟨image, current, sent, cache, built, tally⟩ := j
  cases image with
  | none => rfl
  | some image =>
    simp only [finish, count]
    rw [Tally.count_comm]

theorem process_count (packet : RtpPacket) :
    (j.count incident).process packet
      = ((j.process packet).1.count incident, (j.process packet).2) := by
  unfold process
  dsimp only
  rw [begin_count, pushPacket_count]
  split
  · exact finish_count _ incident packet.timestamp
  · rfl

end Jpeg

namespace Depacketizer

def count (d : Depacketizer) (incident : Incident) : Depacketizer :=
  match d with
  | h264 a => h264 (a.count incident)
  | h265 h => h265 { h with assembly := h.assembly.count incident }
  | jpeg j => jpeg (j.count incident)
  | aac a => aac { a with tally := a.tally.count incident }
  | perPacket p => perPacket { p with tally := p.tally.count incident }

theorem tally_count (d : Depacketizer) (incident : Incident) :
    (d.count incident).tally = d.tally.count incident := by
  cases d <;> rfl

theorem tally_foldl_count (d : Depacketizer) (incidents : List Incident) :
    (incidents.foldl count d).tally = incidents.foldl Tally.count d.tally := by
  induction incidents generalizing d with
  | nil => rfl
  | cons incident incidents ih => rw [List.foldl_cons, ih, tally_count, List.foldl_cons]

/-- What has been counted does not matter for what a packet leads to. -/
theorem process_count (d : Depacketizer) (incident : Incident) (packet : RtpPacket) :
    (d.count incident).process packet
      = ((d.process packet).1.count incident, (d.process packet).2) := by
  cases d with
  | h264 a =>
    have hstep := H264.reads.step_count a incident packet
    exact congrArg (fun next => (h264 next.1, next.2)) hstep
  | h265 h =>
    have hstep := (H265.reads h.orderNumbers).step_count h.assembly incident packet
    exact congrArg (fun next => (h265 ⟨next.1, h.orderNumbers⟩, next.2)) hstep
  | jpeg j => exact congrArg (fun next => (jpeg next.1, next.2)) (j.process_count incident packet)
  | aac a =>
    obtain ⟨layout, tally⟩ := a
    unfold count process Aac.process
    dsimp only
    split
    · rw [Tally.count_comm]
    · rfl
    · rw [Tally.count_comm]
  | perPacket p =>
    unfold count process PerPacket.process PayloadUnits.emit
    dsimp only
    rw [Tally.foldl_count_count]
    split
    · rfl
    · rw [Tally.count_comm]

theorem process_foldl_count (d : Depacketizer) (incidents : List Incident) (packet : RtpPacket) :
    (incidents.foldl count d).process packet
      = (incidents.foldl count (d.process packet).1, (d.process packet).2) := by
  induction incidents generalizing d with
  | nil => rfl
  | cons incident incidents ih => rw [List.foldl_cons, ih, process_count, List.foldl_cons]

theorem feed_foldl_count (d : Depacketizer) (incidents : List Incident) (packets : List RtpPacket) :
    feed process (incidents.foldl count d) packets
      = (incidents.foldl count (feed process d packets).1, (feed process d packets).2) :=
  feed_map (incidents.foldl count ·)
    (fun d packet => d.process_foldl_count incidents packet) d packets

end Depacketizer

/-! ## Payloads that are refused -/

namespace NalAssembly

/-- The entries of an aggregate cannot be read exactly if, behind some of them, a size runs past the
end. -/
theorem readEntries?_eq_none_iff {data : Bytes} :
    readEntries? data = none
      ↔ ∃ (nals : List Bytes) (size : UInt16) (rest : Bytes), (∀ nal ∈ nals, nal.length ≤ 65535)
        ∧ rest.length < size.toNat ∧ data = entries nals ++ (be16 size ++ rest) := by
  constructor
  · intro hnone
    fun_induction readEntries? data with
    | case1 hi lo bs size hshort =>
      exact ⟨[], ofBe16 hi lo, bs, List.forall_mem_nil _, hshort, by rw [be16_ofBe16]; rfl⟩
    | case2 hi lo bs size hfits ih =>
      obtain ⟨nals, last, rest, hle, hshort, hdrop⟩ := ih (Option.map_eq_none_iff.1 hnone)
      obtain ⟨hall, hdata⟩ := eq_entries_append hi lo (Nat.not_lt.1 hfits) hle hdrop
      exact ⟨bs.take size :: nals, last, rest, hall, hshort, hdata⟩
    | case3 => cases hnone
  · rintro ⟨nals, size, rest, hle, hshort, rfl⟩
    rw [readEntries?_entries_append hle, be16, List.cons_append, List.cons_append, List.nil_append,
      readEntries?, ofBe16_be16, if_pos hshort, Option.map_none]

theorem pushAggregate_overrun (a : NalAssembly) {nals : List Bytes}
    (hle : ∀ nal ∈ nals, nal.length ≤ 65535) {size : UInt16} {rest : Bytes}
    (h : rest.length < size.toNat) :
    a.pushAggregate (entries nals ++ (be16 size ++ rest)) = a.count .truncated := by
  rw [pushAggregate, readEntries?_eq_none_iff.2 ⟨nals, size, rest, hle, h, rfl⟩]

end NalAssembly

/-- H.264 payloads that are refused, and why. -/
inductive H264.Refuses : Bytes → Incident → Prop where
  | empty : Refuses [] .malformed
  /-- A fragment without its header. -/
  | fragment {indicator : UInt8} (type : indicator.toNat % 32 = 28) : Refuses [indicator] .malformed
  | reserved {indicator : UInt8} {body : Bytes}
    (type : indicator.toNat % 32 = 0 ∨ 30 ≤ indicator.toNat % 32) :
    Refuses (indicator :: body) .malformed
  /-- A structure of the interleaved mode. -/
  | interleaved {indicator : UInt8} {body : Bytes}
    (type : indicator.toNat % 32 ∈ [25, 26, 27, 29]) :
    Refuses (indicator :: body) .unsupported
  /-- An aggregate in which a size runs past the end. -/
  | overrun {indicator : UInt8} {nals : List Bytes} {size : UInt16} {rest : Bytes}
    (type : indicator.toNat % 32 = 24) (length_le : ∀ nal ∈ nals, nal.length ≤ 65535)
    (size_gt : rest.length < size.toNat) :
    Refuses (indicator :: (NalAssembly.entries nals ++ (be16 size ++ rest))) .truncated

theorem H264.Refuses.push_read {payload : Bytes} {incident : Incident}
    (h : Refuses payload incident) (a : NalAssembly) :
    a.push (read payload) = a.count incident := by
  cases h with
  | empty => rfl
  | fragment type =>
    simp only [read, type]
    rfl
  | @reserved indicator body type =>
    have hunit : ¬(1 ≤ indicator.toNat % 32 ∧ indicator.toNat % 32 ≤ 23) := by omega
    have haggregate : indicator.toNat % 32 ≠ 24 := by omega
    have hfragment : indicator.toNat % 32 ≠ 28 := by omega
    simp only [read, if_neg hunit, if_neg haggregate, if_neg hfragment, if_pos type]
    rfl
  | @interleaved indicator body type =>
    simp only [List.mem_cons, List.not_mem_nil, or_false] at type
    rcases type with type | type | type | type <;> simp only [read, type] <;> rfl
  | overrun type length_le size_gt =>
    simp only [read, type]
    exact a.pushAggregate_overrun length_le size_gt

/-- H.265 payloads that are refused, and why. All payloads of a stream with order numbers are, but
only one without a header is malformed. -/
inductive H265.Refuses (orderNumbers : Bool) : Bytes → Incident → Prop where
  | short {payload : Bytes} (length_lt : payload.length < 2) :
    Refuses orderNumbers payload .malformed
  /-- A fragment without its header. -/
  | fragment {first second : UInt8} (type : first.toNat / 2 % 64 = 49) :
    Refuses orderNumbers [first, second] (if orderNumbers then .unsupported else .malformed)
  | information {first second : UInt8} {body : Bytes} (type : first.toNat / 2 % 64 = 50) :
    Refuses orderNumbers (first :: second :: body) .unsupported
  | reserved {first second : UInt8} {body : Bytes} (type : 51 ≤ first.toNat / 2 % 64) :
    Refuses orderNumbers (first :: second :: body)
      (if orderNumbers then .unsupported else .malformed)
  /-- An aggregate in which a size runs past the end. -/
  | overrun {first second : UInt8} {nals : List Bytes} {size : UInt16} {rest : Bytes}
    (type : first.toNat / 2 % 64 = 48) (length_le : ∀ nal ∈ nals, nal.length ≤ 65535)
    (size_gt : rest.length < size.toNat) :
    Refuses orderNumbers (first :: second :: (NalAssembly.entries nals ++ (be16 size ++ rest)))
      (if orderNumbers then .unsupported else .truncated)

theorem H265.Refuses.push_read {orderNumbers : Bool} {payload : Bytes} {incident : Incident}
    (h : Refuses orderNumbers payload incident) (a : NalAssembly) :
    a.push (read orderNumbers payload) = a.count incident := by
  cases h with
  | short length_lt =>
    match payload, length_lt with
    | [], _ | [_], _ => rfl
  | fragment type =>
    cases orderNumbers <;> simp only [read, type] <;> rfl
  | information type =>
    cases orderNumbers <;> simp only [read, type] <;> rfl
  | @reserved first second body type =>
    have hunit : ¬first.toNat / 2 % 64 ≤ 47 := by omega
    have haggregate : first.toNat / 2 % 64 ≠ 48 := by omega
    have hfragment : first.toNat / 2 % 64 ≠ 49 := by omega
    have hinformation : first.toNat / 2 % 64 ≠ 50 := by omega
    cases orderNumbers with
    | true => rfl
    | false =>
      simp only [read, if_neg hunit, if_neg haggregate, if_neg hfragment, if_neg hinformation]
      rfl
  | overrun type length_le size_gt =>
    cases orderNumbers with
    | true => rfl
    | false =>
      simp only [read, type]
      exact a.pushAggregate_overrun length_le size_gt

namespace Jpeg

/-- JPEG payloads that are refused, and why. -/
inductive Refuses : Bytes → List Incident → Prop where
  | short {payload : Bytes} (length_lt : payload.length < 8) : Refuses payload [.malformed]
  | restart {specific o2 o1 o0 type quality width8 height8 : UInt8} {data : Bytes}
    (restart : hasRestart type = true) (length_lt : data.length < 4) :
    Refuses (specific :: o2 :: o1 :: o0 :: type :: quality :: width8 :: height8 :: data)
      [.malformed]
  /-- A first piece without the table header that its quality asks for. -/
  | table {specific type quality width8 height8 : UInt8} {restart data : Bytes}
    (length_restart : restart.length = if hasRestart type then 4 else 0)
    (quality_ge : 128 ≤ quality.toNat) (length_lt : data.length < 4) :
    Refuses (specific :: 0 :: 0 :: 0 :: type :: quality :: width8 :: height8 :: (restart ++ data))
      [.malformed]
  /-- A first piece with a table that runs past the end. -/
  | overrun {specific type quality width8 height8 reserved precision : UInt8} {size : UInt16}
    {restart data : Bytes} (length_restart : restart.length = if hasRestart type then 4 else 0)
    (quality_ge : 128 ≤ quality.toNat) (size_gt : data.length < size.toNat) :
    Refuses (specific :: 0 :: 0 :: 0 :: type :: quality :: width8 :: height8
        :: (restart ++ reserved :: precision :: (be16 size ++ data)))
      [.truncated, .malformed]

theorem Piece.read?_short {payload : Bytes} (h : payload.length < 8) :
    Piece.read? payload = none := by
  unfold Piece.read?
  split
  · simp only [List.length_cons] at h
    omega
  · rfl

theorem Piece.read?_restart {type : UInt8} (h : hasRestart type = true) {data : Bytes}
    (hlength : data.length < 4) (specific o2 o1 o0 quality width8 height8 : UInt8) :
    Piece.read? (specific :: o2 :: o1 :: o0 :: type :: quality :: width8 :: height8 :: data)
      = none := by
  simp only [Piece.read?, h, if_true]
  split
  · simp only [List.length_cons] at hlength
    omega
  · rfl

/-- A piece is read behind its restart header. -/
theorem Piece.exists_read? {type : UInt8} {restart : Bytes}
    (h : restart.length = if hasRestart type then 4 else 0)
    (specific o2 o1 o0 quality width8 height8 : UInt8) (data : Bytes) :
    ∃ interval, Piece.read?
        (specific :: o2 :: o1 :: o0 :: type :: quality :: width8 :: height8 :: (restart ++ data))
      = some ⟨(ofBe32 0 o2 o1 o0).toNat, type, quality, width8, height8, interval, data⟩ := by
  cases hrestart : hasRestart type with
  | true =>
    rw [hrestart, if_pos rfl] at h
    match restart, h with
    | [i1, i0, _, _], _ => exact ⟨ofBe16 i1 i0, by simp [Piece.read?, hrestart]⟩
  | false =>
    rw [hrestart] at h
    obtain rfl : restart = [] := List.eq_nil_of_length_eq_zero h
    exact ⟨0, by simp [Piece.read?, hrestart]⟩

theorem TableHeader.read_short {data : Bytes} (h : data.length < 4) :
    TableHeader.read data = .missing := by
  unfold TableHeader.read
  split
  · simp only [List.length_cons] at h
    omega
  · rfl

theorem TableHeader.read_overrun {size : UInt16} {data : Bytes} (h : data.length < size.toNat)
    (reserved precision : UInt8) :
    TableHeader.read (reserved :: precision :: (be16 size ++ data)) = .overrun := by
  simp only [be16, List.cons_append, List.nil_append, TableHeader.read, ofBe16_be16]
  exact if_pos h

/-- A first piece that needs a table is handled by its table header. -/
theorem pushPiece_first {j : Jpeg} {packet : RtpPacket} {piece : Piece} (hoffset : piece.offset = 0)
    (hquality : 128 ≤ piece.quality.toNat) {incidents : List Incident}
    (htable : TableHeader.read piece.data = .missing ∧ incidents = [.malformed]
      ∨ TableHeader.read piece.data = .overrun ∧ incidents = [.truncated, .malformed]) :
    j.pushPiece packet piece = incidents.foldl count j := by
  unfold pushPiece
  rw [if_neg (not_not_intro hoffset), if_neg (Nat.not_lt.2 hquality)]
  rcases htable with ⟨hread, rfl⟩ | ⟨hread, rfl⟩ <;> rw [hread] <;> rfl

/-- A refused payload is counted, and touches neither the image nor the tables. -/
theorem Refuses.pushPacket {payload : Bytes} {incidents : List Incident}
    (h : Refuses payload incidents) (j : Jpeg) {packet : RtpPacket}
    (hpayload : packet.payload = payload) :
    j.pushPacket packet = incidents.foldl count j := by
  unfold Jpeg.pushPacket
  rw [hpayload]
  cases h with
  | short length_lt =>
    rw [Piece.read?_short length_lt]
    rfl
  | restart restart length_lt =>
    rw [Piece.read?_restart restart length_lt]
    rfl
  | @table specific type quality width8 height8 _ data length_restart quality_ge length_lt =>
    obtain ⟨interval, hread⟩ :=
      Piece.exists_read? length_restart specific 0 0 0 quality width8 height8 data
    rw [hread]
    exact pushPiece_first rfl quality_ge (.inl ⟨TableHeader.read_short length_lt, rfl⟩)
  | @overrun specific type quality width8 height8 reserved precision size _ data length_restart
      quality_ge size_gt =>
    obtain ⟨interval, hread⟩ :=
      Piece.exists_read? length_restart specific 0 0 0 quality width8 height8
        (reserved :: precision :: (be16 size ++ data))
    rw [hread]
    exact pushPiece_first rfl quality_ge
      (.inr ⟨TableHeader.read_overrun size_gt reserved precision, rfl⟩)

theorem begin_foldl_count (j : Jpeg) (incidents : List Incident) (timestamp : UInt32) :
    (incidents.foldl count j).begin timestamp = incidents.foldl count (j.begin timestamp) := by
  induction incidents generalizing j with
  | nil => rfl
  | cons incident incidents ih => rw [List.foldl_cons, ih, begin_count, List.foldl_cons]

/-- A packet is processed as if its timestamp had been noted before. -/
theorem process_begin (j : Jpeg) (packet : RtpPacket) :
    (j.begin packet.timestamp).process packet = j.process packet := by
  have hbegin : (j.begin packet.timestamp).begin packet.timestamp = j.begin packet.timestamp :=
    begin_of_timestamp rfl
  unfold process
  rw [hbegin]

/-- Of an unmarked packet whose payload is refused, the timestamp is noted. -/
theorem process_refused (j : Jpeg) {packet : RtpPacket} {payload : Bytes}
    {incidents : List Incident} (h : Refuses payload incidents) (hpayload : packet.payload = payload)
    (hmarker : packet.marker = false) :
    j.process packet = ((incidents.foldl count j).begin packet.timestamp, none) := by
  unfold process
  rw [h.pushPacket _ hpayload, hmarker, begin_foldl_count]
  rfl

end Jpeg

/-! ## Refused packets -/

namespace Depacketizer

/-- Note the timestamp of a packet, in the formats that keep it. -/
def begin (d : Depacketizer) (timestamp : UInt32) : Depacketizer :=
  match d with
  | h264 a => h264 (a.begin timestamp)
  | h265 h => h265 { h with assembly := h.assembly.begin timestamp }
  | jpeg j => jpeg (j.begin timestamp)
  | aac a => aac a
  | perPacket p => perPacket p

/-- A packet is processed as if its timestamp had been noted before. -/
theorem process_begin (d : Depacketizer) (packet : RtpPacket) :
    (d.begin packet.timestamp).process packet = d.process packet := by
  cases d with
  | h264 a =>
    have hstep := NalAssembly.step_begin H264.pushPayload a packet
    exact congrArg (fun s => (h264 s.1, s.2)) hstep
  | h265 h =>
    have hstep := NalAssembly.step_begin (H265.pushPayload · h.orderNumbers) h.assembly packet
    exact congrArg (fun s => (h265 ⟨s.1, h.orderNumbers⟩, s.2)) hstep
  | jpeg j => exact congrArg (fun s => (jpeg s.1, s.2)) (j.process_begin packet)
  | aac a => rfl
  | perPacket p => rfl

theorem foldl_count_jpeg (j : Jpeg) (incidents : List Incident) :
    incidents.foldl count (jpeg j) = jpeg (incidents.foldl Jpeg.count j) := by
  induction incidents generalizing j with
  | nil => rfl
  | cons incident incidents ih => exact ih (j.count incident)

/-- The payload is refused, and these incidents are counted. -/
inductive Refuses : Depacketizer → Bytes → List Incident → Prop where
  | h264 {a : NalAssembly} {payload : Bytes} {incident : Incident}
    (refuses : H264.Refuses payload incident) : Refuses (.h264 a) payload [incident]
  | h265 {h : H265} {payload : Bytes} {incident : Incident}
    (refuses : H265.Refuses h.orderNumbers payload incident) : Refuses (.h265 h) payload [incident]
  | jpeg {j : Jpeg} {payload : Bytes} {incidents : List Incident}
    (refuses : Jpeg.Refuses payload incidents) : Refuses (.jpeg j) payload incidents

variable {d : Depacketizer} {payload : Bytes} {incidents : List Incident}

/-- Packets do not change what is refused. -/
theorem Refuses.process (h : d.Refuses payload incidents) (packet : RtpPacket) :
    (d.process packet).1.Refuses payload incidents := by
  cases h with
  | h264 refuses => exact .h264 refuses
  | h265 refuses => exact .h265 refuses
  | jpeg refuses => exact .jpeg refuses

theorem Refuses.mem_incidents (h : d.Refuses payload incidents) :
    ∀ incident ∈ incidents, incident ∈ [Incident.malformed, .unsupported, .truncated] := by
  rcases h with ⟨refuses⟩ | @⟨h, _, _, refuses⟩ | ⟨refuses⟩
  · cases refuses <;> decide
  · generalize h.orderNumbers = orderNumbers at refuses
    cases orderNumbers <;> cases refuses <;> decide
  · cases refuses <;> decide

/-- Of a refused packet, the timestamp is noted and the incidents are counted. -/
theorem Refuses.process_eq (h : d.Refuses payload incidents) {packet : RtpPacket}
    (hpayload : packet.payload = payload) (hmarker : packet.marker = false) :
    d.process packet = ((incidents.foldl count d).begin packet.timestamp, none) := by
  cases h with
  | @h264 a _ incident refuses =>
    have hstep := H264.reads.step_refused a hmarker (hpayload ▸ refuses.push_read)
    exact congrArg (fun s => (Depacketizer.h264 s.1, s.2)) hstep
  | @h265 h _ incident refuses =>
    have hstep := (H265.reads h.orderNumbers).step_refused h.assembly hmarker
      (hpayload ▸ refuses.push_read)
    exact congrArg (fun s => (Depacketizer.h265 ⟨s.1, h.orderNumbers⟩, s.2)) hstep
  | @jpeg j _ _ refuses =>
    rw [foldl_count_jpeg]
    exact congrArg (fun s => (Depacketizer.jpeg s.1, s.2))
      (j.process_refused refuses hpayload hmarker)

/-- An unmarked packet that is refused may be inserted in front of a packet of its timestamp. -/
theorem feed_refused (h : d.Refuses payload incidents) {packet next : RtpPacket}
    (hpayload : packet.payload = payload) (hmarker : packet.marker = false)
    (htimestamp : packet.timestamp = next.timestamp) (before after : List RtpPacket) :
    feed Depacketizer.process d (before ++ packet :: next :: after)
      = (incidents.foldl count (feed Depacketizer.process d (before ++ next :: after)).1,
        (feed Depacketizer.process d (before ++ next :: after)).2.insertIdx before.length none) := by
  induction before generalizing d with
  | nil =>
    -- The next packet notes the same timestamp, so it is as if the refused one had not done so.
    have hrest : feed Depacketizer.process ((incidents.foldl count d).begin next.timestamp)
          (next :: after)
        = feed Depacketizer.process (incidents.foldl count d) (next :: after) := by
      rw [feed, process_begin, feed]
    rw [List.nil_append, List.nil_append, feed, h.process_eq hpayload hmarker, htimestamp, hrest,
      feed_foldl_count]
    rfl
  | cons p before ih =>
    have hbefore := ih (h.process p)
    rw [List.cons_append, feed, hbefore, List.cons_append, feed]
    rfl

/-- An unmarked packet that is refused, in front of a packet of its timestamp, leads to no frame,
changes no frame of the other packets, and is counted as malformed, unsupported or truncated, while
everything else is counted as without it. -/
theorem frames_and_tally_refused (h : d.Refuses payload incidents) {packet next : RtpPacket}
    (hpayload : packet.payload = payload) (hmarker : packet.marker = false)
    (htimestamp : packet.timestamp = next.timestamp) (before after : List RtpPacket) :
    let without := feed Depacketizer.process d (before ++ next :: after)
    let run := feed Depacketizer.process d (before ++ packet :: next :: after)
    run.2 = without.2.insertIdx before.length none
      ∧ run.1.tally = incidents.foldl Tally.count without.1.tally
      ∧ ∀ incident ∈ incidents, incident ∈ [Incident.malformed, .unsupported, .truncated] := by
  intro without run
  have hrun : run = (incidents.foldl count without.1, without.2.insertIdx before.length none) :=
    feed_refused h hpayload hmarker htimestamp before after
  rw [hrun]
  exact ⟨rfl, tally_foldl_count _ _, h.mem_incidents⟩

/-- An aggregate that overruns between the two fragments of a unit. -/
theorem frames_and_tally_refused_within_fragment :
    let packet (marker : Bool) (payload : Bytes) : RtpPacket :=
      { marker, payloadType := 96, sequence := 7, timestamp := 90, ssrc := 1, payload }
    let start := packet false [0x7C, 0x85, 2]
    let refused := packet false [0x78, 0, 1, 0x67, 0, 9, 1]
    let stop := packet true [0x7C, 0x45, 3]
    let run := feed Depacketizer.process (.h264 {}) [start, refused, stop]
    Refuses (.h264 {}) refused.payload [.truncated]
      ∧ run.2 = [none, none, some ⟨90, [[0x65, 2, 3]]⟩]
      ∧ run.1.tally = { frames := 1, truncated := 1 } := by
  intro packet start refused stop run
  have hrefuses : Refuses (.h264 {}) refused.payload [.truncated] :=
    .h264 (@H264.Refuses.overrun 0x78 [[0x67]] 9 [1] (by decide) (by decide) (by decide))
  obtain ⟨houtputs, htally, -⟩ :=
    @frames_and_tally_refused _ _ _ hrefuses refused stop rfl rfl rfl [start] []
  exact ⟨hrefuses, houtputs, htally⟩

end Depacketizer

end Rtsp
