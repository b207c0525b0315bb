-- SUMMARY: A frame whose packets all arrive is assembled from exactly its units.
import Rtsp.Depacketizer.NalAssembly
import Rtsp.Proofs.Depacketizer.Feed

/-!
# Assembling access units

What a payload adds to an assembly depends on the format; when an access unit begins and ends does
not. A format whose payloads, read in order, add exactly the units that they were made from
(`NalAssembly.Inverts`) therefore gives back every frame that it carries
(`NalAssembly.feed_transmissions`).
-/

namespace Rtsp.NalAssembly

/-! ## Aggregates -/

theorem readEntries?_append {nal : Bytes} (h : nal.length ≤ 65535) (rest : Bytes) :
    readEntries? (be16 (UInt16.ofNat nal.length) ++ nal ++ rest)
      = (readEntries? rest).map (nal :: ·) := by
  have hfits : ¬(nal ++ rest).length < nal.length := by simp
  simp only [be16, List.cons_append, List.nil_append]
  rw [readEntries?]
  simp only [toNat_ofBe16_be16 h, if_neg hfits, List.drop_left, List.take_left]

/-- The entries of an aggregate: units with their sizes in front. -/
def entries (nals : List Bytes) : Bytes :=
  nals.flatMap fun nal => be16 (UInt16.ofNat nal.length) ++ nal

/-- Entries are read whatever stands behind them. -/
theorem readEntries?_entries_append {nals : List Bytes} (h : ∀ nal ∈ nals, nal.length ≤ 65535)
    (rest : Bytes) :
    readEntries? (entries nals ++ rest) = (readEntries? rest).map (nals ++ ·) := by
  induction nals with
  | nil => exact Option.map_id'.symm
  | cons nal nals ih =>
    have hrest := ih fun n hn => h n (List.mem_cons_of_mem _ hn)
    rw [entries] at hrest
    rw [entries, List.flatMap_cons, List.append_assoc,
      readEntries?_append (h nal List.mem_cons_self), hrest, Option.map_map]
    rfl

theorem readEntries?_entries {nals : List Bytes} (h : ∀ nal ∈ nals, nal.length ≤ 65535) :
    readEntries? (entries nals) = some nals := by
  have hread := readEntries?_entries_append h []
  rw [List.append_nil] at hread
  rw [hread, readEntries?]
  · exact congrArg some (List.append_nil nals)
  · simp

theorem pushAggregate_entries {nals : List Bytes} (hne : ∀ nal ∈ nals, nal ≠ [])
    (hle : ∀ nal ∈ nals, nal.length ≤ 65535) (a : NalAssembly) :
    a.pushAggregate (entries nals) = { a with nals := a.nals ++ nals } := by
  have hall : nals.filter (!·.isEmpty) = nals :=
    List.filter_eq_self.2 fun nal hnal => by simpa using hne nal hnal
  rw [pushAggregate, readEntries?_entries hle]
  simp only [hall]

/-! ## Fragments -/

theorem pushFragment_first {a : NalAssembly} (h : a.fragment = none) (stop : Bool)
    (header data : Bytes) :
    a.pushFragment true stop header data
      = if stop then { a with nals := a.nals ++ [header ++ data], fragment := none }
        else { a with fragment := some (header ++ data) } := by
  simp [pushFragment, h]

theorem pushFragment_next {a : NalAssembly} {begun : Bytes} (h : a.fragment = some begun)
    (stop : Bool) (header data : Bytes) :
    a.pushFragment false stop header data
      = if stop then { a with nals := a.nals ++ [begun ++ data], fragment := none }
        else { a with fragment := some (begun ++ data) } := by
  simp [pushFragment, h]

/-- The payloads of the pieces of a unit from some piece on: `wrap` makes a payload of a piece, of
which it is said whether it starts and whether it stops the unit. -/
def fragments (wrap : Bool → Bool → Bytes → Bytes) (start : Bool) : List Bytes → List Bytes
  | [] => []
  | [piece] => [wrap start true piece]
  | piece :: next :: pieces => wrap start false piece :: fragments wrap false (next :: pieces)

section

variable {push : NalAssembly → Bytes → NalAssembly} {wrap : Bool → Bool → Bytes → Bytes}
  {header : Bytes}

/-- The pieces are added to what was begun, and complete it. -/
theorem foldl_fragments_next
    (hpush : ∀ a start stop piece,
      push a (wrap start stop piece) = a.pushFragment start stop header piece)
    {a : NalAssembly} {begun : Bytes} (ha : a.fragment = some begun) {pieces : List Bytes}
    (hne : pieces ≠ []) :
    (fragments wrap false pieces).foldl push a
      = { a with nals := a.nals ++ [begun ++ pieces.flatten], fragment := none } := by
  induction pieces generalizing a begun with
  | nil => exact absurd rfl hne
  | cons piece pieces ih =>
    cases pieces with
    | nil =>
      rw [fragments, List.foldl_cons, hpush, pushFragment_next ha]
      simp
    | cons next pieces =>
      rw [fragments, List.foldl_cons, hpush, pushFragment_next ha]
      have hrest := ih (a := { a with fragment := some (begun ++ piece) }) rfl (List.cons_ne_nil _ _)
      simpa using hrest

theorem foldl_fragments
    (hpush : ∀ a start stop piece,
      push a (wrap start stop piece) = a.pushFragment start stop header piece)
    {a : NalAssembly} (ha : a.fragment = none) {pieces : List Bytes} (hne : pieces ≠ []) :
    (fragments wrap true pieces).foldl push a
      = { a with nals := a.nals ++ [header ++ pieces.flatten] } := by
  match pieces with
  | [] => exact absurd rfl hne
  | [piece] =>
    rw [fragments, List.foldl_cons, hpush, pushFragment_first ha]
    simp [ha]
  | piece :: next :: pieces =>
    rw [fragments, List.foldl_cons, hpush, pushFragment_first ha]
    have hrest := foldl_fragments_next hpush (a := { a with fragment := some (header ++ piece) }) rfl
      (List.cons_ne_nil next pieces)
    simpa [ha] using hrest

end

/-! ## Units

What payloads that stand one after the other add is added in order. -/

/-- Payloads, read in order, add exactly these units to an assembly that is not rebuilding one. -/
def Adds (push : NalAssembly → Bytes → NalAssembly) (nals payloads : List Bytes) : Prop :=
  ∀ a : NalAssembly, a.fragment = none →
    payloads.foldl push a = { a with nals := a.nals ++ nals }

namespace Adds

variable {push : NalAssembly → Bytes → NalAssembly} {nals nals' payloads payloads' : List Bytes}

theorem nil : Adds push [] [] := by
  intro a _
  simp

theorem append (h : Adds push nals payloads) (h' : Adds push nals' payloads') :
    Adds push (nals ++ nals') (payloads ++ payloads') := by
  intro a ha
  have hrest := h' { a with nals := a.nals ++ nals } ha
  rw [List.foldl_append, h a ha, hrest, List.append_assoc]

/-- A payload by itself. -/
theorem of_push {payload : Bytes} (h : ∀ a, push a payload = { a with nals := a.nals ++ nals }) :
    Adds push nals [payload] := by
  intro a _
  rw [List.foldl_cons, h a, List.foldl_nil]

theorem fragments {wrap : Bool → Bool → Bytes → Bytes} {header : Bytes} {pieces : List Bytes}
    (hpush : ∀ a start stop piece,
      push a (wrap start stop piece) = a.pushFragment start stop header piece)
    (hne : pieces ≠ []) :
    Adds push [header ++ pieces.flatten] (NalAssembly.fragments wrap true pieces) :=
  fun _ ha => foldl_fragments hpush ha hne

end Adds

/-! ## Timestamps

No part of a payload changes the timestamp. -/

section

variable (a : NalAssembly)

theorem timestamp_count (incident : Incident) : (a.count incident).timestamp = a.timestamp := rfl

theorem timestamp_pushUnit (nal : Bytes) : (a.pushUnit nal).timestamp = a.timestamp := by
  unfold pushUnit
  split <;> rfl

theorem timestamp_pushAggregate (data : Bytes) :
    (a.pushAggregate data).timestamp = a.timestamp := by
  unfold pushAggregate
  split <;> rfl

theorem timestamp_pushFragment (start stop : Bool) (header data : Bytes) :
    (a.pushFragment start stop header data).timestamp = a.timestamp := by
  cases start with
  | true =>
    unfold pushFragment
    simp only [if_true]
    split <;> split <;> rfl
  | false =>
    cases h : a.fragment with
    | none => simp [pushFragment, h, timestamp_count]
    | some begun =>
      rw [pushFragment_next h]
      split <;> rfl

end

/-! ## Beginning and finishing -/

theorem begin_eq (a : NalAssembly) (timestamp : UInt32) :
    a.begin timestamp
      = if a.isWaiting ∧ a.timestamp.any (· != timestamp) then
          { a.count .stale with nals := [], fragment := none, timestamp := some timestamp }
        else { a with timestamp := some timestamp } := by
  unfold begin
  cases a.timestamp with
  | none => simp
  | some current =>
    simp only [Option.any_some, Bool.and_eq_true, and_comm]
    split <;> rfl

theorem begin_of_timestamp {a : NalAssembly} {timestamp : UInt32}
    (h : a.timestamp = some timestamp) : a.begin timestamp = a := by
  obtain ⟨nals, current, fragment, tally⟩ := a
  obtain rfl : current = some timestamp := h
  simp [begin]

theorem timestamp_begin (a : NalAssembly) (timestamp : UInt32) :
    (a.begin timestamp).timestamp = some timestamp := rfl

/-- Complete units make a frame. -/
theorem finish_of_complete {a : NalAssembly} {timestamp : UInt32}
    (hts : a.timestamp = some timestamp) (hfragment : a.fragment = none) (hne : a.nals ≠ []) :
    a.finish
      = ({ tally := a.tally.count .frame }, some { timestamp, units := a.nals }) := by
  obtain ⟨nals, current, fragment, tally⟩ := a
  obtain rfl : current = some timestamp := hts
  obtain rfl : fragment = none := hfragment
  have hempty : nals.isEmpty = false := List.isEmpty_eq_false_iff.2 hne
  simp [finish, count, hempty]

/-! ## Packets -/

/-- One packet, for a format in which `push` says what a payload adds. -/
def step (push : NalAssembly → Bytes → NalAssembly) (a : NalAssembly) (packet : RtpPacket) :
    NalAssembly × Option MediaFrame :=
  (push (a.begin packet.timestamp) packet.payload).finishIf packet.marker

/-- A packet is processed as if its timestamp had been noted before. -/
theorem step_begin (push : NalAssembly → Bytes → NalAssembly) (a : NalAssembly) (packet : RtpPacket) :
    step push (a.begin packet.timestamp) packet = step push a packet := by
  rw [step, step, begin_of_timestamp (timestamp_begin a packet.timestamp)]

/-- Payloads that the format allows for some units add these units when they are read in order. -/
structure Inverts (push : NalAssembly → Bytes → NalAssembly)
    (format : List Bytes → List Bytes → Prop) : Prop where
  timestamp : ∀ a payload, (push a payload).timestamp = a.timestamp
  nals : ∀ {nals payloads}, format nals payloads → ∀ {a : NalAssembly}, a.fragment = none →
    payloads.foldl push a = { a with nals := a.nals ++ nals }

theorem Inverts.timestamp_foldl {push : NalAssembly → Bytes → NalAssembly}
    {format : List Bytes → List Bytes → Prop} (h : Inverts push format) (a : NalAssembly)
    (payloads : List Bytes) : (payloads.foldl push a).timestamp = a.timestamp := by
  induction payloads generalizing a with
  | nil => rfl
  | cons payload payloads ih => exact (ih _).trans (h.timestamp a payload)

section

variable {push : NalAssembly → Bytes → NalAssembly} {format : List Bytes → List Bytes → Prop}

/-- Packets of the same timestamp only add their payloads until one is marked. -/
theorem feed_unmarked (hpush : Inverts push format) {a : NalAssembly} {timestamp : UInt32}
    (ha : a.timestamp = some timestamp) {packets : List RtpPacket}
    (hts : ∀ packet ∈ packets, packet.timestamp = timestamp)
    (hmarker : ∀ packet ∈ packets, packet.marker = false) :
    feed (step push) a packets
      = ((packets.map (·.payload)).foldl push a, List.replicate packets.length none) := by
  induction packets generalizing a with
  | nil => rfl
  | cons packet packets ih =>
    have hstep : step push a packet = (push a packet.payload, none) := by
      rw [step, hts packet List.mem_cons_self, begin_of_timestamp ha,
        hmarker packet List.mem_cons_self]
      rfl
    have hrest := ih ((hpush.timestamp a packet.payload).trans ha)
      (fun p hp => hts p (List.mem_cons_of_mem _ hp))
      (fun p hp => hmarker p (List.mem_cons_of_mem _ hp))
    simp only [feed, hstep, hrest]
    rfl

theorem feed_begin {a : NalAssembly} {packets : List RtpPacket} (hne : packets ≠ [])
    {timestamp : UInt32} (hts : ∀ packet ∈ packets, packet.timestamp = timestamp) :
    feed (step push) (a.begin timestamp) packets = feed (step push) a packets := by
  cases packets with
  | nil => exact absurd rfl hne
  | cons packet packets => rw [← hts packet List.mem_cons_self, feed, step_begin, feed]

/-- From an assembly where nothing waits, a transmission gives its frame and nothing else. -/
theorem feed_transmission (hpush : Inverts push format) {t : Transmission}
    (ht : t.Carries format) (tally : Tally) :
    feed (step push) { tally } t.packets = ({ tally := tally.count .frame }, t.outputs) := by
  obtain ⟨a, ha⟩ : ∃ a, a = ({ tally } : NalAssembly).begin t.frame.timestamp := ⟨_, rfl⟩
  have hts : a.timestamp = some t.frame.timestamp := by
    rw [ha]
    rfl
  have hne : t.packets ≠ [] := by simp [Transmission.packets]
  have hlast : t.last ∈ t.packets := List.mem_append_right _ List.mem_cons_self
  have hbefore := feed_unmarked hpush hts
    (fun p hp => ht.timestamp p (List.mem_append_left _ hp)) ht.unmarked
  -- The last packet adds the last of the units and ends the frame.
  have hunits : push ((t.before.map (·.payload)).foldl push a) t.last.payload
      = { a with nals := t.frame.units } := by
    have hnals := hpush.nals ht.units (a := a) (by rw [ha]; rfl)
    rw [Transmission.payloads, Transmission.packets, List.map_append, List.foldl_append] at hnals
    rw [ha] at hnals ⊢
    exact hnals
  have hstep : step push ((t.before.map (·.payload)).foldl push a) t.last
      = ({ tally := tally.count .frame }, some t.frame) := by
    rw [step, ht.timestamp _ hlast, begin_of_timestamp ((hpush.timestamp_foldl a _).trans hts),
      hunits, ht.marked, ha]
    exact finish_of_complete rfl rfl ht.units_ne_nil
  rw [← feed_begin hne ht.timestamp, ← ha, Transmission.packets, feed_append, hbefore]
  simp only [feed, hstep]
  rfl

/-- One transmission after the other gives their frames, and counts nothing but these. -/
theorem feed_transmissions (hpush : Inverts push format) (ts : List Transmission)
    (hts : ∀ t ∈ ts, t.Carries format) (tally : Tally) :
    feed (step push) { tally } (ts.flatMap (·.packets))
      = ({ tally := { tally with frames := tally.frames + ts.length } },
        ts.flatMap (·.outputs)) := by
  induction ts generalizing tally with
  | nil => rfl
  | cons t ts ih =>
    have hrest := ih (fun s hs => hts s (List.mem_cons_of_mem _ hs)) (tally.count .frame)
    rw [List.flatMap_cons, feed_append, feed_transmission hpush (hts t List.mem_cons_self), hrest,
      List.flatMap_cons, List.length_cons]
    simp only [Tally.count, Nat.add_assoc, Nat.add_comm 1]

end

end Rtsp.NalAssembly
