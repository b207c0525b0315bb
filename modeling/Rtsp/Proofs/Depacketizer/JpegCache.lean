-- SUMMARY: Keeping the header of an image for the next one changes no frame and no count.
import Rtsp.Proofs.Depacketizer.Jpeg

/-!
# Cached headers

`Uncached` is the depacketizer without a cache: whenever an image begins, it makes the header from
the parameters in the packet and the last table that was sent. The depacketizer hands out the same
frames and counts the same incidents, and makes a header only where it differs from the one before
in what it is made for (`process_uncached`).

The cache is compared by its parameters alone. That is enough because a packet that brings another
table also begins an image (`pushPacket_cases`), so no packet leaves a header behind that was made
for another table (`Agrees`).
-/

namespace Rtsp.Jpeg

/-! ## Fragments -/

/-- What a packet holds of a scan. -/
inductive Fragment where
  /-- The beginning of an image. -/
  | first (params : Params) (data : Bytes)
  | later (offset : Nat) (data : Bytes)
  /-- Nothing that can be used. -/
  | refused (incidents : List Incident)
  deriving DecidableEq, Repr

/-- The tables that are in force behind a packet, which are the last ones that were sent, and what
the packet holds. -/
def Fragment.read (sent : Quantization) (packet : RtpPacket) : Quantization × Fragment :=
  match Piece.read? packet.payload with
  | none => (sent, refused [.malformed])
  | some piece =>
    let (width, height) := dimensions packet piece
    let params := ⟨piece.type, piece.quality, width, height, piece.restartInterval⟩
    if piece.offset ≠ 0 then (sent, later piece.offset piece.data)
    else if piece.quality.toNat < 128 then (sent, first params piece.data)
    else
      match TableHeader.read piece.data with
      | .missing => (sent, refused [.malformed])
      | .overrun => (sent, refused [.truncated, .malformed])
      | .table q rest =>
        let sent := if q.table.isEmpty then sent else q
        if sent.table.isEmpty then (sent, refused [.malformed]) else (sent, first params rest)

/-! ## Without a cache -/

/-- What a header is made for. -/
structure Opening where
  params : Params
  quantization : Quantization
  deriving DecidableEq, Repr

def Opening.header (o : Opening) : Bytes :=
  headerFor o.params o.quantization

structure Uncached where
  image : Option JpegImage := none
  timestamp : Option UInt32 := none
  /-- The last tables that were sent, empty at first. -/
  sent : Quantization := ⟨[], 0⟩
  /-- What the headers were made for, the last one first. -/
  openings : List Opening := []
  tally : Tally := {}
  deriving DecidableEq, Repr

namespace Uncached

def count (u : Uncached) (incident : Incident) : Uncached :=
  { u with tally := u.tally.count incident }

def push (u : Uncached) : Fragment → Uncached
  | .first params data =>
    let o : Opening := ⟨params, u.sent⟩
    { u with
      image := some ⟨o.header ++ data, data.length⟩
      openings := o :: u.openings
      tally := if u.image.isSome then u.tally.count .restarted else u.tally }
  | .later offset data =>
    match u.image with
    | none => u.count .orphan
    | some image =>
      if offset = image.scanSize then
        { u with image := some ⟨image.bytes ++ data, image.scanSize + data.length⟩ }
      else { u.count .malformed with image := none }
  | .refused incidents => incidents.foldl count u

/-- Note a timestamp, giving up an image of another one. -/
def begin (u : Uncached) (timestamp : UInt32) : Uncached :=
  if u.image.isSome ∧ u.timestamp.any (· != timestamp) then
    { u.count .stale with image := none, timestamp := some timestamp }
  else { u with timestamp := some timestamp }

def finish (u : Uncached) (timestamp : UInt32) : Uncached × Option MediaFrame :=
  match u.image with
  | none => ({ u with timestamp := none }, none)
  | some image =>
    ({ u.count .frame with image := none, timestamp := none },
      some ⟨timestamp, [complete image.bytes]⟩)

/-- A packet up to the question whether it ends the image. -/
def accept (u : Uncached) (packet : RtpPacket) : Uncached :=
  let u := u.begin packet.timestamp
  let (sent, fragment) := Fragment.read u.sent packet
  { u with sent }.push fragment

def process (u : Uncached) (packet : RtpPacket) : Uncached × Option MediaFrame :=
  let u := u.accept packet
  if packet.marker then u.finish packet.timestamp else (u, none)

end Uncached

/-! ## Packets -/

theorem keepTable_sent (j : Jpeg) : j.keepTable j.sent = j := by
  unfold keepTable
  simp

theorem keepTable_of_isEmpty (j : Jpeg) {q : Quantization} (h : q.table.isEmpty = true) :
    j.keepTable q = j := by
  unfold keepTable
  simp [h]

/-- Keeping a table changes only the table and the cache. -/
theorem keepTable_frame (j : Jpeg) (q : Quantization) :
    (j.keepTable q).image = j.image ∧ (j.keepTable q).timestamp = j.timestamp
      ∧ (j.keepTable q).tally = j.tally ∧ (j.keepTable q).built = j.built := by
  unfold keepTable
  split <;> exact ⟨rfl, rfl, rfl, rfl⟩

theorem openImage_frame (j : Jpeg) (p : Params) :
    (j.openImage p).timestamp = j.timestamp
      ∧ (j.openImage p).tally
        = (if j.image.isSome then j.tally.count .restarted else j.tally)
      ∧ (j.openImage p).built = if j.isCached p then j.built else j.built + 1 := by
  unfold openImage
  dsimp only
  split <;> exact ⟨rfl, rfl, rfl⟩

theorem begin_eq (j : Jpeg) (timestamp : UInt32) :
    j.begin timestamp
      = if j.image.isSome ∧ j.timestamp.any (· != timestamp) then
          { j.count .stale with image := none, timestamp := some timestamp }
        else { j with timestamp := some timestamp } := by
  unfold begin
  cases j.timestamp with
  | none => simp
  | some current =>
    simp only [Option.any_some, Bool.and_eq_true, and_comm]
    split <;> rfl

/-- How a packet is handled follows from what it holds. A table is kept only from a packet that
begins an image. -/
theorem pushPacket_cases (j : Jpeg) (packet : RtpPacket) :
    (∃ sent params data, Fragment.read j.sent packet = (sent, .first params data)
        ∧ (j.keepTable sent).sent = sent
        ∧ j.pushPacket packet = ((j.keepTable sent).openImage params).append 0 data)
      ∨ (∃ offset data, Fragment.read j.sent packet = (j.sent, .later offset data)
        ∧ j.pushPacket packet = j.append offset data)
      ∨ (∃ incidents, Fragment.read j.sent packet = (j.sent, .refused incidents)
        ∧ j.pushPacket packet = incidents.foldl count j) := by
  unfold Fragment.read pushPacket
  cases Piece.read? packet.payload with
  | none => exact .inr (.inr ⟨[.malformed], rfl, rfl⟩)
  | some piece =>
    dsimp only
    unfold pushPiece
    by_cases hoffset : piece.offset ≠ 0
    · rw [if_pos hoffset, if_pos hoffset]
      exact .inr (.inl ⟨piece.offset, piece.data, rfl, rfl⟩)
    rw [if_neg hoffset, if_neg hoffset]
    by_cases hquality : piece.quality.toNat < 128
    · rw [if_pos hquality, if_pos hquality]
      refine .inl ⟨j.sent, _, piece.data, rfl, by rw [keepTable_sent], ?_⟩
      rw [keepTable_sent]
      rfl
    rw [if_neg hquality, if_neg hquality]
    cases TableHeader.read piece.data with
    | missing => exact .inr (.inr ⟨[.malformed], rfl, rfl⟩)
    | overrun => exact .inr (.inr ⟨[.truncated, .malformed], rfl, rfl⟩)
    | table q rest =>
      dsimp only
      by_cases hempty : q.table.isEmpty = true
      · rw [if_pos hempty, keepTable_of_isEmpty j hempty]
        by_cases hnone : j.sent.table.isEmpty = true
        · rw [if_pos hnone, if_pos hnone]
          exact .inr (.inr ⟨[.malformed], rfl, rfl⟩)
        · rw [if_neg hnone, if_neg hnone]
          refine .inl ⟨j.sent, _, rest, rfl, by rw [keepTable_sent], ?_⟩
          rw [keepTable_sent]
          rfl
      · have hsent : (j.keepTable q).sent = q := sent_keepTable (by simpa using hempty)
        rw [if_neg hempty, hsent, if_neg hempty, if_neg hempty]
        exact .inl ⟨q, _, rest, rfl, hsent, rfl⟩

/-! ## The same with a cache -/

/-- How many headers are made for something else than the one before. -/
def changes : List Opening → Nat
  | [] => 0
  | o :: earlier => if earlier.head? = some o then changes earlier else changes earlier + 1

/-- The two depacketizers hold the same, and the cache holds the header that was made last, for the
tables that are still in force. -/
structure Agrees (j : Jpeg) (u : Uncached) : Prop where
  image : j.image = u.image
  timestamp : j.timestamp = u.timestamp
  sent : j.sent = u.sent
  tally : j.tally = u.tally
  cache : j.cache = u.openings.head?.map fun o => ⟨o.params, o.header⟩
  in_force : ∀ o ∈ u.openings.head?, o.quantization = u.sent
  built : j.built = changes u.openings

theorem agrees_empty : Agrees {} {} where
  image := rfl
  timestamp := rfl
  sent := rfl
  tally := rfl
  cache := rfl
  in_force _ ho := absurd ho (by simp)
  built := rfl

namespace Agrees

variable {j : Jpeg} {u : Uncached}

theorem coherent (h : Agrees j u) : j.Coherent := by
  intro c hc
  rw [h.cache] at hc
  obtain ⟨o, ho, rfl⟩ := Option.map_eq_some_iff.1 hc
  rw [h.sent, ← h.in_force o ho]
  rfl

theorem count (h : Agrees j u) (incident : Incident) :
    Agrees (j.count incident) (u.count incident) :=
  { h with tally := congrArg (·.count incident) h.tally }

theorem foldl_count (h : Agrees j u) (incidents : List Incident) :
    Agrees (incidents.foldl Jpeg.count j) (incidents.foldl Uncached.count u) := by
  induction incidents generalizing j u with
  | nil => exact h
  | cons incident incidents ih => exact ih (h.count incident)

/-- Images and timestamps may be replaced, if they are in both. -/
theorem replace (h : Agrees j u) (image : Option JpegImage) (timestamp : Option UInt32) :
    Agrees { j with image, timestamp } { u with image, timestamp } :=
  { h with image := rfl, timestamp := rfl }

theorem begin (h : Agrees j u) (timestamp : UInt32) :
    Agrees (j.begin timestamp) (u.begin timestamp) := by
  rw [begin_eq, Uncached.begin, h.image, h.timestamp]
  split
  · exact (h.count .stale).replace none (some timestamp)
  · rw [← h.image]
    exact h.replace _ _

theorem append (h : Agrees j u) (offset : Nat) (data : Bytes) :
    Agrees (j.append offset data) (u.push (.later offset data)) := by
  unfold Jpeg.append Uncached.push
  rw [h.image]
  cases u.image with
  | none => exact h.count .orphan
  | some image =>
    dsimp only
    split
    · exact { h with image := rfl }
    · exact { h.count .malformed with image := rfl }

theorem finish (h : Agrees j u) (timestamp : UInt32) :
    Agrees (j.finish timestamp).1 (u.finish timestamp).1
      ∧ (j.finish timestamp).2 = (u.finish timestamp).2 := by
  unfold Jpeg.finish Uncached.finish
  dsimp only
  rw [h.image]
  cases u.image with
  | none => exact ⟨h.replace _ _, rfl⟩
  | some image => exact ⟨(h.count .frame).replace _ _, rfl⟩

/-- A header is in the cache if it is the one that was made last. -/
theorem isCached_iff (h : Agrees j u) {sent : Quantization} (hsent : (j.keepTable sent).sent = sent)
    (params : Params) :
    (j.keepTable sent).isCached params = true ↔ u.openings.head? = some ⟨params, sent⟩ := by
  by_cases hsame : sent = j.sent
  · rw [hsame, keepTable_sent, isCached, h.cache]
    cases hlast : u.openings.head? with
    | none => simp
    | some o =>
      have hforce : o.quantization = j.sent := (h.in_force o hlast).trans h.sent.symm
      cases o
      simp_all
  · have hnone : (j.keepTable sent).cache = none := by
      unfold keepTable at hsent ⊢
      split
      next hkept => 
        rw [if_pos hkept] at hsent
        exact absurd hsent.symm hsame
      next => rfl
    rw [isCached, hnone]
    refine iff_of_false (by simp) fun hlast => hsame ?_
    exact (h.in_force _ hlast).trans h.sent.symm

/-- Where an image begins, the header is the one that would be made afresh. -/
theorem first (h : Agrees j u) {sent : Quantization} (hsent : (j.keepTable sent).sent = sent)
    (params : Params) (data : Bytes) :
    Agrees (((j.keepTable sent).openImage params).append 0 data)
      ({ u with sent }.push (.first params data)) := by
  obtain ⟨k, hk⟩ : ∃ k, k = j.keepTable sent := ⟨_, rfl⟩
  obtain ⟨himage, htimestamp, htally, hbuilt⟩ := keepTable_frame j sent
  obtain ⟨hopened, hcache, hsame⟩ := (h.coherent.keepTable sent).openImage_eq params
  have hcached := h.isCached_iff hsent params
  rw [← hk] at himage htimestamp htally hbuilt hopened hcache hsame hsent hcached ⊢
  have happended : (k.openImage params).append 0 data
      = { k.openImage params with image := some ⟨headerFor params sent ++ data, data.length⟩ } := by
    unfold Jpeg.append
    rw [hopened, hsent]
    simp
  obtain ⟨htimestamp', htally', hbuilt'⟩ := openImage_frame k params
  rw [happended]
  exact {
    image := rfl
    timestamp := htimestamp'.trans (htimestamp.trans h.timestamp)
    sent := hsame.trans hsent
    tally := by
      rw [himage, htally, h.image, h.tally] at htally'
      exact htally'
    cache := by
      rw [hsent] at hcache
      exact hcache
    in_force := by
      intro o ho
      rw [← Option.some.inj ho]
      rfl
    built := by
      refine hbuilt'.trans ?_
      simp only [hcached, hbuilt, h.built]
      rfl }

theorem accept (h : Agrees j u) (packet : RtpPacket) :
    Agrees (j.accept packet) (u.accept packet) := by
  have hbegin := h.begin packet.timestamp
  unfold Jpeg.accept Uncached.accept
  dsimp only
  rw [← hbegin.sent]
  rcases pushPacket_cases (j.begin packet.timestamp) packet with
    ⟨sent, params, data, hread, hsent, hpush⟩ | ⟨offset, data, hread, hpush⟩
      | ⟨incidents, hread, hpush⟩
  · rw [hread, hpush]
    exact hbegin.first hsent params data
  · rw [hread, hpush, hbegin.sent]
    exact hbegin.append offset data
  · rw [hread, hpush, hbegin.sent]
    exact hbegin.foldl_count incidents

theorem process (h : Agrees j u) (packet : RtpPacket) :
    Agrees (j.process packet).1 (u.process packet).1
      ∧ (j.process packet).2 = (u.process packet).2 := by
  have haccept := h.accept packet
  unfold Jpeg.accept at haccept
  unfold Jpeg.process Uncached.process
  dsimp only
  split
  · exact haccept.finish packet.timestamp
  · exact ⟨haccept, rfl⟩

end Agrees

theorem agrees_feed {j : Jpeg} {u : Uncached} (h : Agrees j u) (packets : List RtpPacket) :
    Agrees (feed process j packets).1 (feed Uncached.process u packets).1 := by
  induction packets generalizing j u with
  | nil => exact h
  | cons packet packets ih => exact ih (h.process packet).1

namespace Uncached

theorem openings_foldl_count (u : Uncached) (incidents : List Incident) :
    (incidents.foldl count u).openings = u.openings := by
  induction incidents generalizing u with
  | nil => rfl
  | cons incident incidents ih => exact ih (u.count incident)

theorem openings_push (u : Uncached) (fragment : Fragment) :
    (u.push fragment).openings = u.openings
      ∨ ∃ o, (u.push fragment).openings = o :: u.openings := by
  cases fragment with
  | first params data => exact .inr ⟨_, rfl⟩
  | later offset data =>
    refine .inl ?_
    unfold push
    dsimp only
    split
    · rfl
    · split <;> rfl
  | refused incidents => exact .inl (openings_foldl_count u incidents)

/-- A packet begins at most one image. -/
theorem openings_process (u : Uncached) (packet : RtpPacket) :
    (u.process packet).1.openings = u.openings
      ∨ ∃ o, (u.process packet).1.openings = o :: u.openings := by
  have hbegin : (u.begin packet.timestamp).openings = u.openings := by
    unfold begin
    split <;> rfl
  have haccept : (u.accept packet).openings = u.openings
      ∨ ∃ o, (u.accept packet).openings = o :: u.openings := by
    rw [← hbegin]
    exact openings_push _ _
  have hfinish : ((u.accept packet).finish packet.timestamp).1.openings
      = (u.accept packet).openings := by
    unfold finish
    split <;> rfl
  unfold process
  dsimp only
  split
  · rw [hfinish]
    exact haccept
  · exact haccept

end Uncached

/-- Whatever packets came before, the cache changes neither the frame that a packet completes nor
what is counted, and a packet makes a new header exactly if it begins an image whose header is made
for something else than the one before. -/
theorem process_uncached (packets : List RtpPacket) (packet : RtpPacket) :
    let j := (feed process {} packets).1
    let u := (feed Uncached.process {} packets).1
    (j.process packet).2 = (u.process packet).2
      ∧ (j.process packet).1.tally = (u.process packet).1.tally
      ∧ ((j.process packet).1.built ≠ j.built
        ↔ ∃ o, (u.process packet).1.openings = o :: u.openings ∧ u.openings.head? ≠ some o) := by
  intro j u
  have hagrees : Agrees j u := agrees_feed agrees_empty packets
  obtain ⟨hnext, hframe⟩ := hagrees.process packet
  refine ⟨hframe, hnext.tally, ?_⟩
  rw [hnext.built, hagrees.built]
  rcases u.openings_process packet with hsame | ⟨o, hopened⟩
  · rw [hsame]
    simp
  · rw [hopened, changes]
    by_cases hlast : u.openings.head? = some o
    · simp [hlast]
    · simp [hlast]

end Rtsp.Jpeg
