-- SUMMARY: A JPEG image that is handed out has its scan from its own packets, without a gap.
import Rtsp.Proofs.Depacketizer.JpegCache

/-!
# Gathered images

`Gathered packets packet g` says from the packets alone what image a packet leaves behind: it began
with a fragment at offset zero, and every fragment since then lies where the scan ended. The
depacketizer holds that image and no other (`Uncached.Holds`), so a marked packet hands out exactly
the image that it leaves behind (`process_gathered`).

A packet that cannot be used leaves the image as it was. That holds of a marked one too, which then
completes an image it has added nothing to (`process_refused_completes`).
-/

namespace Rtsp.Jpeg

/-! ## Images in their packets -/

/-- The tables in force behind some packets, which are the last ones that were sent. -/
def inForce (packets : List RtpPacket) : Quantization :=
  packets.foldl (fun sent packet => (Fragment.read sent packet).1) ⟨[], 0⟩

/-- What a packet behind some others holds of a scan. -/
def heldBy (packets : List RtpPacket) (packet : RtpPacket) : Fragment :=
  (Fragment.read (inForce packets) packet).2

/-- The piece of the scan in a fragment that can be used. -/
def Fragment.data? : Fragment → Option Bytes
  | first _ data | later _ data => some data
  | refused _ => none

/-- An image that is being gathered. -/
structure Gathering where
  timestamp : UInt32
  opening : Opening
  /-- The pieces of the scan, in the order in which they came. -/
  pieces : List Bytes

namespace Gathering

def scan (g : Gathering) : Bytes :=
  g.pieces.flatten

def append (g : Gathering) (data : Bytes) : Gathering :=
  { g with pieces := g.pieces ++ [data] }

def image (g : Gathering) : JpegImage :=
  ⟨g.opening.header ++ g.scan, g.scan.length⟩

theorem image_append (g : Gathering) (data : Bytes) :
    (g.append data).image = ⟨g.image.bytes ++ data, g.image.scanSize + data.length⟩ := by
  simp [image, scan, append]

end Gathering

/-- Behind some packets, a packet leaves this image. -/
inductive Gathered : List RtpPacket → RtpPacket → Gathering → Prop where
  | opens {packets : List RtpPacket} {packet : RtpPacket} {params : Params} {data : Bytes}
    (held : heldBy packets packet = .first params data) :
    Gathered packets packet
      ⟨packet.timestamp, ⟨params, inForce (packets ++ [packet])⟩, [data]⟩
  /-- A fragment lies where the scan ended. -/
  | prolongs {earlier : List RtpPacket} {previous packet : RtpPacket} {g : Gathering}
    {data : Bytes} (image : Gathered earlier previous g) (unmarked : previous.marker = false)
    (timestamp : packet.timestamp = g.timestamp)
    (held : heldBy (earlier ++ [previous]) packet = .later g.scan.length data) :
    Gathered (earlier ++ [previous]) packet (g.append data)
  /-- A packet that cannot be used is passed over. -/
  | passes {earlier : List RtpPacket} {previous packet : RtpPacket} {g : Gathering}
    {incidents : List Incident} (image : Gathered earlier previous g)
    (unmarked : previous.marker = false) (timestamp : packet.timestamp = g.timestamp)
    (held : heldBy (earlier ++ [previous]) packet = .refused incidents) :
    Gathered (earlier ++ [previous]) packet g

/-- Behind some packets, this image is still open. -/
def IsOpen (packets : List RtpPacket) (g : Gathering) : Prop :=
  ∃ earlier previous, packets = earlier ++ [previous] ∧ previous.marker = false
    ∧ Gathered earlier previous g

theorem isOpen_append_singleton {packets : List RtpPacket} {packet : RtpPacket} {g : Gathering} :
    IsOpen (packets ++ [packet]) g ↔ packet.marker = false ∧ Gathered packets packet g := by
  constructor
  · rintro ⟨earlier, previous, heq, hmarker, hgathered⟩
    obtain ⟨rfl, hlast⟩ := List.append_inj' heq rfl
    obtain rfl := (List.cons.inj hlast).1
    exact ⟨hmarker, hgathered⟩
  · rintro ⟨hmarker, hgathered⟩
    exact ⟨packets, packet, rfl, hmarker, hgathered⟩

theorem inForce_append_singleton (packets : List RtpPacket) (packet : RtpPacket) :
    inForce (packets ++ [packet]) = (Fragment.read (inForce packets) packet).1 := by
  simp [inForce]

/-- An image has the timestamp of the packet that leaves it. -/
theorem Gathered.timestamp_eq {packets : List RtpPacket} {packet : RtpPacket} {g : Gathering}
    (h : Gathered packets packet g) : packet.timestamp = g.timestamp := by
  cases h with
  | opens held => rfl
  | prolongs image unmarked timestamp held => exact timestamp
  | passes image unmarked timestamp held => exact timestamp

/-- The packet that leaves an image holds the last piece of its scan, or nothing that can be used;
then the image was open before. -/
theorem Gathered.last_piece {packets : List RtpPacket} {packet : RtpPacket} {g : Gathering}
    (h : Gathered packets packet g) :
    (∃ data, (heldBy packets packet).data? = some data ∧ g.pieces.getLast? = some data)
      ∨ ∃ incidents, heldBy packets packet = .refused incidents ∧ IsOpen packets g := by
  cases h with
  | opens held => exact .inl ⟨_, by rw [held]; rfl, rfl⟩
  | prolongs image unmarked timestamp held =>
    exact .inl ⟨_, by rw [held]; rfl, by simp [Gathering.append]⟩
  | passes image unmarked timestamp held =>
    exact .inr ⟨_, held, isOpen_append_singleton.2 ⟨unmarked, image⟩⟩

section

variable {packets : List RtpPacket} {packet : RtpPacket} {g : Gathering}

theorem gathered_iff_of_first {params : Params} {data : Bytes}
    (held : heldBy packets packet = .first params data) :
    Gathered packets packet g
      ↔ g = ⟨packet.timestamp, ⟨params, inForce (packets ++ [packet])⟩, [data]⟩ := by
  constructor
  · intro h
    cases h with
    | opens held' =>
      obtain ⟨rfl, rfl⟩ := Fragment.first.inj (held.symm.trans held')
      rfl
    | prolongs _ _ _ held' => cases held.symm.trans held'
    | passes _ _ _ held' => cases held.symm.trans held'
  · rintro rfl
    exact .opens held

theorem gathered_iff_of_later {offset : Nat} {data : Bytes}
    (held : heldBy packets packet = .later offset data) :
    Gathered packets packet g
      ↔ ∃ before, IsOpen packets before ∧ packet.timestamp = before.timestamp
        ∧ offset = before.scan.length ∧ g = before.append data := by
  constructor
  · intro h
    cases h with
    | opens held' => cases held.symm.trans held'
    | prolongs image unmarked timestamp held' =>
      obtain ⟨rfl, rfl⟩ := Fragment.later.inj (held.symm.trans held')
      exact ⟨_, isOpen_append_singleton.2 ⟨unmarked, image⟩, timestamp, rfl, rfl⟩
    | passes _ _ _ held' => cases held.symm.trans held'
  · rintro ⟨before, ⟨earlier, previous, rfl, unmarked, image⟩, timestamp, rfl, rfl⟩
    exact .prolongs image unmarked timestamp held

theorem gathered_iff_of_refused {incidents : List Incident}
    (held : heldBy packets packet = .refused incidents) :
    Gathered packets packet g ↔ IsOpen packets g ∧ packet.timestamp = g.timestamp := by
  constructor
  · intro h
    cases h with
    | opens held' => cases held.symm.trans held'
    | prolongs _ _ _ held' => cases held.symm.trans held'
    | passes image unmarked timestamp held' =>
      exact ⟨isOpen_append_singleton.2 ⟨unmarked, image⟩, timestamp⟩
  · rintro ⟨⟨earlier, previous, rfl, unmarked, image⟩, timestamp⟩
    exact .passes image unmarked timestamp held

end

/-! ## What the depacketizer holds -/

namespace Uncached

theorem foldl_count_frame (u : Uncached) (incidents : List Incident) :
    (incidents.foldl count u).image = u.image ∧ (incidents.foldl count u).timestamp = u.timestamp
      ∧ (incidents.foldl count u).sent = u.sent := by
  induction incidents generalizing u with
  | nil => exact ⟨rfl, rfl, rfl⟩
  | cons incident incidents ih => exact ih (u.count incident)

theorem push_frame (u : Uncached) (fragment : Fragment) :
    (u.push fragment).timestamp = u.timestamp ∧ (u.push fragment).sent = u.sent := by
  cases fragment with
  | first params data => exact ⟨rfl, rfl⟩
  | later offset data =>
    unfold push
    dsimp only
    split
    · exact ⟨rfl, rfl⟩
    · split <;> exact ⟨rfl, rfl⟩
  | refused incidents => exact (u.foldl_count_frame incidents).2

theorem begin_frame (u : Uncached) (timestamp : UInt32) :
    (u.begin timestamp).timestamp = some timestamp ∧ (u.begin timestamp).sent = u.sent := by
  unfold begin
  split <;> exact ⟨rfl, rfl⟩

theorem accept_frame (u : Uncached) (packet : RtpPacket) :
    (u.accept packet).timestamp = some packet.timestamp
      ∧ (u.accept packet).sent = (Fragment.read u.sent packet).1 := by
  obtain ⟨htimestamp, hsent⟩ := u.begin_frame packet.timestamp
  unfold accept
  dsimp only
  rw [hsent]
  exact ⟨(push_frame _ _).1.trans htimestamp, (push_frame _ _).2⟩

/-- The image behind a packet, by what the packet holds. -/
theorem image_accept (u : Uncached) (packet : RtpPacket) :
    (u.accept packet).image =
      match (Fragment.read u.sent packet).2 with
      | .first params data =>
        some ⟨headerFor params (Fragment.read u.sent packet).1 ++ data, data.length⟩
      | .later offset data =>
        (u.begin packet.timestamp).image.bind fun image =>
          if offset = image.scanSize then
            some ⟨image.bytes ++ data, image.scanSize + data.length⟩
          else none
      | .refused _ => (u.begin packet.timestamp).image := by
  have hsent := (u.begin_frame packet.timestamp).2
  unfold accept
  dsimp only
  rw [hsent]
  cases (Fragment.read u.sent packet).2 with
  | first params data => rfl
  | later offset data =>
    unfold push
    dsimp only
    split
    next himage =>
      rw [himage]
      rfl
    next image himage =>
      rw [himage, Option.bind_some]
      split <;> rfl
  | refused incidents => exact (foldl_count_frame _ incidents).1

/-- Behind these packets, the image that is open in them is held, and no other. -/
structure Holds (packets : List RtpPacket) (u : Uncached) : Prop where
  sent : u.sent = inForce packets
  image : ∀ image, u.image = some image ↔ ∃ g, IsOpen packets g ∧ image = g.image
  timestamp : ∀ g, IsOpen packets g → u.timestamp = some g.timestamp

namespace Holds

variable {packets : List RtpPacket} {u : Uncached}

theorem empty : Holds [] {} where
  sent := rfl
  image image := by
    refine iff_of_false (by simp) ?_
    rintro ⟨g, ⟨earlier, previous, heq, -⟩, -⟩
    simp at heq
  timestamp g := by
    rintro ⟨earlier, previous, heq, -⟩
    simp at heq

/-- The image that a packet finds is the open one, if it has the packet's timestamp. -/
theorem image_begin (h : Holds packets u) (timestamp : UInt32) (image : JpegImage) :
    (u.begin timestamp).image = some image
      ↔ ∃ g, IsOpen packets g ∧ timestamp = g.timestamp ∧ image = g.image := by
  unfold begin
  split
  next hstale =>
    refine iff_of_false (by simp) ?_
    rintro ⟨g, hopen, rfl, -⟩
    rw [h.timestamp g hopen] at hstale
    simp at hstale
  next hfresh =>
    rw [h.image]
    constructor
    · rintro ⟨g, hopen, rfl⟩
      have himage : u.image.isSome := by rw [(h.image _).2 ⟨g, hopen, rfl⟩]; rfl
      rw [h.timestamp g hopen] at hfresh
      have hsame : g.timestamp = timestamp := by simpa [himage] using hfresh
      exact ⟨g, hopen, hsame.symm, rfl⟩
    · rintro ⟨g, hopen, -, rfl⟩
      exact ⟨g, hopen, rfl⟩

/-- The image behind a packet is the one that the packet leaves. -/
theorem image_accept (h : Holds packets u) (packet : RtpPacket) (image : JpegImage) :
    (u.accept packet).image = some image ↔ ∃ g, Gathered packets packet g ∧ image = g.image := by
  have hheld : (Fragment.read u.sent packet).2 = heldBy packets packet := by rw [h.sent]; rfl
  have hforce : (Fragment.read u.sent packet).1 = inForce (packets ++ [packet]) := by
    rw [h.sent, inForce_append_singleton]
  rw [Uncached.image_accept, hheld, hforce]
  cases hread : heldBy packets packet with
  | first params data =>
    simp only [gathered_iff_of_first hread, exists_eq_left]
    simp [Gathering.image, Gathering.scan, Opening.header, eq_comm]
  | later offset data =>
    simp only [gathered_iff_of_later hread]
    constructor
    · intro hbind
      obtain ⟨found, hfound, heq⟩ := Option.bind_eq_some_iff.1 hbind
      obtain ⟨before, hopen, htimestamp, rfl⟩ := (h.image_begin _ _).1 hfound
      split at heq
      next hoffset =>
        refine ⟨before.append data, ⟨before, hopen, htimestamp, hoffset, rfl⟩, ?_⟩
        rw [before.image_append, Option.some.inj heq]
      next => cases heq
    · rintro ⟨_, ⟨before, hopen, htimestamp, rfl, rfl⟩, rfl⟩
      have hfound := (h.image_begin _ _).2 ⟨before, hopen, htimestamp, rfl⟩
      rw [hfound, Option.bind_some, before.image_append]
      exact if_pos rfl
  | refused incidents =>
    simp only [gathered_iff_of_refused hread, h.image_begin, and_assoc]

theorem process (h : Holds packets u) (packet : RtpPacket) :
    Holds (packets ++ [packet]) (u.process packet).1 := by
  obtain ⟨htimestamp, hsent⟩ := u.accept_frame packet
  have hforce : (u.accept packet).sent = inForce (packets ++ [packet]) := by
    rw [hsent, h.sent, inForce_append_singleton]
  unfold Uncached.process
  dsimp only
  cases hmarker : packet.marker with
  | true =>
    rw [if_pos rfl]
    have hclosed : ∀ g, ¬IsOpen (packets ++ [packet]) g := by
      intro g hopen
      rw [isOpen_append_singleton, hmarker] at hopen
      exact absurd hopen.1 (by decide)
    have hfinish : ((u.accept packet).finish packet.timestamp).1.image = none
        ∧ ((u.accept packet).finish packet.timestamp).1.sent = (u.accept packet).sent := by
      unfold finish
      split
      next himage => exact ⟨himage, rfl⟩
      next => exact ⟨rfl, rfl⟩
    refine ⟨hfinish.2.trans hforce, fun image => ?_, fun g hopen => absurd hopen (hclosed g)⟩
    rw [hfinish.1]
    exact iff_of_false (by simp) fun ⟨g, hopen, _⟩ => hclosed g hopen
  | false =>
    rw [if_neg (by decide)]
    refine ⟨hforce, fun image => ?_, fun g hopen => ?_⟩
    · simp only [h.image_accept, isOpen_append_singleton, hmarker, true_and]
    · rw [htimestamp, (isOpen_append_singleton.1 hopen).2.timestamp_eq]

end Holds

theorem holds_feed {before : List RtpPacket} {u : Uncached} (h : Holds before u)
    (packets : List RtpPacket) :
    Holds (before ++ packets) (feed process u packets).1 := by
  induction packets generalizing before u with
  | nil => rwa [List.append_nil]
  | cons packet packets ih =>
    rw [List.append_cons]
    exact ih (h.process packet)

/-- A marked packet hands out the image that is behind it. -/
theorem process_eq_some_iff (u : Uncached) (packet : RtpPacket) (frame : MediaFrame) :
    (u.process packet).2 = some frame ↔ packet.marker = true
      ∧ ∃ image, (u.accept packet).image = some image
        ∧ frame = ⟨packet.timestamp, [complete image.bytes]⟩ := by
  unfold process finish
  dsimp only
  cases packet.marker with
  | false => simp
  | true => cases (u.accept packet).image <;> simp [eq_comm]

end Uncached

/-! ## Frames -/

/-- The end marker is looked for behind the header alone. -/
theorem complete_header_append (o : Opening) (scan : Bytes) :
    complete (o.header ++ scan) = o.header ++ complete scan := by
  have hsuffix : endOfImage.isSuffixOf (o.header ++ scan) = endOfImage.isSuffixOf scan := by
    cases scan with
    | nil =>
      obtain ⟨front, hfront⟩ := exists_headerFor_eq o.params o.quantization
      rw [List.append_nil, Opening.header, hfront, Bool.eq_iff_iff, List.isSuffixOf_iff_suffix]
      refine iff_of_false ?_ (by decide)
      rintro ⟨before, hbefore⟩
      have hlast := congrArg List.getLast? hbefore
      simp [endOfImage] at hlast
    | cons b bs => exact isSuffixOf_headerFor o.params o.quantization (by simp)
  unfold complete
  rw [hsuffix, List.append_assoc]
  split <;> rfl

/-- A frame comes out with a marked packet that leaves an image, and it is that image. -/
theorem process_eq_some_iff (packets : List RtpPacket) (packet : RtpPacket) (frame : MediaFrame) :
    ((feed process {} packets).1.process packet).2 = some frame
      ↔ packet.marker = true ∧ ∃ g, Gathered packets packet g
        ∧ frame = ⟨packet.timestamp, [g.opening.header ++ complete g.scan]⟩ := by
  have hagrees : Agrees (feed process {} packets).1 (feed Uncached.process {} packets).1 :=
    agrees_feed agrees_empty packets
  have hholds : Uncached.Holds packets (feed Uncached.process {} packets).1 :=
    Uncached.holds_feed Uncached.Holds.empty packets
  rw [(hagrees.process packet).2, Uncached.process_eq_some_iff]
  simp only [hholds.image_accept]
  refine and_congr_right fun _ => ?_
  constructor
  · rintro ⟨_, ⟨g, hgathered, rfl⟩, rfl⟩
    exact ⟨g, hgathered, by rw [Gathering.image, complete_header_append]⟩
  · rintro ⟨g, hgathered, rfl⟩
    exact ⟨_, ⟨g, hgathered, rfl⟩, by rw [Gathering.image, complete_header_append]⟩

/-- Whatever packets came before, a marked packet hands out exactly the image that it leaves: the
header, and the scan in pieces that lie one behind the other from offset zero on. The last piece is
that of the marked packet, unless that packet cannot be used and finds an open image. -/
theorem process_gathered (packets : List RtpPacket) (packet : RtpPacket) (frame : MediaFrame) :
    ((feed process {} packets).1.process packet).2 = some frame
      ↔ packet.marker = true ∧ ∃ g, Gathered packets packet g
        ∧ frame = ⟨packet.timestamp, [g.opening.header ++ complete g.scan]⟩
        ∧ ((∃ data, (heldBy packets packet).data? = some data ∧ g.pieces.getLast? = some data)
          ∨ ∃ incidents, heldBy packets packet = .refused incidents ∧ IsOpen packets g) := by
  rw [process_eq_some_iff]
  refine and_congr_right fun _ => exists_congr fun g => and_congr_right fun hgathered => ?_
  exact (and_iff_left hgathered.last_piece).symm

/-- A payload of three bytes holds nothing of a scan. With a marker it completes the image that its
timestamp left open, which is counted as a frame. -/
theorem process_refused_completes :
    let packet (marker : Bool) (payload : Bytes) : RtpPacket :=
      { marker, payloadType := 96, sequence := 7, timestamp := 90, ssrc := 1, payload }
    let first := packet false [0, 0, 0, 0, 1, 50, 8, 6, 0x12, 0x34]
    let short := packet true [0, 0, 0]
    let header := headerFor ⟨1, 50, 64, 48, 0⟩ ⟨[], 0⟩
    let run := feed process {} [first, short]
    heldBy [first] short = .refused [.malformed]
      ∧ run.2 = [none, some ⟨90, [header ++ [0x12, 0x34, 0xFF, 0xD9]]⟩]
      ∧ run.1.tally = { frames := 1, malformed := 1 } := by
  decide +kernel

end Rtsp.Jpeg
