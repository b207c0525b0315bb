-- SUMMARY: What becomes of the interleaved frames that a player receives.
import Rtsp.Proofs.Depacketizer.Count
import Rtsp.Proofs.Player.Record
import Mathlib.Data.List.ReduceOption

/-!
# Media

Of a player only its tracks, its count of frames, and the lines of its log about frames have to do
with media. What interleaved frames do to these is described track by track (`Media.fed`): each
track is fed the packets of its channel. A player whose tracks have different channels does just
that with every event (`Player.media_receive`).
-/

namespace Rtsp

/-! ## Channels -/

/-- The payload that an event brings on a channel. -/
def Event.payload? (channel : UInt8) : Event → Option Bytes
  | .data f => if f.channel = channel then some f.payload else none
  | _ => none

def payloadsOn (channel : UInt8) (events : List Event) : List Bytes :=
  events.filterMap (Event.payload? channel)

/-- The payloads on a channel that are RTP packets. -/
def packetsOn (channel : UInt8) (events : List Event) : List RtpPacket :=
  (payloadsOn channel events).filterMap RtpPacket.read?

theorem packetsOn_append (channel : UInt8) (events events' : List Event) :
    packetsOn channel (events ++ events')
      = packetsOn channel events ++ packetsOn channel events' := by
  simp [packetsOn, payloadsOn, List.filterMap_append]

theorem packetsOn_data (channel : UInt8) (data : Interleaved) :
    packetsOn channel [.data data]
      = if channel = data.channel then (RtpPacket.read? data.payload).toList else [] := by
  unfold packetsOn payloadsOn Event.payload?
  by_cases h : data.channel = channel
  · cases hread : RtpPacket.read? data.payload <;> simp [h, hread]
  · simp [h, Ne.symm h]

/-! ## One track -/

namespace Track

/-- The track once it has been given some packets. -/
def fed (t : Track) (packets : List RtpPacket) : Track :=
  { t with depacketizer := (feed Depacketizer.process t.depacketizer packets).1 }

/-- The frames that the packets complete. -/
def emits (t : Track) (packets : List RtpPacket) : List MediaFrame :=
  (feed Depacketizer.process t.depacketizer packets).2.reduceOption

/-- The line in the log for a frame. -/
def line (t : Track) (frame : MediaFrame) : LogLine :=
  .frame t.channel t.depacketizer.name frame.timestamp frame.units.length frame.size

variable (t : Track)

@[simp] theorem fed_nil : t.fed [] = t :=
  rfl

@[simp] theorem emits_nil : t.emits [] = [] :=
  rfl

@[simp] theorem channel_fed (packets : List RtpPacket) : (t.fed packets).channel = t.channel :=
  rfl

theorem fed_append (packets packets' : List RtpPacket) :
    t.fed (packets ++ packets') = (t.fed packets).fed packets' := by
  unfold fed
  rw [feed_append]

theorem emits_append (packets packets' : List RtpPacket) :
    t.emits (packets ++ packets') = t.emits packets ++ (t.fed packets).emits packets' := by
  unfold emits fed
  rw [feed_append, List.reduceOption_append]

theorem emits_singleton (packet : RtpPacket) :
    t.emits [packet] = (t.depacketizer.process packet).2.toList := by
  simp only [emits, feed]
  cases (t.depacketizer.process packet).2 <;> rfl

theorem name_fed (packets : List RtpPacket) :
    (t.fed packets).depacketizer.name = t.depacketizer.name := by
  induction packets generalizing t with
  | nil => rfl
  | cons packet packets ih => exact (ih (t.fed [packet])).trans (t.depacketizer.name_process packet)

/-- Packets do not change how frames are logged. -/
theorem line_fed (packets : List RtpPacket) : (t.fed packets).line = t.line := by
  unfold line
  rw [name_fed, channel_fed]

end Track

/-! ## All tracks -/

/-- Whether a line is about a frame on a channel. -/
def LogLine.isFrameOn (channel : UInt8) : LogLine → Bool
  | .frame c _ _ _ _ => c == channel
  | _ => false

theorem Track.isFrameOn_line (t : Track) (frame : MediaFrame) (channel : UInt8) :
    (t.line frame).isFrameOn channel = (t.channel == channel) :=
  rfl

/-- What a player knows about media. -/
@[ext] structure Media where
  tracks : List Track
  /-- The number of frames. -/
  frames : Nat
  /-- The lines of the log about frames, by channel. -/
  lines : UInt8 → List LogLine

namespace Media

/-- No two tracks have the same channel. -/
def IsDistinct (m : Media) : Prop :=
  (m.tracks.map (·.channel)).Nodup

/-- The frames are those that the tracks have counted. -/
def IsBalanced (m : Media) : Prop :=
  m.frames = (m.tracks.map (·.depacketizer.tally.frames)).sum

/-- The first track with this channel. -/
def track? (m : Media) (channel : UInt8) : Option Track :=
  m.tracks.find? (·.channel == channel)

/-- The frames that events complete on a channel. -/
def emits (m : Media) (channel : UInt8) (events : List Event) : List MediaFrame :=
  (m.track? channel).elim [] fun t => t.emits (packetsOn channel events)

/-- The lines about them. -/
def linesOf (m : Media) (channel : UInt8) (events : List Event) : List LogLine :=
  (m.track? channel).elim [] fun t => (t.emits (packetsOn channel events)).map t.line

/-- How many frames events complete on all channels. -/
def count (m : Media) (events : List Event) : Nat :=
  (m.tracks.map fun t => (t.emits (packetsOn t.channel events)).length).sum

/-- Every track has been given the packets of its channel. -/
def fed (m : Media) (events : List Event) : Media where
  tracks := m.tracks.map fun t => t.fed (packetsOn t.channel events)
  frames := m.frames + m.count events
  lines channel := m.lines channel ++ m.linesOf channel events

variable {m : Media}

theorem mem_of_track? {channel : UInt8} {t : Track} (h : m.track? channel = some t) :
    t ∈ m.tracks ∧ t.channel = channel :=
  ⟨List.mem_of_find?_eq_some h, by simpa using List.find?_some h⟩

theorem track?_fed (m : Media) (events : List Event) (channel : UInt8) :
    (m.fed events).track? channel
      = (m.track? channel).map fun t => t.fed (packetsOn channel events) := by
  unfold track? fed
  dsimp only
  rw [List.find?_map]
  change (m.track? channel).map _ = (m.track? channel).map _
  cases htrack : m.track? channel with
  | none => rfl
  | some t => rw [Option.map_some, Option.map_some, (mem_of_track? htrack).2]

/-! ### Feeding in parts -/

section

variable (m : Media) (channel : UInt8) (events events' : List Event)

theorem emits_append :
    m.emits channel (events ++ events')
      = m.emits channel events ++ (m.fed events).emits channel events' := by
  unfold emits
  rw [track?_fed, packetsOn_append]
  cases m.track? channel with
  | none => rfl
  | some t => exact t.emits_append _ _

theorem linesOf_append :
    m.linesOf channel (events ++ events')
      = m.linesOf channel events ++ (m.fed events).linesOf channel events' := by
  unfold linesOf
  rw [track?_fed, packetsOn_append]
  cases m.track? channel with
  | none => rfl
  | some t =>
    dsimp only [Option.map_some, Option.elim_some]
    rw [t.emits_append, List.map_append, t.line_fed]

theorem count_append :
    m.count (events ++ events') = m.count events + (m.fed events).count events' := by
  unfold count fed
  dsimp only
  induction m.tracks with
  | nil => rfl
  | cons t tracks ih =>
    have hfirst : (t.emits (packetsOn t.channel (events ++ events'))).length
        = (t.emits (packetsOn t.channel events)).length
          + ((t.fed (packetsOn t.channel events)).emits (packetsOn t.channel events')).length := by
      rw [packetsOn_append, t.emits_append, List.length_append]
    simp only [List.map_cons, List.sum_cons]
    rw [ih, hfirst]
    exact Nat.add_add_add_comm _ _ _ _

/-- Feeding goes on where it has stopped. -/
theorem fed_append : m.fed (events ++ events') = (m.fed events).fed events' := by
  refine Media.ext ?_ ?_ (funext fun channel => ?_)
  · simp [fed, packetsOn_append, Track.fed_append]
  · exact (congrArg (m.frames + ·) (m.count_append events events')).trans (Nat.add_assoc _ _ _).symm
  · exact (congrArg (m.lines channel ++ ·) (m.linesOf_append channel events events')).trans
      (List.append_assoc _ _ _).symm

end

theorem emits_of_silent {channel : UInt8} {events : List Event}
    (h : packetsOn channel events = []) : m.emits channel events = [] := by
  unfold emits
  cases m.track? channel <;> simp [h]

theorem linesOf_of_silent {channel : UInt8} {events : List Event}
    (h : packetsOn channel events = []) : m.linesOf channel events = [] := by
  unfold linesOf
  cases m.track? channel <;> simp [h]

theorem fed_of_silent {events : List Event} (h : ∀ channel, packetsOn channel events = []) :
    m.fed events = m := by
  refine Media.ext ?_ ?_ (funext fun channel => ?_)
  · simp [fed, h]
  · simp [fed, count, h]
  · exact (congrArg (m.lines channel ++ ·) (linesOf_of_silent (h channel))).trans
      (List.append_nil _)

/-- What is fed is decided by the packets on the channels of the tracks. -/
theorem fed_congr {events events' : List Event}
    (h : ∀ t ∈ m.tracks, packetsOn t.channel events = packetsOn t.channel events') :
    m.fed events = m.fed events' := by
  refine Media.ext ?_ ?_ (funext fun channel => ?_)
  · exact List.map_congr_left fun t ht => by rw [h t ht]
  · have hcount : m.count events = m.count events' :=
      congrArg List.sum (List.map_congr_left fun t ht => by rw [h t ht])
    exact congrArg (m.frames + ·) hcount
  · have hlines : m.linesOf channel events = m.linesOf channel events' := by
      unfold linesOf
      cases htrack : m.track? channel with
      | none => rfl
      | some t =>
        obtain ⟨ht, rfl⟩ := mem_of_track? htrack
        rw [h t ht]
    exact congrArg (m.lines channel ++ ·) hlines

/-! ### Different channels -/

theorem IsDistinct.fed (h : m.IsDistinct) (events : List Event) : (m.fed events).IsDistinct := by
  unfold IsDistinct Media.fed
  rw [List.map_map]
  exact h

theorem IsDistinct.track?_eq (h : m.IsDistinct) {t : Track} (ht : t ∈ m.tracks) :
    m.track? t.channel = some t := by
  cases htrack : m.track? t.channel with
  | none => exact absurd (List.find?_eq_none.1 htrack t ht) (by simp)
  | some u =>
    obtain ⟨hu, hchannel⟩ := mem_of_track? htrack
    rw [List.inj_on_of_nodup_map h hu ht hchannel]

/-- The frames on all channels are those on the channel of the only event. -/
theorem IsDistinct.count_data (h : m.IsDistinct) (data : Interleaved) :
    m.count [.data data] = (m.emits data.channel [.data data]).length := by
  obtain ⟨tracks, frames, lines⟩ := m
  unfold IsDistinct at h
  unfold count emits track?
  dsimp only at h ⊢
  induction tracks with
  | nil => rfl
  | cons t tracks ih =>
    rw [List.map_cons, List.nodup_cons] at h
    by_cases hchannel : t.channel = data.channel
    · have hothers : ∀ u ∈ tracks, (u.emits (packetsOn u.channel [.data data])).length = 0 := by
        intro u hu
        rw [packetsOn_data, if_neg, Track.emits_nil, List.length_nil]
        intro heq
        exact h.1 (List.mem_map.2 ⟨u, hu, heq.trans hchannel.symm⟩)
      rw [List.find?_cons_of_pos (by simpa using hchannel), List.map_cons, List.sum_cons,
        List.map_congr_left hothers, hchannel]
      simp
    · have hsilent : packetsOn t.channel [.data data] = [] := by
        rw [packetsOn_data, if_neg hchannel]
      rw [List.find?_cons_of_neg (by simpa using hchannel), List.map_cons, List.sum_cons, hsilent,
        Track.emits_nil, ih h.2, List.length_nil, Nat.zero_add]

theorem IsDistinct.emits_eq (h : m.IsDistinct) {t : Track} (ht : t ∈ m.tracks)
    (events : List Event) :
    m.emits t.channel events = t.emits (packetsOn t.channel events) := by
  unfold emits
  rw [h.track?_eq ht]
  rfl

end Media

/-! ## Receiving -/

namespace Player

def media (p : Player) : Media where
  tracks := p.tracks
  frames := p.frames
  lines channel := p.log.filter (·.isFrameOn channel)

section

variable (channel : UInt8) (packet : RtpPacket)

/-- A packet goes to the first track with its channel. -/
theorem feedTrack_emitted (tracks : List Track) :
    (feedTrack channel packet tracks).2
      = (tracks.find? (·.channel == channel)).bind fun t =>
        (t.depacketizer.process packet).2.map fun frame => (t.fed [packet], frame) := by
  induction tracks with
  | nil => rfl
  | cons t tracks ih =>
    unfold feedTrack
    by_cases h : t.channel = channel
    · rw [if_pos h, List.find?_cons_of_pos (by simpa using h)]
      rfl
    · rw [if_neg h, List.find?_cons_of_neg (by simpa using h)]
      exact ih

/-- Where no two tracks have its channel, it goes to all tracks with the channel. -/
theorem feedTrack_tracks {tracks : List Track} (h : (tracks.map (·.channel)).Nodup) :
    (feedTrack channel packet tracks).1
      = tracks.map fun t => t.fed (if t.channel = channel then [packet] else []) := by
  induction tracks with
  | nil => rfl
  | cons t tracks ih =>
    rw [List.map_cons, List.nodup_cons] at h
    unfold feedTrack
    by_cases hchannel : t.channel = channel
    · have hothers : ∀ u ∈ tracks, u.fed (if u.channel = channel then [packet] else []) = u := by
        intro u hu
        rw [if_neg, Track.fed_nil]
        rintro rfl
        exact h.1 (List.mem_map.2 ⟨u, hu, hchannel.symm⟩)
      rw [if_pos hchannel, List.map_cons, if_pos hchannel, List.map_congr_left hothers,
        List.map_id']
      rfl
    · rw [if_neg hchannel, List.map_cons, if_neg hchannel, Track.fed_nil]
      exact congrArg (t :: ·) (ih h.2)

end

variable {p : Player}

/-- The frame on an interleaved frame is that of its channel. -/
theorem toList_frame? (p : Player) (data : Interleaved) :
    (p.frame? data).toList = p.media.emits data.channel [.data data] := by
  unfold frame? RtpPacket.parse Media.emits
  rw [packetsOn_data, if_pos rfl]
  cases RtpPacket.read? data.payload with
  | none => cases p.media.track? data.channel <;> rfl
  | some packet =>
    dsimp only
    rw [feedTrack_emitted]
    change _ = (p.tracks.find? (·.channel == data.channel)).elim [] fun t => t.emits [packet]
    cases p.tracks.find? (·.channel == data.channel) with
    | none => rfl
    | some t =>
      rw [Option.bind_some, Option.elim_some, t.emits_singleton]
      cases (t.depacketizer.process packet).2 <;> rfl

/-- The line about a frame is on the channel that the frame came on. -/
theorem linesOf_data (p : Player) {data : Interleaved} {packet : RtpPacket}
    (hread : RtpPacket.read? data.payload = some packet) (channel : UInt8) :
    p.media.linesOf channel [.data data]
      = ((feedTrack data.channel packet p.tracks).2.toList.map fun e => e.1.line e.2).filter
        (·.isFrameOn channel) := by
  rw [feedTrack_emitted]
  change _ = (((p.media.track? data.channel).bind _).toList.map _).filter _
  by_cases hchannel : channel = data.channel
  · have hpackets : packetsOn channel [.data data] = [packet] := by
      rw [packetsOn_data, if_pos hchannel, hread]
      rfl
    unfold Media.linesOf
    rw [hpackets, hchannel]
    cases htrack : p.media.track? data.channel with
    | none => rfl
    | some t =>
      have ht := (Media.mem_of_track? htrack).2
      rw [Option.elim_some, Option.bind_some, t.emits_singleton]
      cases (t.depacketizer.process packet).2 with
      | none => rfl
      | some frame => simp [Track.line_fed, Track.isFrameOn_line, ht]
  · have hpackets : packetsOn channel [.data data] = [] := by
      rw [packetsOn_data, if_neg hchannel]
    rw [Media.linesOf_of_silent hpackets]
    cases htrack : p.media.track? data.channel with
    | none => rfl
    | some t =>
      have ht := (Media.mem_of_track? htrack).2
      rw [Option.bind_some]
      cases (t.depacketizer.process packet).2 with
      | none => rfl
      | some frame => simp [Track.line_fed, Track.isFrameOn_line, ht, Ne.symm hchannel]

theorem media_say {line : LogLine} (h : ∀ channel, line.isFrameOn channel = false) (p : Player) :
    (p.say line).media = p.media := by
  unfold media say
  simp [List.filter_append, h]

/-- An interleaved frame goes to the track of its channel and to no other. -/
theorem media_receive {p : Player} (h : p.media.IsDistinct) (data : Interleaved) :
    (p.receive data).media = p.media.fed [.data data] := by
  unfold receive
  split
  next hall =>
    -- Without a track nothing happens, whatever the payload is.
    have hsilent : ∀ t ∈ p.media.tracks,
        packetsOn t.channel [.data data] = packetsOn t.channel [] := by
      intro t ht
      have hne : t.channel ≠ data.channel := by simpa using List.all_eq_true.1 hall t ht
      rw [packetsOn_data, if_neg hne]
      rfl
    rw [Media.fed_congr hsilent]
    exact (Media.fed_of_silent fun _ => rfl).symm
  next =>
    unfold RtpPacket.parse
    cases hread : RtpPacket.read? data.payload with
    | none =>
      have hsilent : ∀ channel, packetsOn channel [.data data] = [] := by
        intro channel
        rw [packetsOn_data, hread]
        exact ite_self _
      rw [Media.fed_of_silent hsilent]
      exact media_say (fun _ => rfl) p
    | some packet =>
      have htracks : (feedTrack data.channel packet p.tracks).1
          = (p.media.fed [.data data]).tracks := by
        refine (feedTrack_tracks data.channel packet h).trans (List.map_congr_left fun t _ => ?_)
        rw [packetsOn_data, hread]
        rfl
      have hcount : p.media.count [.data data]
          = (feedTrack data.channel packet p.tracks).2.toList.length := by
        have hframe : p.frame? data = (feedTrack data.channel packet p.tracks).2.map (·.2) := by
          unfold frame? RtpPacket.parse
          rw [hread]
        rw [h.count_data, ← toList_frame?, hframe]
        cases (feedTrack data.channel packet p.tracks).2 <;> rfl
      have hlines := p.linesOf_data hread
      dsimp only
      cases hfed : feedTrack data.channel packet p.tracks with
      | mk tracks emitted =>
        rw [hfed] at htracks hcount hlines
        cases emitted with
        | none =>
          refine Media.ext htracks ?_ (funext fun channel => ?_)
          · exact (congrArg (p.frames + ·) hcount).symm
          · exact ((congrArg (p.media.lines channel ++ ·) (hlines channel)).trans
              (List.append_nil _)).symm
        | some emitted =>
          refine Media.ext htracks ?_ (funext fun channel => ?_)
          · exact (congrArg (p.frames + ·) hcount).symm
          · refine (List.filter_append _ _).trans ?_
            exact (congrArg (p.media.lines channel ++ ·) (hlines channel)).symm

end Player
end Rtsp
