-- SUMMARY: The tracks of a player that is set up do not interfere with each other.
import Rtsp.Proofs.Player.Media

/-!
# Independent tracks

Once all tracks are set up, a player changes its media only by taking an interleaved frame
(`Player.keeps_step`). So a run does to each track what the packets of its channel do, and nothing
on one channel can be told from another one (`Player.tracks_apart`).
-/

namespace Rtsp

/-- Whether all tracks are set up by the time of such a request. -/
def Purpose.FollowsSetUp : Purpose → Prop
  | .play _ _ | .teardown _ => True
  | _ => False

/-- The frames that are emitted in a turn on a channel. -/
def Record.emittedOn (channel : UInt8) (r : Record) : List MediaFrame :=
  match r.taken? with
  | some (.data data) => if data.channel = channel then (r.before.frame? data).toList else []
  | _ => []

namespace Player

/-- No further track is going to be set up. -/
def IsSetUp (p : Player) : Prop :=
  ∀ request purpose, p.phase = .waiting request purpose → purpose.FollowsSetUp

/-- The turn leaves the media of the player as they are, unless it is about setting up and adds a
track. -/
structure Keeps (p : Player) (t : Turn) : Prop where
  media : t.player.media = p.media
    ∨ ¬p.IsSetUp ∧ ∃ track : Track, track.depacketizer.tally = {}
      ∧ t.player.media = { p.media with tracks := p.media.tracks ++ [track] }
  isSetUp : p.IsSetUp → t.player.IsSetUp

variable {p : Player}

theorem isSetUp_of_ended (h : p.result?.isSome) : p.IsSetUp := by
  intro request purpose phase
  rw [result?_of_waiting phase] at h
  cases h

theorem isSetUp_of_streaming {url : String} (h : p.phase = .streaming url) : p.IsSetUp :=
  fun _ _ phase => nomatch h.symm.trans phase

theorem isSetUp_congr {q : Player} (h : q.phase = p.phase) : q.IsSetUp ↔ p.IsSetUp := by
  unfold IsSetUp
  rw [h]

/-! ## Turns that are not about media -/

theorem keeps_self (p : Player) (written : Option Bytes) : p.Keeps ⟨p, written⟩ :=
  ⟨.inl rfl, id⟩

/-- A player with the same media in the same phase will do. -/
theorem Keeps.of_media {q : Player} {t : Turn} (h : q.Keeps t) (hmedia : q.media = p.media)
    (hphase : q.phase = p.phase) : p.Keeps t := by
  obtain ⟨hkept, hsetUp⟩ := h
  rw [isSetUp_congr hphase] at hkept hsetUp
  rw [hmedia] at hkept
  exact ⟨hkept, hsetUp⟩

theorem media_conclude (p : Player) (result : PlayResult) :
    (p.conclude result).media = p.media := by
  unfold media conclude finish summaries
  simp [List.filter_append, List.filter_map, Function.comp_def, LogLine.isFrameOn]

theorem media_giveUp (p : Player) (purpose : Purpose) (e : PlayError) :
    (p.giveUp purpose e).media = p.media := by
  cases purpose with
  | teardown result => exact (media_conclude _ result).trans (media_say (fun _ => rfl) p)
  | _ => rfl

theorem keeps_giveUp (p : Player) (purpose : Purpose) (e : PlayError) :
    p.Keeps ⟨p.giveUp purpose e, none⟩ :=
  ⟨.inl (p.media_giveUp purpose e), fun _ => isSetUp_of_ended (isOver_giveUp p purpose e).ended⟩

/-- Sending is a matter of the connection. -/
theorem kept_of_transmit {q : Player} {m : Message} {result : Except Error Bytes}
    (h : p.transmit m = (q, result)) : q.media = p.media ∧ q.phase = p.phase := by
  obtain rfl := congrArg Prod.fst h
  exact ⟨rfl, rfl⟩

theorem Keeps.of_transmit {q : Player} {t : Turn} {m : Message} {result : Except Error Bytes}
    (h : q.Keeps t) (hsent : p.transmit m = (q, result)) : p.Keeps t :=
  h.of_media (kept_of_transmit hsent).1 (kept_of_transmit hsent).2

theorem media_ask (p : Player) (purpose : Purpose) (r : Request) :
    (p.ask purpose r).player.media = p.media := by
  unfold ask
  dsimp only
  split
  next hsent => exact (kept_of_transmit hsent).1
  next hsent => exact (media_giveUp _ _ _).trans (kept_of_transmit hsent).1

theorem isSetUp_ask {purpose : Purpose} (h : purpose.FollowsSetUp) (r : Request) :
    (p.ask purpose r).player.IsSetUp := by
  unfold ask
  dsimp only
  split
  next =>
    intro request asked phase
    rwa [← (Phase.waiting.inj phase).2]
  next => exact isSetUp_of_ended (isOver_giveUp _ _ _).ended

theorem keeps_ask {purpose : Purpose} (h : p.IsSetUp → purpose.FollowsSetUp) (r : Request) :
    p.Keeps (p.ask purpose r) :=
  ⟨.inl (p.media_ask purpose r), fun hp => isSetUp_ask (h hp) r⟩

theorem keeps_conclude (p : Player) (result : PlayResult) : p.Keeps ⟨p.conclude result, none⟩ :=
  ⟨.inl (p.media_conclude result), fun _ => isSetUp_of_ended rfl⟩

theorem keeps_teardown (p : Player) (url : String) (result : PlayResult) :
    p.Keeps (p.teardown url result) := by
  have hlast : (Purpose.teardown result).FollowsSetUp := True.intro
  unfold teardown
  split
  · exact p.keeps_conclude result
  · exact keeps_ask (fun _ => hlast) _

theorem keeps_stream (p : Player) (url : String) : p.Keeps (p.stream url) := by
  unfold stream
  split
  · exact ⟨.inl rfl, fun _ => isSetUp_of_streaming rfl⟩
  · exact p.keeps_teardown url (.ok ())

/-! ## Setting up -/

theorem media_setUpNext (p : Player) (base playUrl : String) (timeout index : Nat)
    (sections : List MediaSection) :
    (p.setUpNext base playUrl timeout index sections).player.media = p.media := by
  cases sections with
  | nil => exact p.media_ask _ _
  | cons m later =>
    unfold setUpNext
    dsimp only
    split
    · exact (media_ask _ _ _).trans (media_say (fun _ => rfl) p)
    · exact p.media_ask _ _

theorem media_described (p : Player) (r : Response) : (p.described r).player.media = p.media := by
  unfold described
  dsimp only
  split
  · rfl
  · exact p.media_setUpNext _ _ _ _ _

theorem tally_ofMedia (m : MediaSection) : (Depacketizer.ofMedia m).tally = {} := by
  unfold Depacketizer.ofMedia
  split <;> rfl

theorem media_addTrack (p : Player) (plan : SetupPlan) (r : Response) :
    ∃ track : Track, track.depacketizer.tally = {}
      ∧ (p.addTrack plan r).player.media
        = { p.media with tracks := p.media.tracks ++ [track] } := by
  let track : Track :=
    ⟨(assignedChannel? r).getD (UInt8.ofNat (2 * plan.index)), .ofMedia plan.current⟩
  have hsaid := @media_say (.trackSetUp plan.current.kind plan.current.encoding.name track.channel)
    (fun _ => rfl) p
  refine ⟨track, tally_ofMedia plan.current, (media_setUpNext _ _ _ _ _ _).trans ?_⟩
  exact congrArg (fun m : Media => { m with tracks := m.tracks ++ [track] }) hsaid

/-! ## Responses -/

section

variable {request : Request} {purpose : Purpose}

theorem keeps_succeed (phase : p.phase = .waiting request purpose) (r : Response) :
    p.Keeps (p.succeed purpose r) := by
  have hsetUp : p.IsSetUp → purpose.FollowsSetUp := fun h => h _ _ phase
  cases purpose with
  | options => exact ⟨.inl (p.media_ask _ _), fun h => (hsetUp h).elim⟩
  | describe => exact ⟨.inl (p.media_described r), fun h => (hsetUp h).elim⟩
  | setup plan => exact ⟨.inr ⟨hsetUp, p.media_addTrack plan r⟩, fun h => (hsetUp h).elim⟩
  | play url timeout =>
    have hsaid := @media_say (.playing p.session timeout) (fun _ => rfl) p
    exact (keeps_stream _ url).of_media hsaid rfl
  | teardown result => exact p.keeps_conclude result

theorem keeps_settle (phase : p.phase = .waiting request purpose) (r : Response) :
    p.Keeps (p.settle request purpose r) := by
  unfold settle
  split
  · exact keeps_succeed phase r
  · exact p.keeps_giveUp _ _

/-- An authorization makes no difference to media, so the request may be asked again. -/
theorem keeps_answered (phase : p.phase = .waiting request purpose) (r : Response) :
    p.Keeps (p.answered request purpose r) := by
  unfold answered
  split
  · exact keeps_settle phase r
  split
  · split
    next auth draws _ =>
      have hagain := @keeps_ask { p with auth := some auth, draws } purpose
        (fun h => h _ _ phase) request
      exact hagain.of_media rfl rfl
    next => exact p.keeps_giveUp _ _
  · exact keeps_settle phase r

end

/-! ## Events -/

/-- The player once it has taken in an event. Only interleaved frames make a difference. -/
def given (p : Player) : Event → Player
  | .data data => p.receive data
  | _ => p

theorem phase_given (p : Player) (e : Event) : (p.given e).phase = p.phase := by
  cases e with
  | data data =>
    obtain ⟨tracks, log, -, hreceive⟩ := p.receive_cases data
    exact (congrArg Player.phase hreceive :)
  | _ => rfl

theorem keeps_handleWaiting {request : Request} {purpose : Purpose}
    (phase : p.phase = .waiting request purpose) (e : Event) :
    (p.given e).Keeps (p.handleWaiting request purpose e) := by
  cases e with
  | data data => exact keeps_self _ _
  | closed cause => exact p.keeps_giveUp _ _
  | message m => cases m with
    | response r => exact keeps_answered phase r
    | unknown u => exact p.keeps_self _
    | request q =>
      unfold handleWaiting
      dsimp only
      split
      next hsent => exact (keeps_self _ _).of_transmit hsent
      next hsent => exact (keeps_giveUp _ _ _).of_transmit hsent

theorem keeps_handleStreaming (p : Player) (url : String) (e : Event) :
    (p.given e).Keeps (p.handleStreaming url e) := by
  cases e with
  | data data => exact keeps_stream _ url
  | closed cause =>
    have hsaid := @media_say (.streamEnded cause) (fun _ => rfl) p
    exact (keeps_teardown _ url (.ok ())).of_media hsaid rfl
  | message m => cases m with
    | response r =>
      have hsaid := @media_say (.keepaliveRejected r.status) (fun _ => rfl) p
      unfold handleStreaming
      dsimp only
      split
      · exact p.keeps_self none
      · exact (keeps_self _ none).of_media hsaid rfl
    | unknown u => exact p.keeps_self none
    | request q =>
      unfold handleStreaming
      dsimp only
      split
      next hsent => exact (keeps_self _ _).of_transmit hsent
      next hsent => exact (keeps_teardown _ _ _).of_transmit hsent

theorem keeps_handle (running : p.result? = none) (e : Event) : (p.given e).Keeps (p.handle e) := by
  unfold handle
  split
  next request purpose phase => exact keeps_handleWaiting phase e
  next url phase => exact p.keeps_handleStreaming url e
  next result phase => exact absurd (isSome_result?_iff.2 ⟨result, phase⟩) (by simp [running])

theorem keeps_tick (p : Player) : p.Keeps p.tick := by
  unfold tick
  split
  next url phase =>
    dsimp only
    split
    next hsent => exact ((keeps_self _ _).of_transmit hsent).of_media rfl rfl
    next hsent => exact ((keeps_teardown _ _ _).of_transmit hsent).of_media rfl rfl
  next => exact p.keeps_giveUp _ _
  next => exact p.keeps_self none

/-! ## Steps -/

/-- The player once it has taken in the event that a turn is about, if any. -/
def taking (p : Player) (i : Input) : Player :=
  (p.taken? i).elim (p.dequeue i) (p.dequeue i).given

theorem media_dequeue (p : Player) (i : Input) : (p.dequeue i).media = p.media := by
  cases i <;> rfl

theorem phase_taking (p : Player) (i : Input) : (p.taking i).phase = p.phase := by
  have hphase : (p.dequeue i).phase = p.phase := by cases i <;> rfl
  unfold taking
  cases p.taken? i with
  | none => exact hphase
  | some e => exact (phase_given _ e).trans hphase

theorem keeps_takeEvent (p : Player) : (p.taking .take).Keeps p.takeEvent := by
  unfold takeEvent taking
  cases hqueue : p.queue with
  | nil =>
    have htaken : p.taken? .take = none := by
      unfold taken?
      rw [hqueue]
      exact ite_self _
    rw [htaken]
    exact (keeps_self p none).of_media rfl rfl
  | cons e queue =>
    have hresult : Player.result? { p with queue } = p.result? := result?_congr rfl
    by_cases hended : p.result?.isSome
    · have htaken : p.taken? .take = none := if_pos hended
      rw [htaken]
      dsimp only [Option.elim_none]
      rw [handle_of_ended (hresult ▸ hended)]
      exact (keeps_self _ none).of_media rfl rfl
    · have htaken : p.taken? .take = some e := by
        unfold taken?
        dsimp only
        rw [if_neg hended, hqueue, List.head?_cons]
      have hdequeue : p.dequeue .take = { p with queue } := by
        unfold dequeue
        rw [hqueue, List.tail_cons]
      rw [htaken, hdequeue]
      exact keeps_handle (hresult.trans (Option.not_isSome_iff_eq_none.1 hended)) e

/-- Whatever happens, media change by what is taken in. -/
theorem keeps_step (p : Player) (i : Input) : (p.taking i).Keeps (p.step i) := by
  cases i with
  | take => exact p.keeps_takeEvent
  | tick => exact p.keeps_tick
  | _ => exact (keeps_self _ none).of_media rfl rfl

/-! ## Counting -/

theorem frames_feedTrack (channel : UInt8) (packet : RtpPacket) (tracks : List Track) :
    ((feedTrack channel packet tracks).1.map (·.depacketizer.tally.frames)).sum
      = (tracks.map (·.depacketizer.tally.frames)).sum
        + (feedTrack channel packet tracks).2.toList.length := by
  induction tracks with
  | nil => rfl
  | cons t tracks ih =>
    unfold feedTrack
    split
    · have hcount := t.depacketizer.frames_process packet
      dsimp only
      rw [List.map_cons, List.map_cons, List.sum_cons, List.sum_cons, hcount, Nat.add_right_comm]
      cases (t.depacketizer.process packet).2 <;> rfl
    · dsimp only
      rw [List.map_cons, List.map_cons, List.sum_cons, List.sum_cons, ih, Nat.add_assoc]

theorem isBalanced_receive (h : p.media.IsBalanced) (data : Interleaved) :
    (p.receive data).media.IsBalanced := by
  unfold receive
  split
  · exact h
  cases RtpPacket.parse data.payload with
  | error e =>
    dsimp only
    rwa [media_say fun _ => rfl]
  | ok packet =>
    have hcount := frames_feedTrack data.channel packet p.tracks
    have hp : p.frames = (p.tracks.map (·.depacketizer.tally.frames)).sum := h
    rw [← hp] at hcount
    dsimp only
    cases hfed : feedTrack data.channel packet p.tracks with
    | mk tracks emitted =>
      rw [hfed] at hcount
      cases emitted with
      | none => exact hcount.symm
      | some emitted => exact hcount.symm

theorem Keeps.isBalanced {t : Turn} (h : p.Keeps t) (hp : p.media.IsBalanced) :
    t.player.media.IsBalanced := by
  rcases h.media with hsame | ⟨-, track, htally, hadded⟩
  · rwa [hsame]
  · have hframes : p.media.frames = (p.media.tracks.map (·.depacketizer.tally.frames)).sum := hp
    rw [hadded]
    unfold Media.IsBalanced
    simp [hframes, htally]

theorem isBalanced_step (h : p.media.IsBalanced) (i : Input) :
    (p.step i).player.media.IsBalanced := by
  refine (p.keeps_step i).isBalanced ?_
  unfold taking
  rw [← p.media_dequeue i] at h
  cases p.taken? i with
  | none => exact h
  | some e => cases e with
    | data data => exact isBalanced_receive h data
    | _ => exact h

theorem isBalanced_after (h : p.media.IsBalanced) (inputs : List Input) :
    (p.after inputs).media.IsBalanced := by
  induction inputs generalizing p with
  | nil => exact h
  | cons i inputs ih => exact ih (isBalanced_step h i)

/-- Whatever channels the server assigns, a player has as many frames as its tracks. -/
theorem IsFresh.isBalanced_after (h : p.IsFresh) (address : String) (inputs : List Input) :
    ((p.start address).player.after inputs).media.IsBalanced := by
  have hstart : (p.start address).player.media = p.media :=
    (media_ask _ _ _).trans (media_say (fun _ => rfl) _)
  refine Player.isBalanced_after ?_ inputs
  rw [hstart]
  unfold Media.IsBalanced media
  rw [h.tracks, h.frames]
  rfl

/-! ## Runs -/

/-- The events that are taken in a run. -/
def taken (p : Player) (inputs : List Input) : List Event :=
  (p.records inputs).filterMap (·.taken?)

theorem taken_cons (p : Player) (i : Input) (inputs : List Input) :
    p.taken (i :: inputs) = (p.taken? i).toList ++ (p.step i).player.taken inputs := by
  unfold taken
  rw [records, List.filterMap_cons]
  cases p.taken? i <;> rfl

theorem media_taking (h : p.media.IsDistinct) (i : Input) :
    (p.taking i).media = p.media.fed (p.taken? i).toList := by
  rw [← p.media_dequeue i] at h ⊢
  unfold taking
  cases p.taken? i with
  | none => exact (Media.fed_of_silent fun _ => rfl).symm
  | some e => cases e with
    | data data => exact media_receive h data
    | _ => exact (Media.fed_of_silent fun _ => rfl).symm

namespace IsSetUp

theorem step (h : p.IsSetUp) (i : Input) : (p.step i).player.IsSetUp :=
  (p.keeps_step i).isSetUp ((isSetUp_congr (p.phase_taking i)).2 h)

theorem media_step (h : p.IsSetUp) (hdistinct : p.media.IsDistinct) (i : Input) :
    (p.step i).player.media = p.media.fed (p.taken? i).toList := by
  have htaking := (isSetUp_congr (p.phase_taking i)).2 h
  have hkept := (p.keeps_step i).media.resolve_right fun hadds => hadds.1 htaking
  exact hkept.trans (media_taking hdistinct i)

/-- A run feeds each track the packets of its channel. -/
theorem media_after (h : p.IsSetUp) (hdistinct : p.media.IsDistinct) (inputs : List Input) :
    (p.after inputs).media = p.media.fed (p.taken inputs) := by
  induction inputs generalizing p with
  | nil => exact (Media.fed_of_silent fun _ => rfl).symm
  | cons i inputs ih =>
    have hstep := h.media_step hdistinct i
    have hrest := ih (h.step i) (hstep ▸ hdistinct.fed _)
    rw [taken_cons, Media.fed_append, ← hstep]
    exact hrest

end IsSetUp

/-- The frames that are emitted in a run on a channel. -/
def emittedOn (p : Player) (channel : UInt8) (inputs : List Input) : List MediaFrame :=
  (p.records inputs).flatMap (·.emittedOn channel)

theorem emittedOn_record (p : Player) (channel : UInt8) (i : Input) :
    Record.emittedOn channel ⟨p.dequeue i, some i, p.taken? i, p.step i⟩
      = p.media.emits channel (p.taken? i).toList := by
  unfold Record.emittedOn
  cases p.taken? i with
  | none => exact (Media.emits_of_silent rfl).symm
  | some e => cases e with
    | data data =>
      dsimp only
      rw [toList_frame?, media_dequeue]
      split
      next hchannel => rw [hchannel]; rfl
      next hchannel =>
        refine (Media.emits_of_silent ?_).symm
        exact (packetsOn_data channel data).trans (if_neg (Ne.symm hchannel))
    | _ => exact (Media.emits_of_silent rfl).symm

/-- What is emitted on a channel is told by the packets on it. -/
theorem IsSetUp.emittedOn_eq (h : p.IsSetUp) (hdistinct : p.media.IsDistinct) (channel : UInt8)
    (inputs : List Input) :
    p.emittedOn channel inputs = p.media.emits channel (p.taken inputs) := by
  induction inputs generalizing p with
  | nil => exact (Media.emits_of_silent rfl).symm
  | cons i inputs ih =>
    have hstep := h.media_step hdistinct i
    have hrest := ih (h.step i) (hstep ▸ hdistinct.fed _)
    rw [taken_cons, Media.emits_append, ← hstep, ← hrest, ← emittedOn_record]
    rfl

/-- While sends succeed and there is no limit, nothing that a player takes but the end of the
stream makes it stop. -/
theorem step_take_of_unlimited {url : String} {e : Event} {queue : List Event}
    (phase : p.phase = .streaming url) (hlimit : p.limit = 0) (hopen : p.connection.CanSend)
    (hqueue : p.queue = e :: queue) (he : e.isClosed = false) :
    ∃ tracks frames log, (p.step .take).player = { p with queue, tracks, frames, log } := by
  have htake : p.step .take = Player.handleStreaming { p with queue } url e := by
    change p.takeEvent = _
    unfold takeEvent handle
    rw [hqueue]
    dsimp only
    rw [phase]
  have hrunning := result?_of_streaming phase
  cases e with
  | closed cause => cases he
  | data data =>
    obtain ⟨tracks, log, -, hreceive⟩ := receive_cases { p with queue } data
    rw [htake]
    unfold handleStreaming stream
    dsimp only
    rw [hreceive, if_pos (.inl hlimit), ← phase]
    exact ⟨tracks, _, log, rfl⟩
  | message m => cases m with
    | unknown u =>
      rw [htake]
      exact ⟨p.tracks, p.frames, p.log, rfl⟩
    | response r =>
      rw [htake]
      unfold handleStreaming
      dsimp only
      split
      · exact ⟨p.tracks, p.frames, p.log, rfl⟩
      · exact ⟨p.tracks, p.frames, _, rfl⟩
    | request q =>
      have htaken : p.taken? .take = some (.message (.request q)) := by
        unfold taken?
        rw [hrunning, hqueue]
        rfl
      rw [step_of_taken?_request htaken hopen]
      refine ⟨p.tracks, p.frames, p.log, ?_⟩
      unfold dequeue
      rw [hqueue, List.tail_cons]

/-- So it takes all that is queued. -/
theorem taken_queue {url : String} {events : List Event} (phase : p.phase = .streaming url)
    (hlimit : p.limit = 0) (hopen : p.connection.CanSend) (hqueue : p.queue = events)
    (hevents : ∀ e ∈ events, e.isClosed = false) :
    p.taken (List.replicate events.length .take) = events := by
  induction events generalizing p with
  | nil => rfl
  | cons e events ih =>
    have htaken : p.taken? .take = some e := by
      unfold taken?
      rw [result?_of_streaming phase, hqueue]
      rfl
    obtain ⟨tracks, frames, log, hstep⟩ :=
      step_take_of_unlimited phase hlimit hopen hqueue (hevents e List.mem_cons_self)
    rw [List.length_cons, List.replicate_succ, taken_cons, htaken, hstep]
    exact congrArg (e :: ·)
      (ih phase hlimit hopen rfl fun other hother => hevents other (List.mem_cons_of_mem _ hother))

/-! ## Independence -/

/-- A run has given each track the packets of its channel and nothing else, and the frames are
those of the tracks. -/
structure FeedsApart (p : Player) (inputs : List Input) : Prop where
  tracks : (p.after inputs).tracks
    = p.tracks.map fun t => t.fed (packetsOn t.channel (p.taken inputs))
  emitted : ∀ t ∈ p.tracks,
    p.emittedOn t.channel inputs = t.emits (packetsOn t.channel (p.taken inputs))
  logged : ∀ t ∈ p.tracks, (p.after inputs).log.filter (·.isFrameOn t.channel)
    = p.log.filter (·.isFrameOn t.channel) ++ (p.emittedOn t.channel inputs).map t.line
  frames : (p.after inputs).frames
    = p.frames + (p.tracks.map fun t => (p.emittedOn t.channel inputs).length).sum
  balanced : p.media.IsBalanced → (p.after inputs).media.IsBalanced
  /-- Whatever is queued is taken, if sends succeed and neither a limit nor the end of the stream
  makes the player stop. -/
  complete : ∀ url, p.phase = .streaming url → p.limit = 0 → p.connection.CanSend →
    (∀ e ∈ p.queue, e.isClosed = false) → inputs = List.replicate p.queue.length .take →
    p.taken inputs = p.queue

theorem IsSetUp.feedsApart (h : p.IsSetUp) (hdistinct : p.media.IsDistinct) (inputs : List Input) :
    p.FeedsApart inputs := by
  have hmedia := h.media_after hdistinct inputs
  have hemitted : ∀ t ∈ p.tracks,
      p.emittedOn t.channel inputs = t.emits (packetsOn t.channel (p.taken inputs)) :=
    fun t ht => (h.emittedOn_eq hdistinct t.channel inputs).trans (hdistinct.emits_eq ht _)
  exact {
    tracks := congrArg Media.tracks hmedia
    emitted := hemitted
    logged := fun t ht => by
      have hlines : p.media.linesOf t.channel (p.taken inputs)
          = (p.emittedOn t.channel inputs).map t.line := by
        unfold Media.linesOf
        rw [hdistinct.track?_eq ht, hemitted t ht]
        rfl
      rw [← hlines]
      exact congrFun (congrArg Media.lines hmedia) t.channel
    frames := by
      have hcount : p.media.count (p.taken inputs)
          = (p.tracks.map fun t => (p.emittedOn t.channel inputs).length).sum :=
        congrArg List.sum (List.map_congr_left fun t ht => by rw [hemitted t ht])
      rw [← hcount]
      exact congrArg Media.frames hmedia
    balanced := fun hbalanced => isBalanced_after hbalanced inputs
    complete := fun url phase hlimit hopen hqueue hinputs => by
      rw [hinputs]
      exact taken_queue phase hlimit hopen rfl hqueue }

/-- Runs in which the same payloads are taken on the channels of the tracks cannot be told apart by
their media, whatever else is taken and in whatever order the channels take turns. -/
theorem tracks_apart {p q : Player} (hp : p.IsSetUp) (hq : q.IsSetUp)
    (hdistinct : (p.tracks.map (·.channel)).Nodup) (htracks : q.tracks = p.tracks)
    (hframes : q.frames = p.frames) {inputs inputs' : List Input}
    (hsame : ∀ t ∈ p.tracks,
      payloadsOn t.channel (q.taken inputs') = payloadsOn t.channel (p.taken inputs)) :
    p.FeedsApart inputs ∧ q.FeedsApart inputs'
      ∧ (q.after inputs').tracks = (p.after inputs).tracks
      ∧ (∀ t ∈ p.tracks, q.emittedOn t.channel inputs' = p.emittedOn t.channel inputs)
      ∧ (q.after inputs').frames = (p.after inputs).frames := by
  have hpapart := hp.feedsApart hdistinct inputs
  have hqdistinct : q.media.IsDistinct := by
    unfold Media.IsDistinct media
    rwa [htracks]
  have hqapart := hq.feedsApart hqdistinct inputs'
  have hpackets : ∀ t ∈ p.tracks,
      packetsOn t.channel (q.taken inputs') = packetsOn t.channel (p.taken inputs) := by
    intro t ht
    unfold packetsOn
    rw [hsame t ht]
  have hemitted : ∀ t ∈ p.tracks,
      q.emittedOn t.channel inputs' = p.emittedOn t.channel inputs := by
    intro t ht
    rw [hqapart.emitted t (htracks ▸ ht), hpapart.emitted t ht, hpackets t ht]
  refine ⟨hpapart, hqapart, ?_, hemitted, ?_⟩
  · rw [hqapart.tracks, hpapart.tracks, htracks]
    exact List.map_congr_left fun t ht => by rw [hpackets t ht]
  · rw [hqapart.frames, hpapart.frames, htracks, hframes]
    exact congrArg (p.frames + ·)
      (congrArg List.sum (List.map_congr_left fun t ht => by rw [hemitted t ht]))

/-- The two fragments of a NAL unit, with a packet of another track between them or in front, and
with other events in one of the runs. -/
theorem tracks_apart_fragments :
    let packet (second : UInt8) (payload : Bytes) : Bytes :=
      [0x80, second, 0, 1, 0, 0, 0, 9, 0, 0, 0, 7] ++ payload
    let start : Event := .data ⟨0, packet 0x60 [0x7c, 0x85, 0xaa]⟩
    let stop : Event := .data ⟨0, packet 0xe0 [0x7c, 0x45, 0xbb]⟩
    let other : Event := .data ⟨2, packet 0x60 [1, 2]⟩
    let junk : Event := .data ⟨2, [0xff]⟩
    let p : Player := {
      url := "rtsp://cam/"
      tracks := [⟨0, .h264 {}⟩, ⟨2, .unchanged "RAW"⟩]
      phase := .streaming "rtsp://cam/"
      queue := [start, other, stop, junk] }
    let q : Player := { p with
      queue := [other, .message (.response { status := 454, reason := "" }), start,
        .data ⟨7, [0x80]⟩, junk, .message (.request { method := .options, uri := "*" }), stop] }
    p.IsSetUp ∧ q.IsSetUp
      ∧ p.emittedOn 0 (List.replicate 4 .take) = [⟨9, [[0x65, 0xaa, 0xbb]]⟩]
      ∧ p.emittedOn 2 (List.replicate 4 .take) = [⟨9, [[1, 2]]⟩]
      ∧ (∀ t ∈ p.tracks, q.emittedOn t.channel (List.replicate 7 .take)
        = p.emittedOn t.channel (List.replicate 4 .take))
      ∧ (q.after (List.replicate 7 .take)).frames = 2 := by
  intro packet start stop other junk p q
  have hp : p.IsSetUp := isSetUp_of_streaming rfl
  have hq : q.IsSetUp := isSetUp_of_streaming rfl
  have hptaken : p.taken (List.replicate 4 .take) = p.queue :=
    taken_queue rfl rfl ⟨rfl, rfl⟩ rfl (by decide)
  have hqtaken : q.taken (List.replicate 7 .take) = q.queue :=
    taken_queue rfl rfl ⟨rfl, rfl⟩ rfl (by decide)
  have hsame : ∀ t ∈ p.tracks, payloadsOn t.channel (q.taken (List.replicate 7 .take))
      = payloadsOn t.channel (p.taken (List.replicate 4 .take)) := by
    rw [hptaken, hqtaken]
    decide
  obtain ⟨hpapart, -, -, hemitted, hframes⟩ := tracks_apart hp hq (by decide) rfl rfl hsame
  have hfirst := hpapart.emitted ⟨0, .h264 {}⟩ (by decide)
  have hsecond := hpapart.emitted ⟨2, .unchanged "RAW"⟩ (by decide)
  have hcount := hframes.trans hpapart.frames
  rw [hptaken] at hfirst hsecond
  have hvideo : p.emittedOn 0 (List.replicate 4 .take) = [⟨9, [[0x65, 0xaa, 0xbb]]⟩] :=
    hfirst.trans (by decide)
  have hother : p.emittedOn 2 (List.replicate 4 .take) = [⟨9, [[1, 2]]⟩] :=
    hsecond.trans (by decide)
  have hsum : 0 + ((p.emittedOn 0 (List.replicate 4 .take)).length
      + ((p.emittedOn 2 (List.replicate 4 .take)).length + 0)) = 2 := by
    rw [hvideo, hother]
    rfl
  exact ⟨hp, hq, hvideo, hother, hemitted, hcount.trans hsum⟩

end Player
end Rtsp
