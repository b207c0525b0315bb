-- SUMMARY: The turns of a run, and what was written in each of them.
import Rtsp.Player.Script
import Rtsp.Proofs.Player.Turn

/-!
# Runs of a player

A run is a list of records, one for each turn. The message that a turn has written can be told from
the record: a request is the one that the connection keeps under the number of the turn, and a
response is the one that refuses the event that was taken (`Record.message?`). A script against
which a player plays is a run as well (`Player.exists_inputs_playScript`).
-/

namespace Rtsp

/-- A turn of a run. -/
structure Record where
  /-- The player before the turn, without the event that it has taken off its queue. -/
  before : Player
  /-- What led to the turn. The first turn is the start of the run. -/
  input : Option Player.Input := none
  /-- The event that was taken. -/
  taken? : Option Event := none
  turn : Turn

namespace Record

/-- The number of the next request at the beginning of the turn. -/
def number (r : Record) : UInt32 :=
  r.before.connection.nextCseq

/-- The request that was written, as the connection keeps it. It uses up the number. -/
def sent? (r : Record) : Option Request :=
  if r.turn.written.isSome ∧ r.turn.player.connection.nextCseq ≠ r.number then
    r.turn.player.connection.pending.get? r.number
  else none

/-- The request that was written, as the server sees it. -/
def request? (r : Record) : Option Request :=
  r.sent?.map r.before.connection.wireRequest

/-- The response that was written. It refuses the request that was taken. -/
def refusal? (r : Record) : Option Response :=
  if r.turn.written.isSome then
    match r.taken? with
    | some (.message (.request q)) => some (q.respond 501)
    | _ => none
  else none

/-- The message that was written. -/
def message? (r : Record) : Option Message :=
  (r.request?.map .request).or (r.refusal?.map .response)

/-- The response that is taken for the one that the player waits for. -/
def returned? (r : Record) : Option Response :=
  match r.before.phase, r.taken? with
  | .waiting _ _, some (.message (.response response)) => some response
  | _, _ => none

/-- The purpose of a request that has succeeded, and its response. -/
def accepted? (r : Record) : Option (Purpose × Response) :=
  match r.before.phase, r.taken? with
  | .waiting _ purpose, some (.message (.response response)) =>
    if response.isOk then some (purpose, response) else none
  | _, _ => none

/-- The number of sections that the server has described. -/
def sections? (r : Record) : Option Nat :=
  match r.accepted? with
  | some (.describe, response) => some response.sections.length
  | _ => none

/-- The identifier that the server has given to the session. -/
def sessionId? (r : Record) : Option String :=
  match r.accepted? with
  | some (.setup _, response) => response.sessionId?
  | _ => none

/-- How many frames the depacketizers have emitted. -/
def frames (r : Record) : Nat :=
  r.before.yield r.taken?

end Record

namespace Player

/-- The turns that inputs lead to. -/
def records (p : Player) : List Input → List Record
  | [] => []
  | i :: inputs =>
    ⟨p.dequeue i, some i, p.taken? i, p.step i⟩ :: (p.step i).player.records inputs

/-- The turns of a run, from its start on. -/
def transcript (p : Player) (address : String) (inputs : List Input) : List Record :=
  { before := p, turn := p.start address } :: (p.start address).player.records inputs

/-- A player that has not begun. -/
structure IsFresh (p : Player) : Prop where
  connection : p.connection = {}
  queue : p.queue = []
  auth : p.auth = none
  session : p.session = none
  tracks : p.tracks = []
  frames : p.frames = 0

theorem isFresh_ofOptions (options : Options) (target : Target) (draws : Draws) :
    (ofOptions options target draws).IsFresh :=
  ⟨rfl, rfl, rfl, rfl, rfl, rfl⟩

/-! ## Starting -/

theorem step_start : ({} : Connection).step .start = ({ reader := .running }, {}) := by
  have hrun : Chunk.run false [] = ⟨[], .starved, []⟩ := by
    apply Chunk.run_of_starved
    unfold Chunk.read
    rfl
  unfold Connection.step Connection.act Connection.advance
  simp [hrun, Connection.receiveAll, Connection.stopCause?]

/-- The player once it is connected. -/
def begun (p : Player) (address : String) : Player :=
  { p with connection := { reader := .running }, log := p.log ++ [.connected address] }

variable {p : Player}

/-- At the start a player asks for the options of the server. -/
theorem IsFresh.start_eq (h : p.IsFresh) (address : String) :
    let r : Request := { method := .options, uri := p.url }
    p.start address
      = ⟨(p.begun address).awaiting r .options, some ((p.begun address).wire r).encode⟩ := by
  have hobserve : p.observe .start = { p with connection := { reader := .running } } := by
    unfold observe
    rw [h.connection, step_start]
    simp
  have hopen : (p.begun address).connection.CanSend := ⟨rfl, rfl⟩
  unfold start
  rw [hobserve]
  exact ask_of_canSend hopen _ _

theorem IsFresh.valid_start (h : p.IsFresh) (address : String) :
    (p.start address).player.Valid := by
  rw [h.start_eq]
  refine ⟨fun _ => rfl, fun _ e he => ?_, fun request purpose hwaiting => ?_⟩
  · have hqueue : e ∈ p.queue := he
    rw [h.queue] at hqueue
    exact absurd hqueue List.not_mem_nil
  · obtain ⟨rfl, rfl⟩ := Phase.waiting.inj hwaiting
    exact ⟨isDraft_of_no_headers (by decide) _, rfl⟩

/-! ## Runs -/

/-- The player after a run. -/
def after (p : Player) (inputs : List Input) : Player :=
  inputs.foldl (fun p i => (p.step i).player) p

theorem records_append (p : Player) (inputs inputs' : List Input) :
    p.records (inputs ++ inputs') = p.records inputs ++ (p.after inputs).records inputs' := by
  induction inputs generalizing p with
  | nil => rfl
  | cons i inputs ih => exact congrArg (_ :: ·) (ih _)

theorem Valid.after (h : p.Valid) (inputs : List Input) : (p.after inputs).Valid := by
  induction inputs generalizing p with
  | nil => exact h
  | cons i inputs ih => exact ih (h.step i)

/-- What holds after the first turn, and is kept by every further one, holds of all runs. -/
theorem transcript_induction {motive : List Record → Player → Prop} {address : String}
    (first : motive [{ before := p, turn := p.start address }] (p.start address).player)
    (next : ∀ rs q i, motive rs q →
      motive (rs ++ [⟨q.dequeue i, some i, q.taken? i, q.step i⟩]) (q.step i).player)
    (inputs : List Input) :
    motive (p.transcript address inputs) ((p.start address).player.after inputs) := by
  have hrun : ∀ inputs rs q, motive rs q → motive (rs ++ q.records inputs) (q.after inputs) := by
    intro inputs
    induction inputs with
    | nil =>
      intro rs q h
      rw [records, List.append_nil]
      exact h
    | cons i inputs ih =>
      intro rs q h
      have hrest := ih _ _ (next rs q i h)
      rwa [List.append_assoc] at hrest
  exact hrun inputs _ _ first

/-- What holds of the turns of a run, each given those before it, and of the next turn. -/
theorem forall_concat {motive : List Record → Record → Prop} {rs : List Record} {r : Record}
    (h : ∀ before s after, rs = before ++ s :: after → motive before s) (hr : motive rs r) :
    ∀ before s after, rs ++ [r] = before ++ s :: after → motive before s := by
  intro before s after heq
  rcases List.eq_nil_or_concat after with rfl | ⟨later, last, rfl⟩
  · obtain ⟨rfl, hlast⟩ := List.append_inj' heq rfl
    obtain rfl := List.singleton_inj.1 hlast
    exact hr
  · rw [List.concat_eq_append, ← List.cons_append, ← List.append_assoc] at heq
    exact h before s later (List.append_inj' heq rfl).1

/-- What the turns so far ensure of the next one, whatever that is, holds of every turn of a run. -/
theorem transcript_forall {motive : List Record → Player → Prop} {address : String}
    (holds : List Record → Record → Prop)
    (first : motive [{ before := p, turn := p.start address }] (p.start address).player)
    (firstHolds : holds [] { before := p, turn := p.start address })
    (next : ∀ rs q i, motive rs q →
      motive (rs ++ [⟨q.dequeue i, some i, q.taken? i, q.step i⟩]) (q.step i).player
        ∧ holds rs ⟨q.dequeue i, some i, q.taken? i, q.step i⟩)
    (inputs : List Input) :
    ∀ before r after, p.transcript address inputs = before ++ r :: after → holds before r := by
  have hnone : ∀ before s after, ([] : List Record) = before ++ s :: after → holds before s := by
    simp
  exact (transcript_induction
    (motive := fun rs q => motive rs q
      ∧ ∀ before s after, rs = before ++ s :: after → holds before s)
    ⟨first, forall_concat hnone firstHolds⟩
    (fun rs q i h => ⟨(next rs q i h.1).1, forall_concat h.2 (next rs q i h.1).2⟩) inputs).2

end Player

/-! ## What was written -/

namespace Record

variable {r : Record} {p : Player}

theorem sent?_of_written_eq_none (h : r.turn.written = none) : r.sent? = none := by
  unfold sent?
  rw [h]
  rfl

theorem sent?_of_nextCseq_eq (h : r.turn.player.connection.nextCseq = r.number) :
    r.sent? = none :=
  if_neg fun hsent => hsent.2 h

/-- A request that was written is kept under the number of the turn. -/
theorem sent?_of_sent {request : Request} (hp : p.connection.nextCseq = r.number)
    (hplayer : r.turn.player.connection = (p.sent request).connection)
    (hwritten : r.turn.written.isSome) : r.sent? = some (p.prepare request).2 := by
  have hnext : (p.sent request).connection.nextCseq ≠ r.number := by
    rw [← hp]
    change p.connection.nextCseq + 1 ≠ p.connection.nextCseq
    simp
  unfold sent?
  rw [hplayer, if_pos ⟨hwritten, hnext⟩, ← hp]
  exact Pending.get?_insert_self _ _ _

theorem request?_of_written_eq_none (h : r.turn.written = none) : r.request? = none :=
  Option.map_eq_none_iff.2 (sent?_of_written_eq_none h)

theorem request?_of_nextCseq_eq (h : r.turn.player.connection.nextCseq = r.number) :
    r.request? = none :=
  Option.map_eq_none_iff.2 (sent?_of_nextCseq_eq h)

theorem message?_of_written_eq_none (h : r.turn.written = none) : r.message? = none := by
  unfold message? refusal?
  rw [request?_of_written_eq_none h, h]
  rfl

theorem request?_of_sent {request : Request} (hnumber : p.connection.nextCseq = r.number)
    (hagent : p.connection.userAgent = r.before.connection.userAgent)
    (hplayer : r.turn.player.connection = (p.sent request).connection)
    (hwritten : r.turn.written.isSome) : r.request? = some (p.wire request) := by
  unfold request? Player.wire Connection.wireRequest
  rw [sent?_of_sent hnumber hplayer hwritten, hnumber, hagent]
  rfl

theorem request?_of_alive (request : Request) (e : Option Event) (input : Option Player.Input) :
    request? ⟨p, input, e, ⟨p.sent request, some (p.wire request).encode⟩⟩
      = some (p.wire request) :=
  request?_of_sent rfl rfl rfl rfl

theorem request?_of_prompts {q : Player} {e : Option Event} {purpose : Purpose}
    {request : Request} (h : p.Prompts e q purpose request) (input : Option Player.Input) :
    request? ⟨p, input, e, ⟨q.awaiting request purpose, some (q.wire request).encode⟩⟩
      = some (q.wire request) :=
  request?_of_sent (congrArg Connection.nextCseq h.connection)
    (congrArg Connection.userAgent h.connection) rfl rfl

theorem message?_of_request? {w : Request} (h : r.request? = some w) :
    r.message? = some (.request w) := by
  unfold message?
  rw [h]
  rfl

/-- A request that was taken is refused without using up a number. -/
theorem message?_of_refused (q : Request) (input : Option Player.Input) :
    message? ⟨p, input, some (.message (.request q)), ⟨p, some (q.respond 501).encode⟩⟩
      = some (.response (q.respond 501)) := by
  unfold message? refusal?
  rw [request?_of_nextCseq_eq rfl]
  rfl

/-- Responses are written to refuse requests. -/
theorem taken?_of_message?_response {response : Response}
    (h : r.message? = some (.response response)) :
    ∃ q, r.taken? = some (.message (.request q)) ∧ response = q.respond 501 := by
  have hrefusal : r.refusal? = some response := by
    unfold message? at h
    cases hrequest : r.request? with
    | some w =>
      rw [hrequest] at h
      cases h
    | none =>
      rw [hrequest] at h
      simpa using h
  unfold refusal? at hrefusal
  split at hrefusal
  next =>
    split at hrefusal
    next q htaken => exact ⟨q, htaken, (Option.some.inj hrefusal).symm⟩
    next => cases hrefusal
  next => cases hrefusal

/-- What was written is the message in the record. -/
theorem written_of_moves {e : Option Event} {t : Turn} (h : p.Moves e t)
    (input : Option Player.Input) :
    t.written = (message? ⟨p, input, e, t⟩).map Message.encode := by
  cases h with
  | ends isOver => rw [message?_of_written_eq_none isOver.written]; exact isOver.written
  | stays | plays => rw [message?_of_written_eq_none rfl]; rfl
  | refuses running opened => rw [message?_of_refused]; rfl
  | lives phase opened => rw [message?_of_request? (request?_of_alive _ none input)]; rfl
  | asks prompt opened => rw [message?_of_request? (request?_of_prompts prompt input)]; rfl

end Record

theorem Player.IsFresh.request?_start (h : p.IsFresh) (address : String) :
    Record.request? { before := p, turn := p.start address }
      = some ((p.begun address).wire { method := .options, uri := p.url }) := by
  have hnumber : (p.begun address).connection.nextCseq = p.connection.nextCseq := by
    rw [h.connection]
    rfl
  have hagent : (p.begun address).connection.userAgent = p.connection.userAgent := by
    rw [h.connection]
    rfl
  rw [h.start_eq]
  exact Record.request?_of_sent hnumber hagent rfl rfl

/-! ## Scripts -/

namespace Player

/-- Some inputs lead from one player to the other, and these messages are written on the way. -/
def Reaches (p : Player) (messages : List Bytes) (q : Player) : Prop :=
  ∃ inputs, p.after inputs = q ∧ (p.records inputs).filterMap (·.turn.written) = messages

variable {p q : Player}

theorem reaches_self (p : Player) : p.Reaches [] p :=
  ⟨[], rfl, rfl⟩

theorem reaches_step (p : Player) (i : Input) :
    p.Reaches (p.step i).written.toList (p.step i).player :=
  ⟨[i], rfl, by cases hwritten : (p.step i).written <;> simp [records, hwritten]⟩

theorem Reaches.trans {messages messages' : List Bytes} {r : Player}
    (h : p.Reaches messages q) (h' : q.Reaches messages' r) :
    p.Reaches (messages ++ messages') r := by
  obtain ⟨inputs, rfl, rfl⟩ := h
  obtain ⟨inputs', rfl, rfl⟩ := h'
  refine ⟨inputs ++ inputs', List.foldl_append, ?_⟩
  rw [records_append, List.filterMap_append]

theorem Reaches.valid {messages : List Bytes} (h : p.Reaches messages q) (hp : p.Valid) :
    q.Valid := by
  obtain ⟨inputs, rfl, -⟩ := h
  exact hp.after inputs

theorem Valid.reaches_takeEvents (h : p.Valid) {events : List Event} (hqueue : p.queue = events) :
    p.Reaches (Playback.takeEvents p events).written.toList
      (Playback.takeEvents p events).player := by
  induction events generalizing p with
  | nil =>
    have hsame : ({ p with queue := [] } : Player) = p := by rw [← hqueue]
    unfold Playback.takeEvents
    rw [hsame]
    exact reaches_self p
  | cons e events ih =>
    have hstep : p.step .take = Player.handle { p with queue := events } e := by
      change p.takeEvent = _
      unfold takeEvent
      rw [hqueue]
    have hreaches := reaches_step p .take
    have hleft : (p.step .take).player.queue = events := by
      have hmoves := (h.moves_step (i := .take) rfl).queue
      rw [hmoves]
      exact (congrArg List.tail hqueue).trans (List.tail_cons)
    have hvalid := h.step .take
    unfold Playback.takeEvents
    rw [← hstep]
    cases hturn : p.step .take with
    | mk q written =>
      rw [hturn] at hreaches hleft hvalid
      cases written with
      | some bytes => exact hreaches
      | none => exact hreaches.trans (ih hvalid hleft)

theorem reaches_proceed (b : Playback) (h : b.player.Valid) :
    b.player.Reaches b.proceed.2.toList b.proceed.1.player := by
  have hreaches := h.reaches_takeEvents rfl
  unfold Playback.proceed
  cases hturn : Playback.takeEvents b.player b.player.queue with
  | mk q written =>
    rw [hturn] at hreaches
    cases written with
    | some bytes => exact hreaches
    | none =>
      dsimp only
      split
      · exact hreaches
      · exact hreaches.trans (reaches_step q .tick)

theorem reaches_apply (b : Playback) (reply : Reply) :
    b.player.Reaches [] (b.apply reply).player := by
  have hfeed := reaches_step b.player (.arrive reply.data)
  unfold Playback.apply
  dsimp only
  split
  · exact hfeed.trans (reaches_step _ (.finish .endOfStream))
  · exact hfeed

theorem written_proceed (b : Playback) : b.proceed.1.written = b.written := by
  unfold Playback.proceed
  split
  · rfl
  · split <;> rfl

theorem written_follow (b : Playback) (message : Option Bytes) (script : List Reply)
    (h : b.player.Valid) :
    ∃ inputs, (b.follow message script).written
      = b.written ++ (message.toList ++ (b.player.records inputs).filterMap (·.turn.written)) := by
  induction script generalizing b message with
  | nil => cases message with
    | none => exact ⟨[], (List.append_nil _).symm⟩
    | some message =>
      exact ⟨[], written_proceed ((b.record message).apply { close := true })⟩
  | cons reply replies ih => cases message with
    | none => exact ⟨[], (List.append_nil _).symm⟩
    | some message =>
      have happly := reaches_apply (b.record message) reply
      have hproceed := reaches_proceed ((b.record message).apply reply) (happly.valid h)
      obtain ⟨inputs, hafter, hinputs⟩ := happly.trans hproceed
      have hvalid := hproceed.valid (happly.valid h)
      obtain ⟨inputs', hfollow⟩ := ih _ ((b.record message).apply reply).proceed.2 hvalid
      have hb : b.player.after inputs = ((b.record message).apply reply).proceed.1.player := hafter
      have hrecords : (b.player.records inputs).filterMap (·.turn.written)
          = ((b.record message).apply reply).proceed.2.toList := hinputs
      have hwritten : ((b.record message).apply reply).proceed.1.written
          = b.written ++ [message] := written_proceed _
      refine ⟨inputs ++ inputs', ?_⟩
      rw [records_append, List.filterMap_append, hb, hrecords]
      rw [hwritten, List.append_assoc] at hfollow
      exact hfollow

/-- What a player writes against a script is what it writes in a run. -/
theorem exists_inputs_playScript (options : Options) (target : Target)
    (htarget : Target.ofUrl? options.url = some target) (script : List Reply) (draws : Draws) :
    ∃ inputs, (playScript options true script draws).written
      = ((ofOptions options target draws).transcript target.address inputs).filterMap
        (·.turn.written) := by
  have hvalid := (isFresh_ofOptions options target draws).valid_start target.address
  obtain ⟨first, hfirst⟩ :
      ∃ first, (ofOptions options target draws).start target.address = first := ⟨_, rfl⟩
  rw [hfirst] at hvalid
  obtain ⟨inputs, hfollow⟩ := written_follow ⟨first.player, [], 0⟩ first.written script hvalid
  refine ⟨inputs, ?_⟩
  unfold playScript transcript
  rw [htarget, hfirst]
  cases hwritten : first.written <;> rw [hwritten] at hfollow <;>
    simpa [hfirst, hwritten] using hfollow

end Player
end Rtsp
