-- SUMMARY: The peer reads what was sent over a connection, one unit for each send that succeeded.
import Rtsp.Proofs.Connection.Outstanding
import Rtsp.Proofs.Framing.RoundTrip
import Rtsp.Proofs.Message.Fields

/-!
# Written bytes

A connection changes a request before it writes it: the request gets a number, and a user agent
unless it names one. What is written is well-formed if what was sent is (`Message.Sendable.onWire`),
so each send that succeeds puts one unit on the stream, and a send that fails puts none. The peer
reads these units in order, and then the end of the stream (`Connection.run_written`).
-/

namespace Rtsp

open Text

/-! ## Requests on the wire -/

namespace Connection

variable (c : Connection) (r : Request)

/-- Fields other than the number and the user agent are written as they are. -/
theorem get?_wireRequest {name : String} (hcseq : sameIgnoringCase "CSeq" name = false)
    (hagent : sameIgnoringCase "User-Agent" name = false) :
    (c.wireRequest r).headers.get? name = r.headers.get? name := by
  have hnumbered := Headers.get?_set_of_ne hcseq r.headers (toString c.nextCseq.toNat)
  unfold wireRequest
  cases c.userAgent with
  | none => exact hnumbered
  | some agent => exact (Headers.get?_setIfAbsent_of_ne hagent _ agent).trans hnumbered

theorem get?_wireRequest_cseq :
    (c.wireRequest r).headers.get? "CSeq" = some (toString c.nextCseq.toNat) := by
  have hnumbered := Headers.get?_set_self r.headers "CSeq" (toString c.nextCseq.toNat)
  unfold wireRequest
  cases c.userAgent with
  | none => exact hnumbered
  | some agent => exact (Headers.get?_setIfAbsent_of_ne (by decide) _ agent).trans hnumbered

theorem get?_wireRequest_userAgent :
    (c.wireRequest r).headers.get? "User-Agent"
      = (r.headers.get? "User-Agent").or c.userAgent := by
  have hne : sameIgnoringCase "CSeq" "User-Agent" = false := by decide
  have hnumbered := Headers.get?_set_of_ne hne r.headers (toString c.nextCseq.toNat)
  unfold wireRequest
  cases c.userAgent with
  | none => exact hnumbered.trans (Option.or_none).symm
  | some agent =>
    refine (Headers.get?_setIfAbsent_self _ _ agent).trans ?_
    rw [hnumbered]
    cases r.headers.get? "User-Agent" <;> rfl

/-- The fields of other names keep their places. -/
theorem filter_wireRequest {names : List String} (hcseq : "CSeq" ∈ names)
    (hagent : "User-Agent" ∈ names) :
    (c.wireRequest r).headers.entries.filter (Headers.isOther names)
      = r.headers.entries.filter (Headers.isOther names) := by
  have hnumbered := Headers.filter_set hcseq r.headers (toString c.nextCseq.toNat)
  unfold wireRequest
  cases c.userAgent with
  | none => exact hnumbered
  | some agent => exact (Headers.filter_setIfAbsent hagent _ agent).trans hnumbered

/-- A request stays readable. -/
theorem readable_wireRequest (hagent : ∀ agent ∈ c.userAgent, Headers.IsValue agent)
    (h : r.headers.Readable) : (c.wireRequest r).headers.Readable := by
  have hnumbered := h.set (Headers.isField_cseq c.nextCseq)
  unfold wireRequest
  cases hc : c.userAgent with
  | none => exact hnumbered
  | some agent =>
    have hname : Headers.IsField ("User-Agent", "") := by decide
    exact hnumbered.setIfAbsent (hname.with_value (hagent agent hc))

end Connection

/-! ## Messages on the wire -/

/-- A request as the peer reads it: under its number, with a user agent, and otherwise as it was
sent, but for the length of its body. -/
structure Request.ArrivesAs (r : Request) (agent : Option String) (n : UInt32)
    (read : Request) : Prop where
  method : read.method.token = r.method.token
  uri : read.uri = r.uri
  version : read.version = r.version
  body : read.body = r.body
  cseq : read.cseq? = some n
  userAgent : read.headers.get? "User-Agent" = (r.headers.get? "User-Agent").or agent
  others : read.headers.entries.filter (Headers.isOther ["CSeq", "User-Agent", "Content-Length"])
    = r.headers.entries.filter (Headers.isOther ["CSeq", "User-Agent", "Content-Length"])

namespace Message

/-- The message that is written where a message is sent. Only a request is changed. -/
def onWire (agent : Option String) (n : UInt32) : Message → Message
  | request r => request ((Connection.fresh agent n).wireRequest r)
  | m => m

/-- What the peer makes of a request on the wire. -/
theorem exists_arrivesAs (agent : Option String) (n : UInt32) (r : Request) :
    ∃ read, (onWire agent n (request r)).received = request read ∧ r.ArrivesAs agent n read := by
  let c := Connection.fresh agent n
  refine ⟨_, rfl, Method.token_ofToken _, rfl, rfl, rfl, Headers.cseq?_of_get? ?_, ?_, ?_⟩
  · exact (Headers.get?_received (by decide) _ _).trans (c.get?_wireRequest_cseq r)
  · exact (Headers.get?_received (by decide) _ _).trans (c.get?_wireRequest_userAgent r)
  · exact (Headers.filter_received (by decide) _ _).trans
      (c.filter_wireRequest r (by decide) (by decide))

/-- A message that is read as what was sent: its parts are well-formed, and its lines fit as they
are written. -/
structure Sendable (agent : Option String) (m : Message) : Prop where
  startLine : m.startLine.WellFormed
  headers : m.headers.Readable
  fits : (Utf8.encode (m.startLine.text ++ "\r\n")).length ≤ Line.limit
  lines : ∀ n, ∀ e ∈ (m.onWire agent n).headers.written,
    (Headers.encodeEntry e).length ≤ Line.limit
  body_le : m.body.length ≤ Chunk.bodyLimit

/-- Number and user agent keep a message well-formed. -/
theorem Sendable.onWire {agent : Option String} (hagent : ∀ a ∈ agent, Headers.IsValue a)
    (n : UInt32) {m : Message} (h : m.Sendable agent) : (m.onWire agent n).WellFormed := by
  obtain ⟨hstart, hheaders, hfits, hlines, hbody⟩ := h
  have hreadable : (m.onWire agent n).headers.Readable := by
    cases m with
    | request r => exact Connection.readable_wireRequest _ r hagent hheaders
    | response r => exact hheaders
    | unknown u => exact hheaders
  have hwell : (m.onWire agent n).headers.WellFormed :=
    ⟨hreadable.fields, hreadable.distinct, hlines n⟩
  cases m <;> exact ⟨hstart, hwell, hfits, hbody⟩

end Message

namespace Connection

/-! ## Sends -/

/-- What is sent can be read. -/
def Action.Sendable (agent : Option String) : Action → Prop
  | send m => m.Sendable agent
  | _ => True

/-- The unit that an action puts on the stream, judged by what it returned: a message or a frame
that was sent, and nothing where sending failed. -/
def Action.unit? (agent : Option String) : Action → Except Error (Option UInt32) → Option Chunk
  | send m, .ok n => some (.message (m.onWire agent (n.getD 0)).received)
  | sendData f, .ok _ => some (.data f)
  | _, _ => none

/-- All bytes that are written in a run. -/
def written (c : Connection) : List Action → Bytes
  | [] => []
  | action :: actions => (c.step action).2.written ++ written (c.step action).1 actions

theorem written_append (c : Connection) (actions more : List Action) :
    c.written (actions ++ more) = c.written actions ++ (c.after actions).written more := by
  induction actions generalizing c with
  | nil => rfl
  | cons action actions ih =>
    rw [List.cons_append, written, ih, written, List.append_assoc]
    rfl

/-- The units of all sends in a run that succeeded. -/
def sentUnits (c : Connection) : List Action → List Chunk
  | [] => []
  | action :: actions =>
    (action.unit? c.userAgent (c.step action).2.result).toList
      ++ sentUnits (c.step action).1 actions

theorem userAgent_advance (c : Connection) : c.advance.1.userAgent = c.userAgent := by
  rcases advance_cases c with ⟨-, -, h⟩ | ⟨units, rest, -, -, -, -, -, h⟩
    | ⟨units, events, -, -, -, h, -⟩ <;> rw [h] <;> rfl

theorem userAgent_step (c : Connection) (action : Action) :
    (c.step action).1.userAgent = c.userAgent := by
  have hact : (c.act action).1.userAgent = c.userAgent := by
    cases action with
    | send m =>
      obtain ⟨n, p, hsend⟩ := connection_send_eq c m
      simp only [act, hsend]
    | sendData f => exact congrArg userAgent (connection_sendData c f)
    | start | feed bytes | ignoreEvents =>
      unfold act
      dsimp only
      split <;> rfl
    | finish how | setWritable writable | close => rfl
  exact (userAgent_advance _).trans hact

/-- A message is refused and leaves no trace, or is written under the number that is returned. -/
theorem send_cases (c : Connection) (m : Message) :
    ((c.send m).written = [] ∧ ∃ e, (c.send m).result = .error e)
      ∨ ∃ n, (c.send m).result = .ok n ∧ (c.send m).written = (m.onWire c.userAgent n).encode := by
  by_cases hrequest : ∃ r, m = .request r
  · obtain ⟨r, rfl⟩ := hrequest
    rcases sendRequest_cases c r with ⟨-, hsend⟩ | ⟨-, hsend⟩ | ⟨-, hsend⟩
    · exact .inl (by simp [hsend])
    · exact .inl (by simp [hsend])
    · exact .inr ⟨c.nextCseq, by rw [hsend], by rw [hsend]; rfl⟩
  · have hother : ∀ r, m ≠ .request r := fun r hr => hrequest ⟨r, hr⟩
    have hwire : ∀ n, m.onWire c.userAgent n = m := by
      intro n
      cases m with
      | request r => exact absurd rfl (hother r)
      | response r | unknown u => rfl
    by_cases hclosed : c.closed = true
    · exact .inl (by simp [send_of_closed hclosed])
    · rw [send_other (Bool.eq_false_iff.2 hclosed) hother]
      unfold write
      split
      · exact .inr ⟨_, rfl, by rw [hwire]⟩
      · exact .inl ⟨rfl, _, rfl⟩

/-- A frame is refused, or it has a wire form and that is written. -/
theorem sendData_cases (c : Connection) (f : Interleaved) :
    ((c.sendData f).written = [] ∧ ∃ e, (c.sendData f).result = .error e)
      ∨ ((c.sendData f).result = .ok () ∧ f.encode = .ok (c.sendData f).written) := by
  unfold sendData
  split
  · exact .inl ⟨rfl, _, rfl⟩
  · cases hencode : f.encode with
    | error e => exact .inl ⟨rfl, e, rfl⟩
    | ok bytes =>
      dsimp only
      unfold write
      split
      · exact .inr ⟨rfl, rfl⟩
      · exact .inl ⟨rfl, _, rfl⟩

theorem written_act_of_other {c : Connection} {action : Action} (hsend : ∀ m, action ≠ .send m)
    (hdata : ∀ f, action ≠ .sendData f) : (c.act action).2.written = [] := by
  cases action with
  | send m => exact absurd rfl (hsend m)
  | sendData f => exact absurd rfl (hdata f)
  | start =>
    unfold act
    dsimp only
    split <;> rfl
  | _ => rfl

/-- A step puts a well-formed unit on the stream, the one that it returned for, or nothing. -/
theorem written_step {c : Connection} {action : Action}
    (hagent : ∀ a ∈ c.userAgent, Headers.IsValue a) (h : action.Sendable c.userAgent) :
    ((c.step action).2.written = []
        ∧ action.unit? c.userAgent (c.step action).2.result = none)
      ∨ ∃ unit : Chunk, unit.WellFormed ∧ unit.encode = .ok (c.step action).2.written
        ∧ action.unit? c.userAgent (c.step action).2.result = some unit.received := by
  change ((c.act action).2.written = [] ∧ action.unit? c.userAgent (c.act action).2.result = none)
    ∨ ∃ unit : Chunk, unit.WellFormed ∧ unit.encode = .ok (c.act action).2.written
      ∧ action.unit? c.userAgent (c.act action).2.result = some unit.received
  cases action with
  | send m =>
    rcases send_cases c m with ⟨hwritten, e, hresult⟩ | ⟨n, hresult, hwritten⟩
    · left
      simp only [act, hwritten, hresult]
      exact ⟨trivial, rfl⟩
    · right
      simp only [act, hwritten, hresult]
      exact ⟨.message (m.onWire c.userAgent n), h.onWire hagent n, rfl, rfl⟩
  | sendData f =>
    rcases sendData_cases c f with ⟨hwritten, e, hresult⟩ | ⟨hresult, hencode⟩
    · left
      simp only [act, hwritten, hresult]
      exact ⟨trivial, rfl⟩
    · right
      have hlength : f.payload.length ≤ 65535 := by
        unfold Interleaved.encode at hencode
        dsimp only at hencode
        split at hencode
        next hle => exact hle
        next => cases hencode
      simp only [act, hresult]
      exact ⟨.data f, hlength, hencode, rfl⟩
  | _ => exact .inl ⟨written_act_of_other (by simp) (by simp), rfl⟩

/-- Whatever is done in whatever order, where sends may fail: the peer reads one unit for each send
that succeeded, in order, and then the end of the stream. A request arrives under the number that
its send returned, which no other request has, and with the user agent of the connection if it
names none; all else arrives as it was sent. -/
theorem run_written (userAgent : Option String) (nextCseq : UInt32) (actions : List Action)
    (hagent : ∀ agent ∈ userAgent, Headers.IsValue agent)
    (hsendable : ∀ action ∈ actions, action.Sendable userAgent) :
    let start := fresh userAgent nextCseq
    Chunk.run true (start.written actions) = ⟨start.sentUnits actions, .finished, []⟩
      ∧ (∀ n r, ∃ read, (Message.onWire userAgent n (.request r)).received = .request read
        ∧ r.ArrivesAs userAgent n read)
      ∧ (requestSends actions < 2 ^ 32 → (sentNumbers (start.history actions)).Nodup) := by
  intro start
  refine ⟨?_, Message.exists_arrivesAs userAgent, nodup_sentNumbers⟩
  have hstart : start.userAgent = userAgent := rfl
  clear_value start
  induction actions generalizing start with
  | nil => exact Chunk.run_of_finished (by rw [written, Chunk.read]; rfl)
  | cons action actions ih =>
    have hrest := ih (fun a ha => hsendable a (List.mem_cons_of_mem _ ha)) (start.step action).1
      ((userAgent_step start action).trans hstart)
    have haction : action.Sendable start.userAgent := hstart ▸ hsendable action List.mem_cons_self
    rw [written, sentUnits]
    rcases written_step (hstart ▸ hagent) haction with ⟨hwritten, hunit⟩
      | ⟨unit, hwell, hencode, hunit⟩
    · rw [hwritten, hunit]
      exact hrest
    · obtain ⟨wire, hwire, hread⟩ := Chunk.read_encode hwell true
      obtain rfl := Except.ok.inj (hwire.symm.trans hencode)
      rw [hunit, Chunk.run_of_chunk (hread _), hrest]
      rfl

/-- A frame, a request that cannot be written, the same request once it can, and one that comes too
late. -/
theorem run_written_gap :
    let r : Request :=
      { method := .describe, uri := "rtsp://cam/", headers := ⟨[("cseq", "9"), ("Accept", "*")]⟩ }
    let read : Request :=
      { r with headers := ⟨[("cseq", "2"), ("Accept", "*"), ("User-Agent", "viewer")]⟩ }
    let actions : List Action :=
      [.sendData ⟨0, [36, 13, 10]⟩, .setWritable false, .send (.request r), .setWritable true,
        .send (.request r), .close, .send (.request r)]
    (∀ agent ∈ some "viewer", Headers.IsValue agent)
      ∧ (∀ action ∈ actions, action.Sendable (some "viewer"))
      ∧ Chunk.run true ((fresh (some "viewer") 1).written actions)
        = ⟨[.data ⟨0, [36, 13, 10]⟩, .message (.request read)], .finished, []⟩ := by
  intro r read actions
  have hagent : ∀ agent ∈ some "viewer", Headers.IsValue agent := by
    rintro agent ⟨⟩
    exact ⟨by decide, by decide⟩
  have hfields : ∀ e ∈ [("cseq", "9"), ("Accept", "*")], Headers.IsField e := by
    rintro e (_ | ⟨_, _ | ⟨_, ⟨⟩⟩⟩) <;>
      exact ⟨by decide, by decide, by decide, by decide, by decide, by decide⟩
  have hlines : ∀ n, ∀ e ∈ ((Message.request r).onWire (some "viewer") n).headers.written,
      (Headers.encodeEntry e).length ≤ Line.limit := by
    intro n e he
    have hwire : ((Message.request r).onWire (some "viewer") n).headers.written
        = [("cseq", toString n.toNat), ("Accept", "*"), ("User-Agent", "viewer")] := by
      have hcseq : sameIgnoringCase "cseq" "CSeq" = true := by decide
      have habsent : ∀ name ∈ ["cseq", "Accept"], sameIgnoringCase name "User-Agent" = false := by
        decide
      have hlength : ∀ name ∈ ["cseq", "Accept", "User-Agent"],
          sameIgnoringCase name "Content-Length" = false := by decide
      simp only [List.forall_mem_cons] at habsent hlength
      simp [r, Message.onWire, Message.headers, wireRequest, fresh, Headers.set, Headers.setEntry,
        Headers.setIfAbsent, Headers.contains, Headers.get?, Headers.written, Headers.isLength,
        hcseq, habsent, hlength]
    rw [hwire] at he
    rcases he with _ | ⟨_, _ | ⟨_, _ | ⟨_, ⟨⟩⟩⟩⟩
    · exact Headers.length_encodeEntry_numeral (by decide)
        (Nat.lt_trans n.toNat_lt (by decide))
    · decide
    · decide
  have hrequest : (Message.request r).Sendable (some "viewer") := {
    startLine := ⟨⟨by decide, by simp [r, Method.token, isBlank]⟩, by decide,
      ⟨by decide, by simp [r, isBlank]⟩, by decide⟩
    headers := ⟨hfields, by unfold Headers.Distinct; decide⟩
    fits := by decide
    lines := hlines
    body_le := by decide }
  have hsendable : ∀ action ∈ actions, action.Sendable (some "viewer") := by
    simp only [actions, List.forall_mem_cons, List.not_mem_nil, false_implies, implies_true,
      and_true]
    exact ⟨trivial, trivial, hrequest, trivial, hrequest, trivial, hrequest⟩
  refine ⟨hagent, hsendable, (run_written (some "viewer") 1 actions hagent hsendable).1.trans ?_⟩
  decide +kernel

end Connection
end Rtsp
