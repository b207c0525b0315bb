-- SUMMARY: One connection: sending, numbering requests, and matching responses to them.
import Rtsp.Connection.Pending
import Rtsp.Framing.Chunk

/-!
# Connections

A connection numbers the requests that are sent over it and remembers each until its response
arrives. Its reader turns arriving bytes into events: one for each unit of the stream, and a last
one that says why the stream is over. From then on nothing is pending and nothing can be sent.

The world outside acts on a connection by the actions below; `Connection.step` gives the state
after an action, what it returned, the bytes it wrote, and the events that it led to.
-/

namespace Rtsp

/-- What the reader reports. -/
inductive Event where
  /-- A message; a response that answers a pending request carries that request. -/
  | message (m : Message)
  | data (frame : Interleaved)
  /-- The reader has stopped: without a cause at a regular end of the stream. -/
  | closed (cause : Option StreamError)
  deriving DecidableEq, Repr

/-- The text that a last event gives for its cause. -/
def Event.reason? : Event → Option String
  | .closed cause => cause.map fun cause => (Error.stream cause).message
  | _ => none

/-- How a stream of arriving bytes stops. -/
inductive StreamEnd where
  | endOfStream
  | failure
  deriving DecidableEq, Repr

inductive ReaderState where
  | notStarted
  | running
  | stopped
  deriving DecidableEq, Repr

structure Connection where
  /-- Added to requests that name no user agent themselves. -/
  userAgent : Option String := some productName
  /-- The number of the next request. -/
  nextCseq : UInt32 := 1
  pending : Pending := {}
  closed : Bool := false
  reader : ReaderState := .notStarted
  /-- Bytes that have arrived and are not part of a unit that was read. -/
  inbox : Bytes := []
  /-- Set once no more bytes will arrive. -/
  inboxEnd : Option StreamEnd := none
  /-- Whether someone still takes the events. -/
  observed : Bool := true
  /-- Whether writing succeeds. -/
  writable : Bool := true
  deriving DecidableEq, Repr

namespace Connection

-- ---------------------------------------------------------------------------
-- Sending
-- ---------------------------------------------------------------------------

/-- What sending something did. -/
structure Sent (α : Type) where
  connection : Connection
  written : Bytes
  result : Except Error α

/-- Write bytes that stand for the result `a`, after which `next` is the connection. -/
def write (c next : Connection) (bytes : Bytes) (a : α) : Sent α :=
  if c.writable then ⟨next, bytes, .ok a⟩ else ⟨c, [], .error (.stream .writeFailed)⟩

/-- A request as it is written: under its number, and with a user agent. -/
def wireRequest (c : Connection) (r : Request) : Request :=
  let headers := r.headers.set "CSeq" (toString c.nextCseq.toNat)
  { r with
    headers := match c.userAgent with
      | some agent => headers.setIfAbsent "User-Agent" agent
      | none => headers }

/-- Send a request under the next number. It is pending once it is written; the number is used up
also if writing fails. -/
def sendRequest (c : Connection) (r : Request) : Sent UInt32 :=
  let cseq := c.nextCseq
  let numbered := { c with nextCseq := cseq + 1 }
  numbered.write { numbered with pending := c.pending.insert cseq r } (c.wireRequest r).encode cseq

/-- Send a message and return its number. What is no request is written unchanged. -/
def send (c : Connection) (m : Message) : Sent UInt32 :=
  if c.closed then ⟨c, [], .error .connectionClosed⟩
  else
    match m with
    | .request r => c.sendRequest r
    | m => c.write c m.encode (m.cseq?.getD 0)

/-- Send an interleaved frame. -/
def sendData (c : Connection) (frame : Interleaved) : Sent Unit :=
  if c.closed then ⟨c, [], .error .connectionClosed⟩
  else
    match frame.encode with
    | .ok bytes => c.write c bytes ()
    | .error e => ⟨c, [], .error e⟩

-- ---------------------------------------------------------------------------
-- Receiving
-- ---------------------------------------------------------------------------

/-- Match a response to the pending request of its number, which is then pending no longer. The
response gets back the number under which the caller knows the request, if it had one. -/
def correlate (c : Connection) (r : Response) : Connection × Response :=
  match r.cseq?.bind fun cseq => (c.pending.get? cseq).map fun request => (cseq, request) with
  | none => (c, r)
  | some (cseq, request) =>
    ({ c with pending := c.pending.erase cseq },
      { r with headers := r.headers.copyFrom request.headers "CSeq", answers := some request })

/-- The event that a unit of the stream gives rise to. -/
def receive (c : Connection) : Chunk → Connection × Event
  | .message (.response r) => let (c, r) := c.correlate r; (c, .message (.response r))
  | .message m => (c, .message m)
  | .data frame => (c, .data frame)

def receiveAll (c : Connection) : List Chunk → Connection × List Event
  | [] => (c, [])
  | chunk :: chunks =>
    let (c, event) := c.receive chunk
    let (c, events) := c.receiveAll chunks
    (c, event :: events)

/-- Drop the requests that can no longer be answered and refuse to send. -/
def shut (c : Connection) : Connection :=
  { c with closed := true, pending := {} }

def stop (c : Connection) : Connection :=
  { c.shut with reader := .stopped, inbox := [] }

/-- Why the reader stops after a run of reads, if it does. An error after a local close is no
cause. -/
def stopCause? (c : Connection) (ending : Chunk.Ending) : Option (Option StreamError) :=
  let failed (cause : StreamError) : Option StreamError := if c.closed then none else some cause
  match ending with
  | .finished => some none
  | .failed cause => some (failed cause)
  | .starved => if c.inboxEnd = some .failure then some (failed .readFailed) else none

/-- Let the reader read until it needs more bytes. If no one takes its events, it stops at the
first one. -/
def advance (c : Connection) : Connection × List Event :=
  if c.reader ≠ .running then (c, [])
  else
    let run := Chunk.run (c.inboxEnd == some .endOfStream) c.inbox
    if !c.observed && !run.chunks.isEmpty then (c.stop, [])
    else
      let (c, events) := { c with inbox := run.rest }.receiveAll run.chunks
      match c.stopCause? run.ending with
      | none => (c, events)
      | some cause => (c.stop, if c.observed then events ++ [.closed cause] else [])

-- ---------------------------------------------------------------------------
-- Actions
-- ---------------------------------------------------------------------------

inductive Action where
  /-- Start the reader. -/
  | start
  | send (m : Message)
  | sendData (frame : Interleaved)
  /-- Bytes arrive. -/
  | feed (bytes : Bytes)
  /-- No more bytes will arrive. -/
  | finish (how : StreamEnd)
  /-- From now on writing succeeds, or fails. -/
  | setWritable (writable : Bool)
  /-- Close the connection on this side. -/
  | close
  /-- Stop taking the events of a reader that was started. -/
  | ignoreEvents
  deriving DecidableEq, Repr

/-- What an action returns, writes, and leads to. -/
structure Effect where
  /-- The number of a sent message, if one was sent. -/
  result : Except Error (Option UInt32) := .ok none
  written : Bytes := []
  events : List Event := []

/-- The effect of an action, before the reader takes its turn. -/
def act (c : Connection) : Action → Connection × Effect
  | .start =>
    if c.reader = .notStarted then ({ c with reader := .running }, {})
    else (c, { result := .error .alreadyStarted })
  | .send m =>
    let s := c.send m
    (s.connection, { result := s.result.map some, written := s.written })
  | .sendData frame =>
    let s := c.sendData frame
    (s.connection, { result := s.result.map fun _ => none, written := s.written })
  | .feed bytes => (if c.reader = .stopped then c else { c with inbox := c.inbox ++ bytes }, {})
  | .finish how => ({ c with inboxEnd := some (c.inboxEnd.getD how) }, {})
  | .setWritable writable => ({ c with writable }, {})
  | .close => (c.shut, {})
  | .ignoreEvents => (if c.reader = .notStarted then c else { c with observed := false }, {})

def step (c : Connection) (action : Action) : Connection × Effect :=
  let (c, effect) := c.act action
  let (c, events) := c.advance
  (c, { effect with events })

end Connection
end Rtsp
