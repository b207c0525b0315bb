-- SUMMARY: The units of a connection: messages and interleaved frames.
import Rtsp.Error
import Rtsp.Framing.Line
import Rtsp.Message.Basic

/-!
# Chunks

One connection carries messages and, between them, binary frames that start with a dollar sign.
No start line begins with a dollar sign, so the first byte of a unit tells which of the two it is.

`Chunk.read` reads the next unit. Blank lines between units are skipped, and so is a message whose
declared body exceeds `Chunk.bodyLimit`. A message is delivered only when its whole body is there.
-/

namespace Rtsp

/-- A binary frame, sent on one of the channels that a session has set up. -/
structure Interleaved where
  channel : UInt8
  payload : Bytes
  deriving DecidableEq, Repr

namespace Interleaved

/-- The dollar sign. -/
def marker : UInt8 := 0x24

/-- Marker, channel, length in two bytes, payload. A longer payload has no wire form. -/
def encode (f : Interleaved) : Except Error Bytes :=
  let length := f.payload.length
  if length ≤ 65535 then
    .ok (marker :: f.channel :: (be16 (UInt16.ofNat length) ++ f.payload))
  else .error .payloadTooLong

/-- The frame behind a marker. -/
def read (ended : Bool) : Bytes → Reading Interleaved
  | channel :: hi :: lo :: input =>
    match Reading.exactly ended (ofBe16 hi lo).toNat input with
    | .done payload rest => .done ⟨channel, payload⟩ rest
    | .starved => .starved
    | .ended => .ended
  | _ => .missing ended

theorem read_length_le {ended : Bool} {input rest : Bytes} {f : Interleaved}
    (h : read ended input = .done f rest) : rest.length ≤ input.length := by
  unfold read at h
  split at h
  · split at h
    · rename_i hr
      simp only [Reading.done.injEq] at h
      obtain ⟨-, rfl⟩ := h
      have := Reading.exactly_length_le hr
      simp; omega
    · cases h
    · cases h
  · simp only [Reading.missing] at h
    split at h <;> cases h

end Interleaved

/-- The headers up to and including the empty line that ends them, added to those read before. -/
def Headers.read (ended : Bool) (h : Headers) (input : Bytes) : Reading Headers :=
  match _h : Line.read ended input with
  | .done line rest =>
    if line.isEmpty then .done h rest else Headers.read ended (h.addLine line) rest
  | .starved => .starved
  | .ended => .ended
termination_by input.length
decreasing_by exact Line.read_length_lt _h

theorem Headers.read_length_lt {ended : Bool} {h h' : Headers} {input rest : Bytes}
    (hr : Headers.read ended h input = .done h' rest) : rest.length < input.length := by
  fun_induction Headers.read ended h input with
  | case1 h input line after hl _ =>
    simp only [Reading.done.injEq] at hr
    obtain ⟨-, rfl⟩ := hr
    exact Line.read_length_lt hl
  | case2 h input line after hl _ ih => exact Nat.lt_trans (ih hr) (Line.read_length_lt hl)
  | case3 => cases hr
  | case4 => cases hr

inductive Chunk where
  | message (m : Message)
  | data (frame : Interleaved)
  deriving DecidableEq, Repr

namespace Chunk

def encode : Chunk → Except Error Bytes
  | message m => .ok m.encode
  | data frame => frame.encode

/-- A message whose body is longer than this is skipped. -/
def bodyLimit : Nat := 4 * 1024 * 1024

/-- What stands at the front of a stream. -/
inductive Outcome where
  | chunk (c : Chunk) (rest : Bytes)
  /-- The unit at the front is incomplete, and more bytes may arrive. -/
  | starved
  /-- The stream ended inside a unit. -/
  | failed (cause : StreamError)
  /-- The stream ended between two units. -/
  | finished
  deriving DecidableEq, Repr

/-- The next unit of a stream. -/
def read (ended : Bool) (input : Bytes) : Outcome :=
  match input with
  | [] => if ended then .finished else .starved
  | first :: after =>
    if first = Interleaved.marker then
      match Interleaved.read ended after with
      | .done frame rest => .chunk (.data frame) rest
      | .starved => .starved
      | .ended => .failed .endedInPayload
    else
      match _hl : Line.read ended (first :: after) with
      | .starved => .starved
      | .ended => .finished
      | .done line rest =>
        if line.toList.all Text.isBlank then read ended rest
        else
          match _hh : Headers.read ended {} rest with
          | .starved => .starved
          | .ended => .failed .endedInMessage
          | .done headers rest =>
            let length := headers.contentLength?.getD 0
            match _hb : Reading.exactly ended length rest with
            | .starved => .starved
            | .ended =>
              .failed (if length ≤ bodyLimit then .endedInPayload else .endedInMessage)
            | .done body rest =>
              if length ≤ bodyLimit then .chunk (.message (.ofParts line headers body)) rest
              else read ended rest
termination_by input.length
decreasing_by
  · exact Line.read_length_lt _hl
  · have := Line.read_length_lt _hl
    have := Headers.read_length_lt _hh
    have := Reading.exactly_length_le _hb
    omega

theorem read_length_lt {ended : Bool} {input rest : Bytes} {c : Chunk}
    (h : read ended input = .chunk c rest) : rest.length < input.length := by
  fun_induction read ended input with
  | case3 after frame after' hr =>
    simp only [Outcome.chunk.injEq] at h
    obtain ⟨-, rfl⟩ := h
    have := Interleaved.read_length_le hr
    simp; omega
  | case8 first after _ line after' hl _ ih =>
    exact Nat.lt_trans (ih h) (Line.read_length_lt hl)
  | case13 first after _ line r1 hl _ headers r2 hh length body r3 hb _ =>
    simp only [Outcome.chunk.injEq] at h
    obtain ⟨-, rfl⟩ := h
    have := Line.read_length_lt hl
    have := Headers.read_length_lt hh
    have := Reading.exactly_length_le hb
    omega
  | case14 first after _ line r1 hl _ headers r2 hh length body r3 hb _ ih =>
    have := ih h
    have := Line.read_length_lt hl
    have := Headers.read_length_lt hh
    have := Reading.exactly_length_le hb
    omega
  | _ => cases h

-- ---------------------------------------------------------------------------
-- Runs
-- ---------------------------------------------------------------------------

/-- How a run of reads ends. -/
inductive Ending where
  | starved
  | failed (cause : StreamError)
  | finished
  deriving DecidableEq, Repr

/-- All units at the front of a stream, how the run of reads ends, and the bytes left for later. -/
structure Run where
  chunks : List Chunk
  ending : Ending
  rest : Bytes
  deriving DecidableEq, Repr

/-- Read until more bytes are needed or the stream is over. -/
def run (ended : Bool) (input : Bytes) : Run :=
  match _h : read ended input with
  | .chunk c rest => let r := run ended rest; { r with chunks := c :: r.chunks }
  | .starved => ⟨[], .starved, input⟩
  | .failed cause => ⟨[], .failed cause, []⟩
  | .finished => ⟨[], .finished, []⟩
termination_by input.length
decreasing_by exact read_length_lt _h

end Chunk
end Rtsp
