-- SUMMARY: Reading the units of a stream through a buffer that is filled as bytes arrive.
import Rtsp.Framing.Chunk

/-!
# Buffered sources

A connection hands out its bytes in portions. A reader uses up what is in the buffer, and only then
fills it with the next portion; where there is none, the stream has ended. So a line or a body may
be put together from many portions, and what was read too early stays in the buffer for later.
-/

namespace Rtsp

/-- Bytes that arrive at once, at least one of them. -/
abbrev Portion := { bytes : Bytes // bytes ≠ [] }

structure Source where
  buffer : Bytes := []
  /-- What the buffer will be filled with, in order. -/
  later : List Portion := []
  deriving DecidableEq, Repr

namespace Source

/-- All bytes that are not used up yet. -/
def bytes (s : Source) : Bytes :=
  s.buffer ++ s.later.flatMap (·.val)

/-- Portions of the size of the buffer. -/
def portions (size : Nat) (bytes : Bytes) : List Portion :=
  if hne : bytes = [] then []
  else
    let portion := bytes.take (max 1 size)
    ⟨portion, by simp [portion, hne]⟩ :: portions size (bytes.drop (max 1 size))
termination_by bytes.length
decreasing_by
  have := List.length_pos_iff.2 hne
  simp only [List.length_drop]
  omega

/-- A stream whose bytes are there whenever the buffer is filled. -/
def ofBytes (size : Nat) (bytes : Bytes) : Source where
  later := portions size bytes

-- ---------------------------------------------------------------------------
-- Taking bytes
-- ---------------------------------------------------------------------------

/-- The source with something in its buffer, if anything is left. -/
def fill : Source → Source
  | ⟨[], portion :: later⟩ => ⟨portion.val, later⟩
  | s => s

theorem bytes_fill (s : Source) : s.fill.bytes = s.bytes := by
  unfold fill
  split <;> simp [bytes]

/-- The bytes up to the first `last` one, but at most `n`. -/
def front (last : UInt8 → Bool) : Nat → Bytes → Bytes
  | 0, _ => []
  | _ + 1, [] => []
  | n + 1, b :: bs => if last b then [b] else b :: front last n bs

/-- As many bytes as there are up to the first `last` one, but at most `n`. The buffer is filled as
long as more are needed. -/
def gather (last : UInt8 → Bool) (n : Nat) (buffer : Bytes) : List Portion → Bytes × Source
  | [] => (front last n buffer, ⟨buffer.drop (front last n buffer).length, []⟩)
  | portion :: later =>
    let taken := front last n buffer
    if taken.length = n || taken.any last then
      (taken, ⟨buffer.drop taken.length, portion :: later⟩)
    else
      let (rest, s) := gather last (n - taken.length) portion.val later
      (taken ++ rest, s)

theorem front_append_drop (last : UInt8 → Bool) (n : Nat) (bs : Bytes) :
    front last n bs ++ bs.drop (front last n bs).length = bs := by
  fun_induction front last n bs with
  | case1 => simp
  | case2 => simp
  | case3 => simp
  | case4 n b bs _ ih => simp [ih]

/-- Fewer bytes are taken only where no more are there. -/
theorem front_of_incomplete {last : UInt8 → Bool} {n : Nat} {bs : Bytes}
    (h : ¬((front last n bs).length = n || (front last n bs).any last) = true) :
    front last n bs = bs := by
  fun_induction front last n bs with
  | case1 => simp at h
  | case2 => rfl
  | case3 n b bs hb => simp [hb] at h
  | case4 n b bs hb ih => simpa [hb] using ih (by simpa [hb] using h)

/-- What is taken and what is left are all bytes. -/
theorem gather_append_bytes (last : UInt8 → Bool) (n : Nat) (buffer : Bytes)
    (later : List Portion) :
    (gather last n buffer later).1 ++ (gather last n buffer later).2.bytes
      = bytes ⟨buffer, later⟩ := by
  fun_induction gather last n buffer later with
  | case1 n buffer => simp [bytes, front_append_drop]
  | case2 n buffer portion later taken _ =>
    simp only [bytes, ← List.append_assoc]
    rw [front_append_drop]
  | case3 n buffer portion later taken hmore rest s hrest ih =>
    rw [hrest] at ih
    have htaken : taken = buffer := front_of_incomplete hmore
    simp only [bytes] at ih ⊢
    rw [List.append_assoc, ih, htaken, List.flatMap_cons]

/-- The next `n` bytes, or as many as are left. -/
def take (n : Nat) (s : Source) : Bytes × Source :=
  gather (fun _ => false) n s.buffer s.later

/-- The next bytes up to a line feed, or as many as a line may have. -/
def takeLine (s : Source) : Bytes × Source :=
  gather (· == Line.lineFeed) Line.limit s.buffer s.later

theorem bytes_of_take {n : Nat} {s rest : Source} {taken : Bytes} (h : s.take n = (taken, rest)) :
    s.bytes = taken ++ rest.bytes := by
  have htaken := gather_append_bytes (fun _ => false) n s.buffer s.later
  rw [show gather (fun _ => false) n s.buffer s.later = (taken, rest) from h] at htaken
  exact htaken.symm

theorem bytes_of_takeLine {s rest : Source} {line : Bytes} (h : s.takeLine = (line, rest)) :
    s.bytes = line ++ rest.bytes := by
  have htaken := gather_append_bytes (· == Line.lineFeed) Line.limit s.buffer s.later
  rw [show gather (· == Line.lineFeed) Line.limit s.buffer s.later = (line, rest) from h] at htaken
  exact htaken.symm

theorem length_bytes_of_takeLine {s rest : Source} {line : Bytes} (h : s.takeLine = (line, rest))
    (hne : ¬line.isEmpty = true) : rest.bytes.length < s.bytes.length := by
  have hpos := List.length_pos_iff.2 (mt List.isEmpty_iff.2 hne)
  rw [bytes_of_takeLine h, List.length_append]
  omega

def dropLineFrom (buffer : Bytes) (later : List Portion) : Source :=
  match buffer.dropWhile (· != Line.lineFeed), later with
  | _ :: rest, later => ⟨rest, later⟩
  | [], portion :: later => dropLineFrom portion.val later
  | [], [] => {}
termination_by later

/-- Use up the bytes up to the next line feed. -/
def dropLine (s : Source) : Source :=
  dropLineFrom s.buffer s.later

-- ---------------------------------------------------------------------------
-- Reading
-- ---------------------------------------------------------------------------

theorem length_bytes_dropLine_le (s : Source) : s.dropLine.bytes.length ≤ s.bytes.length := by
  obtain ⟨buffer, later⟩ := s
  unfold dropLine
  fun_induction dropLineFrom buffer later with
  | case1 buffer later b rest hd =>
    have := (buffer.dropWhile_sublist (· != Line.lineFeed)).length_le
    simp only [hd, List.length_cons] at this
    simp only [bytes, List.length_append]
    omega
  | case2 buffer portion later hd ih =>
    simp only [bytes, List.flatMap_cons, List.length_append] at ih ⊢
    omega
  | case3 => simp [bytes]

/-- The next line. One that is too long is dropped, and the line after it is read instead. At the
end of the stream there is none. -/
def readLine (s : Source) : Option String × Source :=
  match _h : s.takeLine with
  | (line, rest) =>
    if line.isEmpty then (none, rest)
    else if line.getLast? = some Line.lineFeed then (some (Line.text line.dropLast), rest)
    else if line.length = Line.limit then readLine rest.dropLine
    else (some (Line.text line), rest)
termination_by s.bytes.length
decreasing_by
  rename_i hne _ _
  have := length_bytes_of_takeLine _h hne
  have := rest.length_bytes_dropLine_le
  omega

theorem length_bytes_of_readLine {s rest : Source} {line : String}
    (h : s.readLine = (some line, rest)) : rest.bytes.length < s.bytes.length := by
  fun_induction readLine s with
  | case1 => cases h
  | case2 s line after htaken hne _ =>
    obtain ⟨-, rfl⟩ := Prod.mk.inj h
    exact length_bytes_of_takeLine htaken hne
  | case3 s line after htaken hne _ _ ih =>
    have := ih h
    have := length_bytes_of_takeLine htaken hne
    have := after.length_bytes_dropLine_le
    omega
  | case4 s line after htaken hne _ _ =>
    obtain ⟨-, rfl⟩ := Prod.mk.inj h
    exact length_bytes_of_takeLine htaken hne

/-- Headers up to and including the empty line that ends them, added to those read before. -/
def readHeaders (h : Headers) (s : Source) : Option Headers × Source :=
  match _h : s.readLine with
  | (none, rest) => (none, rest)
  | (some line, rest) =>
    if line.isEmpty then (some h, rest) else readHeaders (h.addLine line) rest
termination_by s.bytes.length
decreasing_by exact length_bytes_of_readLine _h

theorem length_bytes_of_readHeaders {h h' : Headers} {s rest : Source}
    (hr : readHeaders h s = (some h', rest)) : rest.bytes.length < s.bytes.length := by
  fun_induction readHeaders h s with
  | case1 => cases hr
  | case2 h s line after hl _ =>
    obtain ⟨-, rfl⟩ := Prod.mk.inj hr
    exact length_bytes_of_readLine hl
  | case3 h s line after hl _ ih => exact Nat.lt_trans (ih hr) (length_bytes_of_readLine hl)

/-- The frame behind a marker. -/
def readFrame (s : Source) : Option Interleaved × Source :=
  match s.take 3 with
  | ([channel, hi, lo], rest) =>
    let (payload, rest) := rest.take (ofBe16 hi lo).toNat
    (if payload.length = (ofBe16 hi lo).toNat then some ⟨channel, payload⟩ else none, rest)
  | (_, rest) => (none, rest)

/-- The next unit, or none where the stream ends between two units. -/
def read (s : Source) : Except StreamError (Option Chunk) × Source :=
  match _hf : s.fill.buffer with
  | [] => (.ok none, s.fill)
  | first :: after =>
    if first = Interleaved.marker then
      match readFrame ⟨after, s.fill.later⟩ with
      | (some frame, rest) => (.ok (some (.data frame)), rest)
      | (none, rest) => (.error .endedInPayload, rest)
    else
      match _hl : s.fill.readLine with
      | (none, rest) => (.ok none, rest)
      | (some line, rest) =>
        if line.toList.all Text.isBlank then read rest
        else
          match _hh : readHeaders {} rest with
          | (none, rest) => (.error .endedInMessage, rest)
          | (some headers, rest) =>
            let length := headers.contentLength?.getD 0
            match _hb : rest.take length with
            | (body, rest) =>
              if length ≤ Chunk.bodyLimit then
                (if body.length = length then .ok (some (.message (.ofParts line headers body)))
                  else .error .endedInPayload, rest)
              else if body.length = length then read rest
              else (.error .endedInMessage, rest)
termination_by s.bytes.length
decreasing_by
  · have := length_bytes_of_readLine _hl
    rwa [bytes_fill] at this
  · have hline := length_bytes_of_readLine _hl
    have hheaders := length_bytes_of_readHeaders _hh
    rw [bytes_fill] at hline
    rw [bytes_of_take _hb, List.length_append] at hheaders
    omega

end Source
end Rtsp
