-- SUMMARY: What is read from a source depends on its bytes alone, however they arrive.
import Rtsp.Framing.Source
import Rtsp.Proofs.Framing.RoundTrip
import Rtsp.Proofs.Framing.Units

/-!
# Sources

Whatever portions the bytes of a source arrive in, each of its readers does what the reader of the
bytes does on an ended stream (`Source.Follows`). For `Source.gather` this is an induction on the
portions; all other readers are put together from it. So two sources with the same bytes give the
same results, and have the same bytes left, at every read (`Source.reads_eq_of_bytes`).
-/

namespace Rtsp.Source

open Text

/-! ## Taking bytes -/

theorem front_append (last : UInt8 → Bool) (n : Nat) (bs more : Bytes) :
    front last n (bs ++ more)
      = if (front last n bs).length = n || (front last n bs).any last then front last n bs
        else front last n bs ++ front last (n - (front last n bs).length) more := by
  fun_induction front last n bs with
  | case1 bs => simp [front]
  | case2 n => simp
  | case3 n b bs hb => simp [front, hb]
  | case4 n b bs hb ih =>
    rw [List.cons_append, front, if_neg hb, ih]
    simp only [List.length_cons, Nat.succ.injEq, List.any_cons, hb, Bool.false_or]
    split
    · rfl
    · rw [Nat.succ_sub_succ]
      rfl

/-- The cuts between the portions are not seen. -/
theorem gather_eq (last : UInt8 → Bool) (n : Nat) (buffer : Bytes) (later : List Portion) :
    (gather last n buffer later).1 = front last n (bytes ⟨buffer, later⟩) := by
  fun_induction gather last n buffer later with
  | case1 n buffer => simp [bytes]
  | case2 n buffer portion later taken hdone => rw [bytes, front_append, if_pos hdone]
  | case3 n buffer portion later taken hmore rest s hrest ih =>
    rw [hrest] at ih
    rw [bytes, front_append, if_neg hmore, List.flatMap_cons]
    exact congrArg (taken ++ ·) ih

theorem front_eq_take {last : UInt8 → Bool} {bs : Bytes} (h : ∀ b ∈ bs, last b = false) (n : Nat) :
    front last n bs = bs.take n := by
  fun_induction front last n bs with
  | case1 => simp
  | case2 => simp
  | case3 n b bs hb => exact absurd (h b List.mem_cons_self) (by simp [hb])
  | case4 n b bs hb ih =>
    rw [List.take_succ_cons, ih fun c hc => h c (List.mem_cons_of_mem _ hc)]

theorem front_append_cons {last : UInt8 → Bool} {bs : Bytes} (h : ∀ b ∈ bs, last b = false)
    {b : UInt8} (hb : last b = true) (n : Nat) (more : Bytes) :
    front last n (bs ++ b :: more) = (bs ++ [b]).take n := by
  induction bs generalizing n with
  | nil => cases n <;> simp [front, hb]
  | cons c bs ih =>
    have hc : ¬last c = true := by simp [h c List.mem_cons_self]
    cases n with
    | zero => rfl
    | succ n =>
      rw [List.cons_append, front, if_neg hc, ih fun d hd => h d (List.mem_cons_of_mem _ hd)]
      rfl

/-- What is taken is told by the bytes, and so is what is left. -/
theorem gather_of_front {last : UInt8 → Bool} {n : Nat} {s : Source} {taken rest : Bytes}
    (hbytes : s.bytes = taken ++ rest) (hfront : front last n (taken ++ rest) = taken) :
    (gather last n s.buffer s.later).1 = taken
      ∧ (gather last n s.buffer s.later).2.bytes = rest := by
  have htaken : (gather last n s.buffer s.later).1 = taken :=
    (gather_eq last n s.buffer s.later).trans (hbytes ▸ hfront)
  have hall := (gather_append_bytes last n s.buffer s.later).trans hbytes
  rw [htaken] at hall
  exact ⟨htaken, List.append_cancel_left hall⟩

theorem take_eq (n : Nat) (s : Source) :
    (s.take n).1 = s.bytes.take n ∧ (s.take n).2.bytes = s.bytes.drop n := by
  have hbytes := (List.take_append_drop n s.bytes).symm
  refine gather_of_front hbytes ?_
  rw [← hbytes, front_eq_take (fun _ _ => rfl)]

/-! ## Lines -/

theorem not_last_of_mem {line : Bytes} (h : Line.lineFeed ∉ line) :
    ∀ b ∈ line, (b == Line.lineFeed) = false :=
  fun _ hb => beq_eq_false_iff_ne.2 (ne_of_mem_of_not_mem hb h)

section

variable {s : Source} {line rest : Bytes}

/-- A line that fits is taken with its line feed. -/
theorem takeLine_of_short (hbytes : s.bytes = line ++ Line.lineFeed :: rest)
    (h : Line.lineFeed ∉ line) (hshort : line.length < Line.limit) :
    s.takeLine.1 = line ++ [Line.lineFeed] ∧ s.takeLine.2.bytes = rest := by
  have hparts : line ++ Line.lineFeed :: rest = (line ++ [Line.lineFeed]) ++ rest := by simp
  have hfits : (line ++ [Line.lineFeed]).length ≤ Line.limit := by
    rw [List.length_append]
    exact hshort
  refine gather_of_front (hbytes.trans hparts) ?_
  rw [← hparts, front_append_cons (not_last_of_mem h) BEq.rfl, List.take_of_length_le hfits]

theorem takeLine_of_last (h : Line.lineFeed ∉ s.bytes) (hshort : s.bytes.length < Line.limit) :
    s.takeLine.1 = s.bytes ∧ s.takeLine.2.bytes = [] := by
  refine gather_of_front (List.append_nil _).symm ?_
  rw [List.append_nil, front_eq_take (not_last_of_mem h),
    List.take_of_length_le (Nat.le_of_lt hshort)]

/-- Of a line that does not fit, as much is taken as would. -/
theorem takeLine_of_long (hbytes : s.bytes = line ++ rest) (h : Line.lineFeed ∉ line)
    (hlong : Line.limit ≤ line.length) :
    s.takeLine.1 = line.take Line.limit ∧ s.takeLine.2.bytes = line.drop Line.limit ++ rest := by
  have hparts : line ++ rest = line.take Line.limit ++ (line.drop Line.limit ++ rest) := by
    rw [← List.append_assoc, List.take_append_drop]
  have hfeed : Line.lineFeed ∉ line.take Line.limit := fun hmem => h (List.mem_of_mem_take hmem)
  refine gather_of_front (hbytes.trans hparts) ?_
  rw [front_append, front_eq_take (not_last_of_mem hfeed), List.take_take, Nat.min_self,
    if_pos (by simp [hlong])]

theorem bytes_dropLine (s : Source) :
    s.dropLine.bytes = (s.bytes.dropWhile (· != Line.lineFeed)).drop 1 := by
  obtain ⟨buffer, later⟩ := s
  unfold dropLine
  fun_induction dropLineFrom buffer later with
  | case1 buffer later b rest hd =>
    simp only [bytes]
    rw [List.dropWhile_append, hd]
    simp
  | case2 buffer portion later hd ih =>
    simp only [bytes] at ih ⊢
    rw [List.dropWhile_append, hd]
    simpa using ih
  | case3 buffer hd => simp [bytes, hd]

/-! ## Readers -/

/-- A source gave what is read from its bytes if no others follow. Where that is nothing, no bytes
are left. -/
def Gave {α : Type} (r : Reading α) : Option α × Source → Prop
  | (some value, rest) => r = .done value rest.bytes
  | (none, rest) => r = .ended ∧ rest.bytes = []

theorem readLine_eq (s : Source) :
    s.readLine
      = if s.takeLine.1.isEmpty then (none, s.takeLine.2)
        else if s.takeLine.1.getLast? = some Line.lineFeed then
          (some (Line.text s.takeLine.1.dropLast), s.takeLine.2)
        else if s.takeLine.1.length = Line.limit then s.takeLine.2.dropLine.readLine
        else (some (Line.text s.takeLine.1), s.takeLine.2) := by
  rw [readLine]

theorem readLine_of_short (hbytes : s.bytes = line ++ Line.lineFeed :: rest)
    (h : Line.lineFeed ∉ line) (hshort : line.length < Line.limit) :
    Gave (.done (Line.text line) rest) s.readLine := by
  obtain ⟨htaken, hrest⟩ := takeLine_of_short hbytes h hshort
  rw [readLine_eq, htaken, if_neg (by simp), if_pos (by simp), List.dropLast_concat]
  exact congrArg _ hrest.symm

theorem readLine_of_last (h : Line.lineFeed ∉ s.bytes) (hshort : s.bytes.length < Line.limit) :
    Gave (Line.read true s.bytes) s.readLine := by
  obtain ⟨htaken, hrest⟩ := takeLine_of_last h hshort
  rw [Line.read_of_not_mem h, readLine_eq, htaken, if_neg (mt List.mem_of_getLast? h),
    if_neg (Nat.ne_of_lt hshort)]
  cases hempty : s.bytes.isEmpty with
  | true => exact ⟨rfl, hrest⟩
  | false =>
    simp only [hshort]
    exact congrArg _ hrest.symm

/-- The line behind one that does not fit is read instead. -/
theorem readLine_of_long (hbytes : s.bytes = line ++ rest) (h : Line.lineFeed ∉ line)
    (hlong : Line.limit ≤ line.length) :
    ∃ next : Source, s.readLine = next.readLine
      ∧ next.bytes = (rest.dropWhile (· != Line.lineFeed)).drop 1 := by
  obtain ⟨htaken, hrest⟩ := takeLine_of_long hbytes h hlong
  have hlength : (line.take Line.limit).length = Line.limit := List.length_take_of_le hlong
  have hne : ¬(line.take Line.limit).isEmpty = true := by
    rw [List.isEmpty_iff_length_eq_zero, hlength]
    decide
  refine ⟨s.takeLine.2.dropLine, ?_, ?_⟩
  · rw [readLine_eq, htaken, if_neg hne,
      if_neg fun hlast => h (List.mem_of_mem_take (List.mem_of_getLast? hlast)), if_pos hlength]
  · rw [bytes_dropLine, hrest, List.dropWhile_append_of_pos]
    exact Line.ne_lineFeed_of_mem fun hmem => h (List.mem_of_mem_drop hmem)

end

theorem gave_readLine (s : Source) : Gave (Line.read true s.bytes) s.readLine := by
  generalize hbytes : s.bytes = input
  induction input using Line.induction generalizing s with
  | last input hinput =>
    subst hbytes
    by_cases hshort : s.bytes.length < Line.limit
    · exact readLine_of_last hinput hshort
    · obtain ⟨next, hnext, hrest⟩ :=
        readLine_of_long (List.append_nil _).symm hinput (Nat.not_lt.1 hshort)
      have hlast := readLine_of_last (s := next) (by simp [hrest]) (by rw [hrest]; decide)
      rw [Line.read_of_not_mem hinput, if_neg (by simp [hshort]), hnext]
      rwa [hrest, List.dropWhile_nil, List.drop_nil, Line.read_nil] at hlast
  | cons line after hline ih =>
    rw [Line.read_cons hline]
    split
    next hshort => exact readLine_of_short hbytes hline hshort
    next hlong =>
      obtain ⟨next, hnext, hrest⟩ := readLine_of_long hbytes hline (Nat.not_lt.1 hlong)
      rw [hnext]
      exact ih next (by simp [hrest])

theorem gave_readHeaders (h : Headers) (s : Source) :
    Gave (Headers.read true h s.bytes) (readHeaders h s) := by
  fun_induction readHeaders h s with
  | case1 h s rest hl =>
    obtain ⟨hread, hrest⟩ : Gave _ _ := hl ▸ gave_readLine s
    exact ⟨Headers.read_of_ended hread, hrest⟩
  | case2 h s line rest hl hempty =>
    have hread : Gave _ _ := hl ▸ gave_readLine s
    exact Headers.read_of_empty hread hempty
  | case3 h s line rest hl hne ih =>
    have hread : Gave _ _ := hl ▸ gave_readLine s
    rwa [Headers.read_of_line hread (by simpa using hne)]

section

variable {n : Nat} {s rest : Source} {taken : Bytes}

theorem exactly_of_take (h : s.take n = (taken, rest)) (hall : taken.length = n) :
    Reading.exactly true n s.bytes = .done taken rest.bytes := by
  rw [bytes_of_take h, ← hall]
  exact Reading.exactly_append true taken rest.bytes

theorem exactly_of_take_short (h : s.take n = (taken, rest)) (hshort : taken.length ≠ n) :
    Reading.exactly true n s.bytes = .ended ∧ rest.bytes = [] := by
  obtain ⟨htaken, hrest⟩ := take_eq n s
  rw [h] at htaken hrest
  dsimp only at htaken hrest
  have hlength : ¬n ≤ s.bytes.length := fun hle => hshort (htaken ▸ List.length_take_of_le hle)
  refine ⟨if_neg (htaken ▸ hshort), ?_⟩
  rw [hrest, List.drop_of_length_le (Nat.le_of_not_le hlength)]

end

theorem gave_readFrame (s : Source) : Gave (Interleaved.read true s.bytes) s.readFrame := by
  unfold readFrame
  split
  next channel hi lo rest htake =>
    have hbytes : s.bytes = channel :: hi :: lo :: rest.bytes := bytes_of_take htake
    cases hpayload : rest.take (ofBe16 hi lo).toNat with
    | mk payload after =>
      by_cases hall : payload.length = (ofBe16 hi lo).toNat
      · simp only [hbytes, Interleaved.read, exactly_of_take hpayload hall, if_pos hall]
        rfl
      · obtain ⟨hread, hnone⟩ := exactly_of_take_short hpayload hall
        simp only [hbytes, Interleaved.read, hread, if_neg hall]
        exact ⟨rfl, hnone⟩
  next taken rest hnot htake =>
    have hshort : taken.length ≠ 3 := by
      intro hlength
      obtain ⟨channel, hi, lo, htaken⟩ := List.length_eq_three.1 hlength
      exact hnot channel hi lo htaken
    obtain ⟨hread, hnone⟩ := exactly_of_take_short htake hshort
    refine ⟨?_, hnone⟩
    unfold Interleaved.read
    split
    next channel hi lo after hbytes => cases hbytes ▸ hread
    next => rfl

/-- The result of a read, and the bytes that it leaves, where no more bytes follow. -/
def outcome : Chunk.Outcome → Except StreamError (Option Chunk) × Bytes
  | .chunk c rest => (.ok (some c), rest)
  | .failed cause => (.error cause, [])
  | .finished | .starved => (.ok none, [])

/-- After it was filled, the buffer is empty only where nothing is left. -/
theorem bytes_of_fill_nil {s : Source} (h : s.fill.buffer = []) : s.bytes = [] := by
  match s, h with
  | ⟨[], []⟩, _ => rfl
  | ⟨[], portion :: later⟩, h => exact absurd h portion.property
  | ⟨_ :: _, _⟩, h => cases h

theorem bytes_of_fill_cons {s : Source} {b : UInt8} {bs : Bytes} (h : s.fill.buffer = b :: bs) :
    s.bytes = b :: bytes ⟨bs, s.fill.later⟩ := by
  rw [← bytes_fill, bytes, h]
  rfl

theorem head?_ne {s : Source} {b c : UInt8} {bs : Bytes} (h : s.fill.buffer = b :: bs)
    (hne : ¬b = c) : s.bytes.head? ≠ some c := by
  rw [bytes_of_fill_cons h]
  simpa using hne

theorem read_of_readLine {s rest : Source} {line : String}
    (h : s.fill.readLine = (some line, rest)) :
    Line.read true s.bytes = .done line rest.bytes := by
  have hread : Gave _ _ := h ▸ gave_readLine s.fill
  rwa [bytes_fill] at hread

/-- A message whose body is cut off is not read. -/
theorem read_of_cut {s r₁ r₂ rest : Source} (hmarker : s.bytes.head? ≠ some Interleaved.marker)
    {line : String} (hline : Line.read true s.bytes = .done line r₁.bytes)
    (hblank : ¬line.toList.all isBlank = true) {headers : Headers}
    (hhead : Headers.read true {} r₁.bytes = .done headers r₂.bytes) {body : Bytes}
    (hbody : r₂.take (headers.contentLength?.getD 0) = (body, rest))
    (hshort : body.length ≠ headers.contentLength?.getD 0) :
    Chunk.read true s.bytes
        = .failed (if headers.contentLength?.getD 0 ≤ Chunk.bodyLimit then .endedInPayload
          else .endedInMessage)
      ∧ rest.bytes = [] := by
  obtain ⟨hread, hrest⟩ := exactly_of_take_short hbody hshort
  have hfront : Chunk.front true s.bytes
      = .stop (.failed (if headers.contentLength?.getD 0 ≤ Chunk.bodyLimit then .endedInPayload
        else .endedInMessage)) := by
    simp only [Chunk.front, if_neg hmarker, hline, if_neg hblank, hhead, hread]
  rw [Chunk.read_eq_front, hfront]
  exact ⟨rfl, hrest⟩

/-- What is read from a source, and what is left, depends on its bytes alone. -/
theorem read_eq (s : Source) :
    (s.read.1, s.read.2.bytes) = outcome (Chunk.read true s.bytes) := by
  fun_induction read s with
  | case1 s hbuffer =>
    rw [bytes_fill, bytes_of_fill_nil hbuffer, Chunk.read]
    rfl
  | case2 s after frame rest hframe hbuffer =>
    have hread : Gave _ _ := hframe ▸ gave_readFrame ⟨after, s.fill.later⟩
    rw [bytes_of_fill_cons hbuffer, Chunk.read, if_pos rfl, hread]
    rfl
  | case3 s after rest hframe hbuffer =>
    obtain ⟨hread, hrest⟩ : Gave _ _ := hframe ▸ gave_readFrame ⟨after, s.fill.later⟩
    rw [bytes_of_fill_cons hbuffer, Chunk.read, if_pos rfl, hread, hrest]
    rfl
  | case4 s first after hbuffer hmarker rest hline =>
    obtain ⟨hread, hrest⟩ : Gave _ _ := hline ▸ gave_readLine s.fill
    rw [bytes_fill] at hread
    have hfront : Chunk.front true s.bytes = .stop .finished := by
      simp only [Chunk.front, if_neg (head?_ne hbuffer hmarker), hread]
    rw [Chunk.read_eq_front, hfront, hrest]
    rfl
  | case5 s first after hbuffer hmarker line rest hline hblank ih =>
    rw [ih, Chunk.read_blank (head?_ne hbuffer hmarker) (read_of_readLine hline) hblank]
  | case6 s first after hbuffer hmarker line r₁ hline hblank rest hheaders =>
    obtain ⟨hhead, hrest⟩ : Gave _ _ := hheaders ▸ gave_readHeaders {} r₁
    have hfront : Chunk.front true s.bytes = .stop (.failed .endedInMessage) := by
      simp only [Chunk.front, if_neg (head?_ne hbuffer hmarker), read_of_readLine hline,
        if_neg hblank, hhead]
    rw [Chunk.read_eq_front, hfront, hrest]
    rfl
  | case7 s first after hbuffer hmarker line r₁ hline hblank headers r₂ hheaders length body rest
      hbody hle =>
    have hhead : Gave _ _ := hheaders ▸ gave_readHeaders {} r₁
    by_cases hall : body.length = length
    · rw [if_pos hall, Chunk.read_message (head?_ne hbuffer hmarker) (read_of_readLine hline)
        (by simpa using hblank) hhead (exactly_of_take hbody hall) hle]
      rfl
    · obtain ⟨hread, hrest⟩ := read_of_cut (head?_ne hbuffer hmarker) (read_of_readLine hline)
        hblank hhead hbody hall
      rw [if_neg hall, hread, if_pos hle, hrest]
      rfl
  | case8 s first after hbuffer hmarker line r₁ hline hblank headers r₂ hheaders length body rest
      hbody hlong hall ih =>
    have hhead : Gave _ _ := hheaders ▸ gave_readHeaders {} r₁
    have hfront := Chunk.front_of_isUnit (.message (head?_ne hbuffer hmarker)
      (read_of_readLine hline) (by simpa using hblank) hhead (exactly_of_take hbody hall))
    have htoo : ¬headers.contentLength?.getD 0 ≤ Chunk.bodyLimit := hlong
    rw [if_neg htoo] at hfront
    rw [ih, Chunk.read_eq_front true s.bytes, hfront]
  | case9 s first after hbuffer hmarker line r₁ hline hblank headers r₂ hheaders length body rest
      hbody hlong hshort =>
    have hhead : Gave _ _ := hheaders ▸ gave_readHeaders {} r₁
    obtain ⟨hread, hrest⟩ := read_of_cut (head?_ne hbuffer hmarker) (read_of_readLine hline)
      hblank hhead hbody hshort
    rw [hread, if_neg hlong, hrest]
    rfl

/-! ## Repeated reads -/

/-- The results of `n` reads, also behind an error or the end, each with the number of bytes that it
used up. -/
def reads : Nat → Source → List (Except StreamError (Option Chunk) × Nat)
  | 0, _ => []
  | n + 1, s => (s.read.1, s.bytes.length - s.read.2.bytes.length) :: reads n s.read.2

/-- Which portions the bytes arrive in does not matter. -/
theorem reads_eq_of_bytes {s t : Source} (h : s.bytes = t.bytes) (n : Nat) :
    reads n s = reads n t := by
  induction n generalizing s t with
  | zero => rfl
  | succ n ih =>
    have hread : (s.read.1, s.read.2.bytes) = (t.read.1, t.read.2.bytes) :=
      (read_eq s).trans (h ▸ (read_eq t).symm)
    obtain ⟨hresult, hrest⟩ := Prod.mk.inj hread
    rw [reads, reads, hresult, hrest, h, ih hrest]

/-- The size of the buffer changes no bytes. -/
theorem bytes_ofBytes (size : Nat) (bs : Bytes) : (ofBytes size bs).bytes = bs := by
  have hportions : (portions size bs).flatMap (·.val) = bs := by
    fun_induction portions size bs with
    | case1 => rfl
    | case2 bs hne portion ih => rw [List.flatMap_cons, ih, List.take_append_drop]
  exact hportions

end Rtsp.Source
