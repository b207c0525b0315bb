-- SUMMARY: Runs of reads: how one goes on after each unit, and what holds of every unit it reads.
import Rtsp.Proofs.Framing.Line
import Rtsp.Proofs.Message.Fields

/-!
# Runs of reads

A run is determined by its first read and by the run over what that leaves. Whatever bytes arrive,
each unit that is read from them can be written again, but for the length of its lines
(`Chunk.IsDelivered`), and no response that is read is matched to a request yet (`Chunk.IsRead`).
Where no more bytes will arrive, none are waited for (`Chunk.ending_run_true`).
-/

namespace Rtsp

/-! ## Counted bytes -/

namespace Reading

variable {α : Type}

theorem missing_ne_done {ended : Bool} {value : α} {rest : Bytes} :
    (missing ended : Reading α) ≠ .done value rest := by
  unfold missing
  split <;> simp

theorem exactly_eq_done_iff {ended : Bool} {n : Nat} {input taken rest : Bytes} :
    exactly ended n input = .done taken rest
      ↔ n ≤ input.length ∧ taken = input.take n ∧ rest = input.drop n := by
  unfold exactly
  simp only [List.length_take]
  by_cases h : n ≤ input.length
  · rw [if_pos (Nat.min_eq_left h)]
    simp [h, eq_comm]
  · rw [if_neg (by omega)]
    simp [h, missing_ne_done]

end Reading

theorem Interleaved.read_eq_done_iff {ended : Bool} {input rest : Bytes} {f : Interleaved} :
    read ended input = .done f rest
      ↔ ∃ hi lo after, input = f.channel :: hi :: lo :: after
        ∧ Reading.exactly ended (ofBe16 hi lo).toNat after = .done f.payload rest := by
  constructor
  · intro h
    unfold read at h
    split at h
    next channel hi lo after =>
      split at h
      next payload rest' hread =>
        obtain ⟨rfl, rfl⟩ := Reading.done.inj h
        exact ⟨hi, lo, after, rfl, hread⟩
      next => cases h
      next => cases h
    next => exact absurd h Reading.missing_ne_done
  · rintro ⟨hi, lo, after, rfl, hread⟩
    simp only [read, hread]

/-! ## Headers -/

theorem Headers.read_of_line {ended : Bool} {h : Headers} {input rest : Bytes} {line : String}
    (hl : Line.read ended input = .done line rest) (hne : line.isEmpty = false) :
    Headers.read ended h input = Headers.read ended (h.addLine line) rest := by
  rw [Headers.read]
  split
  next line' rest' hl' =>
    obtain ⟨rfl, rfl⟩ := Reading.done.inj (hl'.symm.trans hl)
    rw [if_neg (by simp [hne])]
  next hl' => cases hl'.symm.trans hl
  next hl' => cases hl'.symm.trans hl

theorem Headers.read_of_empty {ended : Bool} {h : Headers} {input rest : Bytes} {line : String}
    (hl : Line.read ended input = .done line rest) (hempty : line.isEmpty) :
    Headers.read ended h input = .done h rest := by
  rw [Headers.read]
  split
  next line' rest' hl' =>
    obtain ⟨rfl, rfl⟩ := Reading.done.inj (hl'.symm.trans hl)
    rw [if_pos hempty]
  next hl' => cases hl'.symm.trans hl
  next hl' => cases hl'.symm.trans hl

theorem Headers.read_of_ended {ended : Bool} {h : Headers} {input : Bytes}
    (hl : Line.read ended input = .ended) : Headers.read ended h input = .ended := by
  rw [Headers.read]
  split
  next hl' => cases hl'.symm.trans hl
  next hl' => cases hl'.symm.trans hl
  next => rfl

theorem Headers.read_of_starved {ended : Bool} {h : Headers} {input : Bytes}
    (hl : Line.read ended input = .starved) : Headers.read ended h input = .starved := by
  rw [Headers.read]
  split
  next hl' => cases hl'.symm.trans hl
  next => rfl
  next hl' => cases hl'.symm.trans hl

/-- Of what is in front, only the line that is read counts. -/
theorem Headers.read_of_line_eq {ended : Bool} {h : Headers} {input input' : Bytes}
    (hline : Line.read ended input = Line.read ended input') :
    Headers.read ended h input = Headers.read ended h input' := by
  cases hl : Line.read ended input' with
  | starved => rw [read_of_starved (hline.trans hl), read_of_starved hl]
  | ended => rw [read_of_ended (hline.trans hl), read_of_ended hl]
  | done line rest =>
    cases hempty : line.isEmpty with
    | false => rw [read_of_line (hline.trans hl) hempty, read_of_line hl hempty]
    | true => rw [read_of_empty (hline.trans hl) hempty, read_of_empty hl hempty]

theorem Headers.Readable.read {ended : Bool} {h h' : Headers} {input rest : Bytes}
    (hr : h.Readable) (hread : Headers.read ended h input = .done h' rest) : h'.Readable := by
  fun_induction Headers.read ended h input with
  | case1 h input line after hl _ =>
    obtain ⟨rfl, -⟩ := Reading.done.inj hread
    exact hr
  | case2 h input line after hl _ ih =>
    exact ih (hr.addLine (Line.lineFeed_not_mem_of_read hl)) hread
  | case3 => cases hread
  | case4 => cases hread

/-! ## Units -/

namespace Message

theorem startLine_ofParts (line : String) (headers : Headers) (body : Bytes) :
    (ofParts line headers body).startLine = StartLine.read line := by
  unfold ofParts
  split
  next hread => exact hread.symm
  next hread => exact hread.symm
  next hread => exact hread.symm

theorem headers_ofParts (line : String) (headers : Headers) (body : Bytes) :
    (ofParts line headers body).headers = headers := by
  unfold ofParts
  split <;> rfl

theorem body_ofParts (line : String) (headers : Headers) (body : Bytes) :
    (ofParts line headers body).body = body := by
  unfold ofParts
  split <;> rfl

end Message

namespace Chunk

/-- The parts that a message is delivered with: a line of text that is not blank, headers whose
fields are read back, and a body that is not too long. -/
structure AreDelivered (line : String) (headers : Headers) (body : Bytes) : Prop where
  lineFeed_not_mem : '\n' ∉ line.toList
  not_blank : line.toList.all Text.isBlank = false
  readable : headers.Readable
  body_le : body.length ≤ bodyLimit

/-- A unit as it is delivered. -/
def IsDelivered : Chunk → Prop
  | message m => ∃ line headers body, AreDelivered line headers body
      ∧ m = .ofParts line headers body
  | data f => f.payload.length ≤ 65535

theorem length_payload_le_of_read {ended : Bool} {input rest : Bytes} {f : Interleaved}
    (h : Interleaved.read ended input = .done f rest) : f.payload.length ≤ 65535 := by
  obtain ⟨hi, lo, after, -, hpayload⟩ := Interleaved.read_eq_done_iff.1 h
  obtain ⟨-, htaken, -⟩ := Reading.exactly_eq_done_iff.1 hpayload
  have hlength := (ofBe16 hi lo).toNat_lt
  rw [htaken, List.length_take]
  omega

theorem isDelivered_of_read {ended : Bool} {input rest : Bytes} {c : Chunk}
    (h : read ended input = .chunk c rest) : c.IsDelivered := by
  fun_induction read ended input with
  | case3 after frame after' hframe =>
    obtain ⟨rfl, -⟩ := Outcome.chunk.inj h
    exact length_payload_le_of_read hframe
  | case8 _ _ _ _ _ _ _ ih => exact ih h
  | case13 first after _ line r1 hl hblank headers r2 hh length body r3 hb hlength =>
    obtain ⟨rfl, -⟩ := Outcome.chunk.inj h
    obtain ⟨-, hbody, -⟩ := Reading.exactly_eq_done_iff.1 hb
    exact ⟨line, headers, body,
      { lineFeed_not_mem := Line.lineFeed_not_mem_of_read hl
        not_blank := Bool.eq_false_iff.2 hblank
        readable := Headers.readable_empty.read hh
        body_le := by rw [hbody]; exact (List.length_take_le _ _).trans hlength }, rfl⟩
  | case14 first after _ line r1 hl _ headers r2 hh length body r3 hb _ ih => exact ih h
  | _ => cases h

/-- A unit as it can be read: the parts of a message are what they are, with distinct names of
headers. -/
def IsRead : Chunk → Prop
  | message m => ∃ line headers body, Headers.Distinct headers.entries
      ∧ m = .ofParts line headers body
  | data _ => True

theorem IsRead.response {r : Response} (h : IsRead (.message (.response r))) :
    r.answers = none ∧ Headers.Distinct r.headers.entries := by
  obtain ⟨line, headers, body, hd, hr⟩ := h
  unfold Message.ofParts at hr
  split at hr
  next => cases hr
  next =>
    obtain rfl := Message.response.inj hr
    exact ⟨rfl, hd⟩
  next => cases hr

theorem IsDelivered.isRead {c : Chunk} (h : c.IsDelivered) : c.IsRead := by
  cases c with
  | message m =>
    obtain ⟨line, headers, body, hparts, rfl⟩ := h
    exact ⟨line, headers, body, hparts.readable.distinct, rfl⟩
  | data f => trivial

/-! ## Runs -/

theorem run_of_chunk {ended : Bool} {input rest : Bytes} {c : Chunk}
    (h : read ended input = .chunk c rest) :
    run ended input = { run ended rest with chunks := c :: (run ended rest).chunks } := by
  rw [run]
  split
  next c' rest' hr =>
    obtain ⟨rfl, rfl⟩ := Outcome.chunk.inj (hr.symm.trans h)
    rfl
  next hr => cases hr.symm.trans h
  next hr => cases hr.symm.trans h
  next hr => cases hr.symm.trans h

theorem run_of_starved {ended : Bool} {input : Bytes} (h : read ended input = .starved) :
    run ended input = ⟨[], .starved, input⟩ := by
  rw [run]
  split
  next hr => cases hr.symm.trans h
  next => rfl
  next hr => cases hr.symm.trans h
  next hr => cases hr.symm.trans h

theorem run_of_failed {ended : Bool} {input : Bytes} {cause : StreamError}
    (h : read ended input = .failed cause) : run ended input = ⟨[], .failed cause, []⟩ := by
  rw [run]
  split
  next hr => cases hr.symm.trans h
  next hr => cases hr.symm.trans h
  next cause' hr =>
    obtain rfl := Outcome.failed.inj (hr.symm.trans h)
    rfl
  next hr => cases hr.symm.trans h

theorem run_of_finished {ended : Bool} {input : Bytes} (h : read ended input = .finished) :
    run ended input = ⟨[], .finished, []⟩ := by
  rw [run]
  split
  next hr => cases hr.symm.trans h
  next hr => cases hr.symm.trans h
  next hr => cases hr.symm.trans h
  next => rfl

theorem run_nil : run true [] = ⟨[], .finished, []⟩ :=
  run_of_finished (by rw [read]; rfl)

/-- Runs that start with the same reading are the same, but for the bytes that a starved run
leaves. -/
theorem run_of_read_eq {ended : Bool} {input input' : Bytes}
    (h : read ended input = read ended input') (hne : (run ended input').ending ≠ .starved) :
    run ended input = run ended input' := by
  cases hr : read ended input' with
  | chunk c rest => rw [run_of_chunk (h.trans hr), run_of_chunk hr]
  | starved =>
    rw [run_of_starved hr] at hne
    exact absurd rfl hne
  | failed cause => rw [run_of_failed (h.trans hr), run_of_failed hr]
  | finished => rw [run_of_finished (h.trans hr), run_of_finished hr]

theorem isDelivered_of_mem_run {ended : Bool} {input : Bytes} {c : Chunk}
    (h : c ∈ (run ended input).chunks) : c.IsDelivered := by
  fun_induction run ended input with
  | case1 input c' rest hread r ih =>
    rcases List.mem_cons.1 h with rfl | h
    · exact isDelivered_of_read hread
    · exact ih h
  | _ => exact absurd h List.not_mem_nil

theorem isRead_of_mem_run {ended : Bool} {input : Bytes} {c : Chunk}
    (h : c ∈ (run ended input).chunks) : c.IsRead :=
  (isDelivered_of_mem_run h).isRead

/-- A run that has starved has read everything it could. -/
theorem run_rest_of_starved {ended : Bool} {input : Bytes}
    (h : (run ended input).ending = .starved) :
    run ended (run ended input).rest = ⟨[], .starved, (run ended input).rest⟩ := by
  fun_induction run ended input with
  | case1 input c rest hread r ih => exact ih h
  | case2 input hread => exact run_of_starved hread
  | case3 => cases h
  | case4 => cases h

end Chunk

/-! ## Open and ended streams

Where the stream has ended no bytes are waited for, and where it may go on none are given up. -/

namespace Reading

variable {α : Type}

/-- A reading that can be the answer if the stream has ended, or if it has not. -/
def Fits (ended : Bool) : Reading α → Prop
  | done _ _ => True
  | starved => ended = false
  | Reading.ended => ended = true

theorem fits_missing (ended : Bool) : (missing ended : Reading α).Fits ended := by
  cases ended <;> rfl

theorem fits_exactly (ended : Bool) (n : Nat) (input : Bytes) :
    (exactly ended n input).Fits ended := by
  unfold exactly
  dsimp only
  split
  · trivial
  · exact fits_missing ended

theorem Fits.ended_eq_false {ended : Bool} {r : Reading α} (h : r.Fits ended) (hr : r = starved) :
    ended = false := by
  subst hr
  exact h

theorem Fits.ended_eq_true {ended : Bool} {r : Reading α} (h : r.Fits ended)
    (hr : r = Reading.ended) : ended = true := by
  subst hr
  exact h

theorem exactly_true (n : Nat) (input : Bytes) : exactly true n input ≠ .starved :=
  mt (fits_exactly true n input).ended_eq_false (by decide)

end Reading

theorem Line.fits_read (ended : Bool) (input : Bytes) : (Line.read ended input).Fits ended := by
  fun_induction Line.read ended input with
  | case1 => trivial
  | case2 _ _ _ _ _ _ ih => exact ih
  | case3 => trivial
  | case4 => exact Reading.fits_missing ended

theorem Headers.fits_read (ended : Bool) (h : Headers) (input : Bytes) :
    (Headers.read ended h input).Fits ended := by
  fun_induction Headers.read ended h input with
  | case1 => trivial
  | case2 _ _ _ _ _ _ ih => exact ih
  | case3 _ input hl => exact (Line.fits_read ended input).ended_eq_false hl
  | case4 _ input hl => exact (Line.fits_read ended input).ended_eq_true hl

theorem Interleaved.fits_read (ended : Bool) (input : Bytes) :
    (Interleaved.read ended input).Fits ended := by
  unfold Interleaved.read
  split
  next _ hi lo after =>
    have hpayload := Reading.fits_exactly ended (ofBe16 hi lo).toNat after
    split
    next => trivial
    next hstarved => exact hpayload.ended_eq_false hstarved
    next hended => exact hpayload.ended_eq_true hended
  next => exact Reading.fits_missing ended

theorem Line.read_true (input : Bytes) : Line.read true input ≠ .starved :=
  mt (Line.fits_read true input).ended_eq_false (by decide)

theorem Headers.read_true (h : Headers) (input : Bytes) : Headers.read true h input ≠ .starved :=
  mt (Headers.fits_read true h input).ended_eq_false (by decide)

theorem Interleaved.read_true (input : Bytes) : Interleaved.read true input ≠ .starved :=
  mt (Interleaved.fits_read true input).ended_eq_false (by decide)

theorem Chunk.read_true (input : Bytes) : Chunk.read true input ≠ .starved := by
  fun_induction Chunk.read true input with
  | case2 hended => exact absurd rfl hended
  | case4 after hframe => exact absurd hframe (Interleaved.read_true _)
  | case6 _ _ _ hl => exact absurd hl (Line.read_true _)
  | case8 _ _ _ _ _ _ _ ih => exact ih
  | case9 _ _ _ _ _ _ _ hh => exact absurd hh (Headers.read_true _ _)
  | case11 _ _ _ _ _ _ _ _ _ _ _ hb => exact absurd hb (Reading.exactly_true _ _)
  | case14 _ _ _ _ _ _ _ _ _ _ _ _ _ _ _ ih => exact ih
  | _ => simp

theorem Chunk.ending_run_true (input : Bytes) : (Chunk.run true input).ending ≠ .starved := by
  fun_induction Chunk.run true input with
  | case1 input c rest hread r ih => exact ih
  | case2 input hread => exact absurd hread (Chunk.read_true input)
  | case3 => simp
  | case4 => simp

end Rtsp
