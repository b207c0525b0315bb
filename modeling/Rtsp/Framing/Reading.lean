-- SUMMARY: What can be read from the bytes that have arrived so far.
import Rtsp.Bytes

/-!
# Readings

Bytes arrive in pieces. A reader looks at the bytes that have arrived and not been used, and knows
whether the stream has ended. It never guesses: while the stream is open, it answers only if no
later byte could change the answer.
-/

namespace Rtsp

inductive Reading (α : Type) where
  | done (value : α) (rest : Bytes)
  /-- More bytes are needed, and may still arrive. -/
  | starved
  /-- More bytes are needed, and none will arrive. -/
  | ended
  deriving DecidableEq, Repr

namespace Reading

/-- The reading where bytes are missing. -/
def missing (ended : Bool) : Reading α :=
  if ended then .ended else .starved

/-- Exactly `n` bytes. -/
def exactly (ended : Bool) (n : Nat) (input : Bytes) : Reading Bytes :=
  let taken := input.take n
  if taken.length = n then .done taken (input.drop n) else missing ended

theorem exactly_length_le {ended : Bool} {n : Nat} {input taken rest : Bytes}
    (h : exactly ended n input = .done taken rest) : rest.length ≤ input.length := by
  simp only [exactly, missing] at h
  split at h
  · simp only [done.injEq] at h
    simp [← h.2]
  · split at h <;> cases h

end Reading
end Rtsp
