-- SUMMARY: A supply of random numbers.

/-!
# Random draws

Whatever is chosen at random is taken from a list of numbers that the caller supplies. Each draw
takes the next number and brings it into the range that is asked for; an empty supply gives zero.
-/

namespace Rtsp

abbrev Draws := List Nat

/-- A number below `bound`, and the supply that is left. -/
def Draws.next (draws : Draws) (bound : Nat) : Nat × Draws :=
  match draws with
  | [] => (0, [])
  | n :: rest => (n % bound, rest)

end Rtsp
