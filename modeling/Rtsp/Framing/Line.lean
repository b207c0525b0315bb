-- SUMMARY: Lines of a byte stream.
import Rtsp.Framing.Reading
import Rtsp.Text.Utf8

/-!
# Lines

A line ends with a line feed; one carriage return before it belongs to the ending. The last line
of an ended stream needs no line feed. A line of `Line.limit` bytes or more is dropped whole, and
the line after it is read instead.
-/

namespace Rtsp.Line

/-- No line has this many bytes before its line feed. -/
def limit : Nat := 16384

def lineFeed : UInt8 := 10

def carriageReturn : UInt8 := 13

/-- The text of a line, without the carriage return of its ending. -/
def text (line : Bytes) : String :=
  let line := if line.getLast? = some carriageReturn then line.dropLast else line
  String.ofList (Text.Utf8.decodeLossy line)

/-- The next line. -/
def read (ended : Bool) (input : Bytes) : Reading String :=
  let line := input.takeWhile (· != lineFeed)
  match _h : input.dropWhile (· != lineFeed) with
  | _ :: rest => if line.length < limit then .done (text line) rest else read ended rest
  | [] =>
    if ended && !line.isEmpty && line.length < limit then .done (text line) []
    else .missing ended
termination_by input.length
decreasing_by
  have := (input.dropWhile_sublist (· != lineFeed)).length_le
  simp only [_h, List.length_cons] at this
  omega

theorem read_length_lt {ended : Bool} {input rest : Bytes} {line : String}
    (h : read ended input = .done line rest) : rest.length < input.length := by
  fun_induction read ended input with
  | case1 input _ b after hd _ =>
    have := (input.dropWhile_sublist (· != lineFeed)).length_le
    simp only [hd, List.length_cons] at this
    simp only [Reading.done.injEq] at h
    obtain ⟨-, rfl⟩ := h
    omega
  | case2 input _ b after hd _ ih =>
    have := (input.dropWhile_sublist (· != lineFeed)).length_le
    simp only [hd, List.length_cons] at this
    have := ih h
    omega
  | case3 input line hd hne =>
    simp only [Reading.done.injEq] at h
    obtain ⟨-, rfl⟩ := h
    cases input with
    | nil => simp [line] at hne
    | cons => simp
  | case4 => simp only [Reading.missing] at h; split at h <;> cases h

end Rtsp.Line
