-- SUMMARY: Which start lines are read back as they were written.
import Rtsp.Message.StartLine
import Rtsp.Proofs.Text.Words

/-!
# Start lines round trip

A well-formed start line is read as what it is (`StartLine.read_text`), and its text can be told
from everything else that may stand where a unit begins: it holds no line feed, is not blank, and
does not begin with a dollar sign.
-/

namespace Rtsp.StartLine

open Text

/-- Words with one blank between each two. The first is no version, for a version in third place
makes a line a request line. -/
def IsReason (reason : String) : Prop :=
  ∃ ws : List (List Char), (∀ w ∈ ws, IsWord w) ∧ (∀ w ∈ ws.head?, isVersion w = false)
    ∧ reason = joinWords ws

/-- The start lines that are read as what they are. -/
def WellFormed : StartLine → Prop
  | request method uri version =>
    IsWord method.token.toList ∧ method.token.toList.head? ≠ some '$' ∧ IsWord uri.toList
      ∧ isVersion version.toList
  | response version status reason =>
    isVersion version.toList ∧ Status.isValid status ∧ IsReason reason
  | unknown line =>
    read line = unknown line ∧ '\n' ∉ line.toList ∧ (∃ c ∈ line.toList, isBlank c = false)
      ∧ line.toList.head? ≠ some '$'

/-- A start line as its reader sees it: a method is the one that its token names. -/
def received : StartLine → StartLine
  | request method uri version => request (.ofToken method.token) uri version
  | response version status reason => response version status reason
  | unknown line => unknown line

/-! ## Versions -/

theorem isVersion_iff {cs : List Char} :
    isVersion cs ↔ ∃ major minor : Char, major.isDigit ∧ minor.isDigit
      ∧ cs = ['R', 'T', 'S', 'P', '/', major, '.', minor] := by
  constructor
  · intro h
    unfold isVersion at h
    split at h
    next major minor =>
      rw [Bool.and_eq_true] at h
      exact ⟨major, minor, h.1, h.2, rfl⟩
    next => cases h
  · rintro ⟨major, minor, hmajor, hminor, rfl⟩
    simp [isVersion, hmajor, hminor]

theorem isWord_of_isVersion {cs : List Char} (h : isVersion cs) : IsWord cs := by
  obtain ⟨major, minor, hmajor, hminor, rfl⟩ := isVersion_iff.1 h
  refine ⟨List.cons_ne_nil _ _, ?_⟩
  simp only [List.forall_mem_cons, List.not_mem_nil, false_implies, implies_true, and_true]
  exact ⟨rfl, rfl, rfl, rfl, rfl, isBlank_of_isDigit hmajor, rfl, isBlank_of_isDigit hminor⟩

theorem head?_of_isVersion {cs : List Char} (h : isVersion cs) : cs.head? = some 'R' := by
  obtain ⟨major, minor, -, -, rfl⟩ := isVersion_iff.1 h
  rfl

/-! ## The characters of a text -/

theorem toList_text_request (method : Method) (uri version : String) :
    (request method uri version).text.toList
      = method.token.toList ++ ' ' :: (uri.toList ++ ' ' :: version.toList) := by
  simp [text]

theorem toList_text_response (version : String) (status : Nat) (reason : String) :
    (response version status reason).text.toList
      = version.toList ++ ' ' :: (Nat.toDigits 10 status ++ ' ' :: reason.toList) := by
  simp [text]

theorem words_text_request {method : Method} {uri version : String}
    (hmethod : IsWord method.token.toList) (huri : IsWord uri.toList)
    (hversion : isVersion version.toList) :
    words (request method uri version).text.toList
      = [method.token.toList, uri.toList, version.toList] := by
  rw [toList_text_request, words_append_blank hmethod (by decide),
    words_append_blank huri (by decide), words_singleton (isWord_of_isVersion hversion)]

theorem words_text_response {version : String} {status : Nat} {ws : List (List Char)}
    (hversion : isVersion version.toList) (hws : ∀ w ∈ ws, IsWord w) :
    words (response version status (joinWords ws)).text.toList
      = version.toList :: Nat.toDigits 10 status :: ws := by
  rw [toList_text_response, words_append_blank (isWord_of_isVersion hversion) (by decide),
    words_append_blank (isWord_toDigits status) (by decide), joinWords, String.toList_ofList,
    words_intercalate hws]

/-! ## Reading -/

theorem readStatus?_toDigits {status : Nat} (h : Status.isValid status) :
    readStatus? (Nat.toDigits 10 status) = some status := by
  have hbound : status < UInt16.size := by
    simp [Status.isValid] at h
    simp [UInt16.size]
    omega
  rw [readStatus?, readDecimal_toDigits hbound, Option.filter_some, if_pos h]

theorem readResponse?_words {version : String} {status : Nat} {ws : List (List Char)}
    (hversion : isVersion version.toList) (hstatus : Status.isValid status) :
    readResponse? (version.toList :: Nat.toDigits 10 status :: ws)
      = some (response version status (joinWords ws)) := by
  simp [readResponse?, hversion, readStatus?_toDigits hstatus]

theorem read_text_request {method : Method} {uri version : String}
    (hmethod : IsWord method.token.toList) (huri : IsWord uri.toList)
    (hversion : isVersion version.toList) :
    read (request method uri version).text = request (.ofToken method.token) uri version := by
  simp [read, words_text_request hmethod huri hversion, readRequest?, hversion]

theorem read_text_response {version : String} {status : Nat} {ws : List (List Char)}
    (hversion : isVersion version.toList) (hstatus : Status.isValid status)
    (hws : ∀ w ∈ ws, IsWord w) (hfirst : ∀ w ∈ ws.head?, isVersion w = false) :
    read (response version status (joinWords ws)).text
      = response version status (joinWords ws) := by
  have hrequest : readRequest? (version.toList :: Nat.toDigits 10 status :: ws) = none := by
    cases ws with
    | nil => rfl
    | cons w ws => simp [readRequest?, hfirst w rfl]
  rw [read, words_text_response hversion hws]
  rw [hrequest, readResponse?_words hversion hstatus]
  rfl

/-- A well-formed start line is read as what it is. -/
theorem read_text {s : StartLine} (h : s.WellFormed) : read s.text = s.received := by
  cases s with
  | request method uri version =>
    obtain ⟨hmethod, -, huri, hversion⟩ := h
    exact read_text_request hmethod huri hversion
  | response version status reason =>
    obtain ⟨hversion, hstatus, ws, hws, hfirst, rfl⟩ := h
    exact read_text_response hversion hstatus hws hfirst
  | unknown line => exact h.1

/-! ## Telling a start line from other units -/

theorem IsReason.lineFeed_not_mem {reason : String} (h : IsReason reason) :
    '\n' ∉ reason.toList := by
  obtain ⟨ws, hws, -, rfl⟩ := h
  rw [joinWords, String.toList_ofList]
  intro hmem
  rcases mem_intercalate hmem with hc | ⟨w, hw, hc⟩
  · exact absurd hc (by decide)
  · exact absurd ((hws w hw).2 _ hc) (by decide)

theorem lineFeed_not_mem_text {s : StartLine} (h : s.WellFormed) : '\n' ∉ s.text.toList := by
  have hword {w : List Char} (hw : IsWord w) : '\n' ∉ w := fun hmem =>
    absurd (hw.2 _ hmem) (by decide)
  cases s with
  | request method uri version =>
    obtain ⟨hmethod, -, huri, hversion⟩ := h
    simp [toList_text_request, hword hmethod, hword huri, hword (isWord_of_isVersion hversion)]
  | response version status reason =>
    obtain ⟨hversion, -, hreason⟩ := h
    simp [toList_text_response, hword (isWord_of_isVersion hversion),
      hword (isWord_toDigits status), hreason.lineFeed_not_mem]
  | unknown line => exact h.2.1

theorem exists_not_blank_text {s : StartLine} (h : s.WellFormed) :
    ∃ c ∈ s.text.toList, isBlank c = false := by
  have hword {w : List Char} (hw : IsWord w) : ∃ c ∈ w, isBlank c = false := by
    obtain ⟨c, hc⟩ := List.exists_mem_of_ne_nil w hw.1
    exact ⟨c, hc, hw.2 c hc⟩
  cases s with
  | request method uri version =>
    obtain ⟨c, hc, hblank⟩ := hword h.1
    exact ⟨c, by rw [toList_text_request]; exact List.mem_append_left _ hc, hblank⟩
  | response version status reason =>
    obtain ⟨c, hc, hblank⟩ := hword (isWord_of_isVersion h.1)
    exact ⟨c, by rw [toList_text_response]; exact List.mem_append_left _ hc, hblank⟩
  | unknown line => exact h.2.2.1

theorem head?_text_ne_dollar {s : StartLine} (h : s.WellFormed) :
    s.text.toList.head? ≠ some '$' := by
  cases s with
  | request method uri version =>
    obtain ⟨⟨hne, -⟩, hdollar, -⟩ := h
    rw [toList_text_request, List.head?_append, List.head?_eq_some_head hne] at *
    exact hdollar
  | response version status reason =>
    rw [toList_text_response, List.head?_append, head?_of_isVersion h.1]
    simp
  | unknown line => exact h.2.2.2

end Rtsp.StartLine
