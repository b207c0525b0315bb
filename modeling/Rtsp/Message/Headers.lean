-- SUMMARY: Header fields of a message, as an ordered map with case-insensitive names.
import Rtsp.Bytes
import Rtsp.Text.Blank
import Rtsp.Text.Case
import Rtsp.Text.Cut
import Rtsp.Text.Numeral
import Rtsp.Text.Utf8

/-!
# Headers

A message carries at most one value for each header name, where names are compared without regard
to ASCII case. Entries keep the order and the spelling in which they were first written.
-/

namespace Rtsp

structure Headers where
  entries : List (String × String)
  deriving DecidableEq, Repr

namespace Headers

def empty : Headers := ⟨[]⟩

instance : EmptyCollection Headers := ⟨empty⟩
instance : Inhabited Headers := ⟨empty⟩

-- ---------------------------------------------------------------------------
-- Map operations
-- ---------------------------------------------------------------------------

def get? (h : Headers) (name : String) : Option String :=
  (h.entries.find? fun e => Text.sameIgnoringCase e.1 name).map (·.2)

def contains (h : Headers) (name : String) : Bool :=
  (h.get? name).isSome

/-- Overwrite the value of `name` where it stands, or append a new entry. -/
def setEntry (name value : String) : List (String × String) → List (String × String)
  | [] => [(name, value)]
  | (key, old) :: rest =>
    if Text.sameIgnoringCase key name then (key, value) :: rest
    else (key, old) :: setEntry name value rest

def set (h : Headers) (name value : String) : Headers :=
  ⟨setEntry name value h.entries⟩

def erase (h : Headers) (name : String) : Headers :=
  ⟨h.entries.eraseP fun e => Text.sameIgnoringCase e.1 name⟩

/-- Take the header of this name out of its place, and return its value. -/
def remove (h : Headers) (name : String) : Option String × Headers :=
  match h.entries.findIdx? fun e => Text.sameIgnoringCase e.1 name with
  | some i => (h.entries[i]?.map (·.2), ⟨h.entries.eraseIdx i⟩)
  | none => (none, h)

theorem remove_eq (h : Headers) (name : String) : h.remove name = (h.get? name, h.erase name) := by
  unfold remove get? erase
  rw [List.eraseP_eq_eraseIdx, List.find?_eq_getElem?_findIdx]
  cases hplace : h.entries.findIdx? fun e => Text.sameIgnoringCase e.1 name with
  | none =>
    rw [List.findIdx?_eq_none_iff_findIdx_eq.1 hplace, List.getElem?_eq_none (Nat.le_refl _)]
    rfl
  | some i =>
    rw [(List.findIdx?_eq_some_iff_findIdx_eq.1 hplace).2]

/-- Add `name` only if the map has no such header yet. -/
def setIfAbsent (h : Headers) (name value : String) : Headers :=
  if h.contains name then h else h.set name value

/-- Copy the value of `name` from another map, if it has one. -/
def copyFrom (h source : Headers) (name : String) : Headers :=
  match source.get? name with
  | some value => h.set name value
  | none => h

def size (h : Headers) : Nat :=
  h.entries.length

def isEmpty (h : Headers) : Bool :=
  h.entries.isEmpty

-- ---------------------------------------------------------------------------
-- Lines
-- ---------------------------------------------------------------------------

/-- Add a `name: value` line, cut at its first colon. A line without a colon or with a blank name
is refused. -/
def addLine? (h : Headers) (line : String) : Option Headers :=
  match Text.cut ':' line.toList with
  | none => none
  | some (name, value) =>
    let name := Text.trim name
    if name.isEmpty then none
    else some (h.set (String.ofList name) (String.ofList (Text.trim value)))

/-- Add a line, or drop it if it is refused. -/
def addLine (h : Headers) (line : String) : Headers :=
  (h.addLine? line).getD h

/-- The declared length of the body: zero if there is no such header, `none` if its value is no
64-bit number. -/
def contentLength? (h : Headers) : Option Nat :=
  match h.get? "Content-Length" with
  | none => some 0
  | some value => Text.readDecimal UInt64.size (Text.trim value.toList)

/-- The sequence number, if the header holds one. -/
def cseq? (h : Headers) : Option UInt32 :=
  (h.get? "CSeq").bind fun value => Text.readUInt32 (Text.trim value.toList)

/-- One entry as it is written. -/
def encodeEntry (e : String × String) : Bytes :=
  Text.Utf8.encode (e.1 ++ ": " ++ e.2 ++ "\r\n")

/-- Every entry except `Content-Length`, which is written from the body itself. -/
def encode (h : Headers) : Bytes :=
  (h.entries.filter fun e => !Text.sameIgnoringCase e.1 "Content-Length").flatMap encodeEntry

end Headers
end Rtsp
