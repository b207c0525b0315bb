-- SUMMARY: The fields of a header value, found by the offsets of their bytes.
import Rtsp.Authorization.Fields

/-!
# Scanning

The fields are found in one pass over the characters of a header value. Each is cut out of the text
by the offsets of the bytes where it begins and ends. An offset inside a character or behind the
text would be a fault, and so would be a field that ends in front of its own beginning.
-/

namespace Rtsp

/-- The text from byte `start` up to, but not with, byte `stop`, and `none` for a fault. -/
def Text.slice? (text : String) (start stop : Nat) : Option String :=
  if start ≤ stop ∧ String.Pos.Raw.isValid text ⟨start⟩ ∧ String.Pos.Raw.isValid text ⟨stop⟩ then
    some (String.Pos.Raw.extract text ⟨start⟩ ⟨stop⟩)
  else none

namespace Authorization

/-- A scan in front of a character. -/
structure Scan where
  /-- The offset of the character. -/
  offset : Nat
  /-- The offset at which the present field begins. -/
  start : Nat
  /-- Whether a quote is open. -/
  quoted : Bool
  fields : Text.Params

namespace Scan

def init : Scan :=
  ⟨0, 0, false, {}⟩

/-- A comma outside quotes ends a field. The next one begins a byte later, as a comma is one. -/
def step (text : String) (s : Scan) (c : Char) : Option Scan :=
  let next := { s with offset := s.offset + c.utf8Size }
  if c == ',' && !s.quoted then do
    let field ← Text.slice? text s.start s.offset
    some { next with start := s.offset + 1, fields := addField s.fields field.toList }
  else
    some { next with quoted := if c == '"' then !s.quoted else s.quoted }

/-- The end of the text ends a field as well. -/
def finish (text : String) (s : Scan) : Option Text.Params := do
  let field ← Text.slice? text s.start text.utf8ByteSize
  some (addField s.fields field.toList)

end Scan

/-- The fields of a text by lower-case key, and `none` for a fault. -/
def scanFields (text : String) : Option Text.Params := do
  (← text.toList.foldlM (Scan.step text) Scan.init).finish text

end Authorization
end Rtsp
