-- SUMMARY: ASCII letter case.

/-!
# Letter case

Names on the wire compare without regard to the case of ASCII letters; every other character
stands for itself.
-/

namespace Rtsp.Text

def lower (s : String) : String :=
  String.ofList (s.toList.map Char.toLower)

def upper (s : String) : String :=
  String.ofList (s.toList.map Char.toUpper)

/-- Equality up to the case of ASCII letters. -/
def sameIgnoringCase (a b : String) : Bool :=
  lower a == lower b

end Rtsp.Text
