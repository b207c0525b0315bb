-- SUMMARY: Cutting text in two at a separator.

/-!
# Cuts

A cut removes one occurrence of a separator and returns what stands on its two sides. Cutting at
every occurrence is `List.splitOn`.
-/

namespace Rtsp.Text

/-- Cut at the first character that satisfies `p`. -/
def cutWhere (p : Char → Bool) (cs : List Char) : Option (List Char × List Char) :=
  match cs.dropWhile (!p ·) with
  | [] => none
  | _ :: after => some (cs.takeWhile (!p ·), after)

/-- Cut at the first occurrence of `sep`. -/
def cut (sep : Char) (cs : List Char) : Option (List Char × List Char) :=
  cutWhere (· == sep) cs

/-- Cut at the last occurrence of `sep`. -/
def cutLast (sep : Char) (cs : List Char) : Option (List Char × List Char) :=
  (cut sep cs.reverse).map fun (after, before) => (before.reverse, after.reverse)

/-- What follows `lead`, if the text starts with it. -/
def dropLead? (lead : String) (cs : List Char) : Option (List Char) :=
  if lead.toList.isPrefixOf cs then some (cs.drop lead.length) else none

/-- The parts between the commas that stand outside double quotes. -/
def splitUnquoted (cs : List Char) : List (List Char) :=
  let rec go (quoted : Bool) : List Char → List (List Char)
    | [] => [[]]
    | c :: rest =>
      if c == ',' && !quoted then
        [] :: go quoted rest
      else
        match go (if c == '"' then !quoted else quoted) rest with
        | [] => [[c]]
        | part :: parts => (c :: part) :: parts
  go false cs

end Rtsp.Text
