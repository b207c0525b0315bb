-- SUMMARY: Challenges and authorizations as a scheme and named fields.
import Rtsp.Text.Blank
import Rtsp.Text.Case
import Rtsp.Text.Cut
import Rtsp.Text.Params

/-!
# Fields

A challenge and its answer have one shape: the name of a scheme and fields `key=value` with commas
between them. A value may be quoted, and a quoted value may hold commas.
-/

namespace Rtsp

structure Credentials where
  username : String
  password : String
  deriving DecidableEq, Repr

namespace Authorization

/-- The scheme, and what follows the blanks after it. -/
def splitScheme (value : String) : String × List Char :=
  let value := Text.trim value.toList
  match Text.cutWhere Text.isBlank value with
  | some (scheme, fields) => (String.ofList scheme, Text.trimStart fields)
  | none => (String.ofList value, [])

/-- Add one `key=value`; a text without a key is skipped. -/
def addField (fields : Text.Params) (part : List Char) : Text.Params :=
  match Text.cut '=' part with
  | some (key, value) =>
    fields.insert (Text.lower (String.ofList (Text.trim key)))
      (String.ofList (Text.stripChar '"' (Text.trim value)))
  | none => fields

/-- The fields between the commas that stand outside quotes, by lower-case key. -/
def readFields (cs : List Char) : Text.Params :=
  (Text.splitUnquoted cs).foldl addField {}

/-- A quoted field as it is written. -/
def quoted (key value : String) : String :=
  key ++ "=\"" ++ value ++ "\""

end Authorization
end Rtsp
