-- SUMMARY: The value of a Session header.
import Rtsp.Text.Blank
import Rtsp.Text.Cut
import Rtsp.Text.Numeral

/-!
# Session header

`id;timeout=seconds`. The identifier is all that is sent back to the server.
-/

namespace Rtsp

structure SessionField where
  id : String
  /-- Seconds without a request after which the server may drop the session. -/
  timeout : Option Nat
  deriving DecidableEq, Repr

namespace SessionField

/-- The timeout where a header names none. -/
def defaultTimeout : Nat := 60

def readTimeout? (parameter : List Char) : Option Nat :=
  (Text.dropLead? "timeout=" (Text.trim parameter)).bind fun value =>
    Text.readDecimal UInt64.size (Text.trim value)

/-- The first parameter that holds a readable timeout counts. -/
def read (value : String) : SessionField :=
  match value.toList.splitOn ';' with
  | [] => ⟨"", none⟩
  | id :: parameters => ⟨String.ofList (Text.trim id), parameters.findSome? readTimeout?⟩

end SessionField
end Rtsp
