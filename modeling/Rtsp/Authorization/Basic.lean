-- SUMMARY: Basic authentication.
import Rtsp.Authorization.Fields
import Rtsp.Message.Basic
import Rtsp.Text.Base64

/-!
# Basic authentication

Every request carries the credentials themselves, joined by a colon and written in Base64.
-/

namespace Rtsp

structure BasicAuth where
  credentials : Credentials
  realm : String
  deriving DecidableEq, Repr

namespace BasicAuth

/-- The value that a server sends to ask for credentials. -/
def challenge (b : BasicAuth) : String :=
  "Basic " ++ Authorization.quoted "realm" b.realm

/-- The value that a client sends with every request. -/
def answer (b : BasicAuth) : String :=
  let token := b.credentials.username ++ ":" ++ b.credentials.password
  "Basic " ++ String.ofList (Text.Base64.encode (Text.Utf8.encode token))

/-- The credentials in a header value: scheme, one space, and Base64 of user, colon, password. -/
def readCredentials? (value : String) : Option Credentials := do
  let (scheme, token) ← Text.cut ' ' (Text.trim value.toList)
  if Text.sameIgnoringCase (String.ofList scheme) "basic" then
    let bytes ← Text.Base64.decode? (Text.trim token)
    let (username, password) ← Text.cut ':' (← Text.Utf8.decode? bytes)
    some ⟨String.ofList username, String.ofList password⟩
  else none

/-- Whether a request carries the right credentials. The user name may differ in case. -/
def isValid (b : BasicAuth) (r : Request) : Bool :=
  match (r.headers.get? "Authorization").bind readCredentials? with
  | some c =>
    Text.sameIgnoringCase c.username b.credentials.username
      && c.password == b.credentials.password
  | none => false

end BasicAuth
end Rtsp
