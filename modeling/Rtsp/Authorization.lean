-- SUMMARY: Authentication under the scheme that a server asks for.
import Rtsp.Authorization.Basic
import Rtsp.Authorization.Digest

/-!
# Authentication

A server answers a request without credentials with a challenge. The client makes an
`Authentication` from it and authorizes its further requests with that; a server holds one of its
own to check them.
-/

namespace Rtsp

inductive Authentication where
  | basic (b : BasicAuth)
  | digest (d : DigestAuth)
  deriving DecidableEq, Repr

namespace Authentication

/-- The client's side for a challenge. Random numbers are drawn only if it is accepted. -/
def ofChallenge (credentials : Credentials) (challenge : String) (draws : Draws) :
    Except Error (Authentication × Draws) :=
  let (scheme, fields) := Authorization.splitScheme challenge
  let fields := Authorization.readFields fields
  if Text.sameIgnoringCase scheme "basic" then
    .ok (basic ⟨credentials, (fields.get? "realm").getD ""⟩, draws)
  else if Text.sameIgnoringCase scheme "digest" then
    (DigestAuth.ofFields credentials fields draws).map fun (d, draws) => (digest d, draws)
  else .error (.unsupportedScheme scheme)

def challenge : Authentication → String
  | basic b => b.challenge
  | digest d => d.challenge

/-- The value that authorizes the client's `count`-th request. -/
def answer (a : Authentication) (count : UInt32) (method uri : String) (body : Bytes) : String :=
  match a with
  | basic b => b.answer
  | digest d => d.answer count method uri body

/-- The number of the next request, counted from now on. Basic authentication counts nothing. -/
def nextCount : Authentication → UInt32 × Authentication
  | basic b => (0, basic b)
  | digest d => (d.nonceCount + 1, digest { d with nonceCount := d.nonceCount + 1 })

/-- Put the authorization for the next request into its headers. -/
def authorize (a : Authentication) (r : Request) : Authentication × Request :=
  let (count, a) := a.nextCount
  (a, r.setHeader "Authorization" (a.answer count r.method.token r.uri r.body))

def isValid (a : Authentication) (r : Request) : Bool :=
  match a with
  | basic b => b.isValid r
  | digest d => d.isValid r

end Authentication
end Rtsp
