-- SUMMARY: Digest authentication with MD5.
import Rtsp.Authorization.Fields
import Rtsp.Draws
import Rtsp.Error
import Rtsp.Md5
import Rtsp.Message.Basic

/-!
# Digest authentication

A request proves knowledge of the password by a hash over the credentials, the server's nonce, and
the request itself. A server may offer a quality of protection, under which the client's own nonce
and a request counter enter the hash as well, and under `auth-int` also the body.
-/

namespace Rtsp

/-- Quality of protection. -/
inductive Qop where
  | auth
  /-- The body is protected too. -/
  | authInt
  deriving DecidableEq, Repr

namespace Qop

def token : Qop → String
  | auth => "auth"
  | authInt => "auth-int"

def ofToken? (token : List Char) : Option Qop :=
  let token := String.ofList (Text.trim token)
  if Text.sameIgnoringCase token "auth" then some auth
  else if Text.sameIgnoringCase token "auth-int" then some authInt
  else none

/-- The strongest choice is not taken: plain `auth` comes first among what is offered. -/
def choose? (offered : String) : Option Qop :=
  let offers := (offered.toList.splitOn ',').filterMap ofToken?
  if offers.contains auth then some auth
  else if offers.contains authInt then some authInt
  else none

end Qop

/-- What enters the hash when there is a quality of protection. -/
structure Protection where
  qop : Qop
  nonceCount : String
  clientNonce : String
  deriving DecidableEq, Repr

structure DigestAuth where
  credentials : Credentials
  realm : String
  nonce : String
  opaqueData : Option String := none
  qop : Option Qop := none
  /-- As the challenge named it. -/
  algorithm : Option String := none
  clientNonce : String := ""
  /-- The number of requests that have been authorized. -/
  nonceCount : UInt32 := 0
  deriving DecidableEq, Repr

namespace DigestAuth

-- ---------------------------------------------------------------------------
-- Making one
-- ---------------------------------------------------------------------------

/-- The server's side, with a random nonce. -/
def server (credentials : Credentials) (realm : String) (qop : Option Qop) (draws : Draws) :
    DigestAuth × Draws :=
  let (n, draws) := draws.next (UInt64.size * UInt64.size)
  ({ credentials, realm, nonce := Text.hex 32 n, qop }, draws)

/-- The client's side, with a random nonce of its own. The fields are those of a challenge. -/
def ofFields (credentials : Credentials) (fields : Text.Params) (draws : Draws) :
    Except Error (DigestAuth × Draws) :=
  let algorithm := fields.get? "algorithm"
  match algorithm.filter fun name => !Text.sameIgnoringCase name "MD5" with
  | some name => .error (.unsupportedAlgorithm name)
  | none =>
    match fields.get? "realm", fields.get? "nonce" with
    | some realm, some nonce =>
      let (n, rest) := draws.next UInt64.size
      let make (qop : Option Qop) : DigestAuth :=
        { credentials, realm, nonce, opaqueData := fields.get? "opaque", qop, algorithm
          clientNonce := Text.hex 16 n }
      match fields.get? "qop" with
      | none => .ok (make none, rest)
      | some offered =>
        match Qop.choose? offered with
        | some qop => .ok (make (some qop), rest)
        | none => .error (.parse .authenticationHeader)
    | _, _ => .error (.parse .authenticationHeader)

-- ---------------------------------------------------------------------------
-- Hashes
-- ---------------------------------------------------------------------------

def hash (text : String) : String :=
  Md5.hexDigest (Text.Utf8.encode text)

/-- The part of the hash that stands for the request. -/
def requestHash (qop : Option Qop) (method uri : String) (body : Bytes) : String :=
  match qop with
  | some .authInt => hash (method ++ ":" ++ uri ++ ":" ++ Md5.hexDigest body)
  | _ => hash (method ++ ":" ++ uri)

/-- The hash that authorizes a request. -/
def responseHash (d : DigestAuth) (username : String) (protection : Option Protection)
    (method uri : String) (body : Bytes) : String :=
  let user := hash (username ++ ":" ++ d.realm ++ ":" ++ d.credentials.password)
  let request := requestHash (protection.map (·.qop)) method uri body
  match protection with
  | some p =>
    hash (user ++ ":" ++ d.nonce ++ ":" ++ p.nonceCount ++ ":" ++ p.clientNonce ++ ":"
      ++ p.qop.token ++ ":" ++ request)
  | none => hash (user ++ ":" ++ d.nonce ++ ":" ++ request)

-- ---------------------------------------------------------------------------
-- Header values
-- ---------------------------------------------------------------------------

/-- Fields as they are written. -/
def writeFields (fields : List String) : String :=
  "Digest " ++ String.intercalate ", " fields

/-- The value that a server sends to ask for an authorization. -/
def challenge (d : DigestAuth) : String :=
  open Authorization in
  writeFields
    ([quoted "realm" d.realm, quoted "nonce" d.nonce]
      ++ (d.opaqueData.map (quoted "opaque")).toList
      ++ (d.qop.map fun qop => quoted "qop" qop.token).toList)

/-- What the client adds for its `count`-th request, if the server wants protection. -/
def protection? (d : DigestAuth) (count : UInt32) : Option Protection :=
  d.qop.map fun qop => ⟨qop, Text.hex 8 count.toNat, d.clientNonce⟩

/-- The value that authorizes the client's `count`-th request. -/
def answer (d : DigestAuth) (count : UInt32) (method uri : String) (body : Bytes) : String :=
  open Authorization in
  let protection := d.protection? count
  let username := d.credentials.username
  writeFields
    ([quoted "username" username, quoted "realm" d.realm, quoted "nonce" d.nonce,
        quoted "uri" uri,
        quoted "response" (d.responseHash username protection method uri body)]
      ++ (d.opaqueData.map (quoted "opaque")).toList
      ++ (d.algorithm.map ("algorithm=" ++ ·)).toList
      ++ match protection with
        | some p => ["qop=" ++ p.qop.token, "nc=" ++ p.nonceCount, quoted "cnonce" p.clientNonce]
        | none => [])

-- ---------------------------------------------------------------------------
-- Checking
-- ---------------------------------------------------------------------------

/-- The protection that a request claims: none, or a known quality with both values that it
needs. Anything else is refused. -/
def readProtection? (fields : Text.Params) : Option (Option Protection) :=
  match fields.get? "qop" with
  | none => some none
  | some token => do
    let qop ← Qop.ofToken? token.toList
    some (some ⟨qop, ← fields.get? "nc", ← fields.get? "cnonce"⟩)

/-- Whether the fields of an authorization fit the request that carries them. -/
def accepts (d : DigestAuth) (r : Request) (fields : Text.Params) : Bool :=
  match fields.get? "username", fields.get? "realm", fields.get? "nonce", fields.get? "uri",
    fields.get? "response" with
  | some username, some realm, some nonce, some uri, some response =>
    Text.sameIgnoringCase username d.credentials.username && realm == d.realm && nonce == d.nonce
      && uri == r.uri
      && match readProtection? fields with
        | some protection =>
          Text.sameIgnoringCase (d.responseHash username protection r.method.token uri r.body)
            response
        | none => false
  | _, _, _, _, _ => false

/-- Whether a request is authorized. The user name may differ in case. A counter that was used
before is accepted. -/
def isValid (d : DigestAuth) (r : Request) : Bool :=
  match r.headers.get? "Authorization" with
  | none => false
  | some value =>
    let (scheme, fields) := Authorization.splitScheme value
    Text.sameIgnoringCase scheme "digest" && d.accepts r (Authorization.readFields fields)

end DigestAuth
end Rtsp
