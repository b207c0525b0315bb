-- SUMMARY: Requests, responses, and messages in general.
import Rtsp.Message.Headers
import Rtsp.Message.Session
import Rtsp.Message.StartLine

/-!
# Messages

A message is a start line, headers and a body. Writing one always declares the length of the body
it really has, and declares none for an empty body.
-/

namespace Rtsp

/-- The version that this library speaks. -/
def protocolVersion : String := "RTSP/1.0"

/-- The name under which this library identifies itself. -/
def productName : String := "rtsp-media/0.1.0"

structure Request where
  method : Method
  uri : String
  version : String := protocolVersion
  headers : Headers := {}
  body : Bytes := []
  deriving DecidableEq, Repr

structure Response where
  status : Nat
  reason : String
  version : String := protocolVersion
  headers : Headers := {}
  body : Bytes := []
  /-- The request that this response answers, once it has been matched to one. -/
  answers : Option Request := none
  deriving DecidableEq, Repr

/-- A message whose start line is neither a request line nor a status line. -/
structure UnknownMessage where
  line : String
  headers : Headers
  body : Bytes
  deriving DecidableEq, Repr

inductive Message where
  | request (r : Request)
  | response (r : Response)
  | unknown (u : UnknownMessage)
  deriving DecidableEq, Repr

/-- What follows the start line: headers, the length of a non-empty body, a blank line, the
body. -/
def encodeRest (headers : Headers) (body : Bytes) : Bytes :=
  headers.encode
    ++ (if body.isEmpty then []
        else Text.Utf8.encode ("Content-Length: " ++ toString body.length ++ "\r\n"))
    ++ Text.Utf8.encode "\r\n" ++ body

/-- The wire form of a message with the given parts. -/
def encodeParts (start : StartLine) (headers : Headers) (body : Bytes) : Bytes :=
  Text.Utf8.encode (start.text ++ "\r\n") ++ encodeRest headers body

-- ---------------------------------------------------------------------------
-- Requests
-- ---------------------------------------------------------------------------

namespace Request

def startLine (r : Request) : StartLine :=
  .request r.method r.uri r.version

def encode (r : Request) : Bytes :=
  encodeParts r.startLine r.headers r.body

def setHeader (r : Request) (name value : String) : Request :=
  { r with headers := r.headers.set name value }

def cseq? (r : Request) : Option UInt32 :=
  r.headers.cseq?

/-- The session identifier without its parameters. -/
def sessionId? (r : Request) : Option String :=
  (r.headers.get? "Session").map fun value => (SessionField.read value).id

end Request

-- ---------------------------------------------------------------------------
-- Responses
-- ---------------------------------------------------------------------------

namespace Response

/-- A response that names this library as the server. -/
def create (status : Nat) (reason : String) : Response where
  status := status
  reason := reason
  headers := ⟨[("Server", productName)]⟩

def ok : Response := create 200 "OK"

def notFound : Response := create 404 "Not Found"

def badRequest : Response := create 400 "Bad Request"

def unauthorized : Response := create 401 "Unauthorized"

def startLine (r : Response) : StartLine :=
  .response r.version r.status r.reason

def encode (r : Response) : Bytes :=
  encodeParts r.startLine r.headers r.body

def setHeader (r : Response) (name value : String) : Response :=
  { r with headers := r.headers.set name value }

def isOk (r : Response) : Bool :=
  Status.isSuccess r.status

def cseq? (r : Response) : Option UInt32 :=
  r.headers.cseq?

def session? (r : Response) : Option SessionField :=
  (r.headers.get? "Session").map SessionField.read

/-- The session identifier without its parameters. -/
def sessionId? (r : Response) : Option String :=
  r.session?.map (·.id)

/-- The session timeout in seconds, where there is a session. -/
def sessionTimeout? (r : Response) : Option Nat :=
  r.session?.map fun s => s.timeout.getD SessionField.defaultTimeout

end Response

/-- The answer that a server gives to a request: sequence number and session are repeated as they
were sent, and the phrase is the standard one. -/
def Request.respond (r : Request) (status : Nat) : Response :=
  let response := Response.create status (Status.reason status)
  { response with
    headers := (response.headers.copyFrom r.headers "CSeq").copyFrom r.headers "Session" }

-- ---------------------------------------------------------------------------
-- Messages
-- ---------------------------------------------------------------------------

namespace Message

def ofParts (line : String) (headers : Headers) (body : Bytes) : Message :=
  match StartLine.read line with
  | .request method uri version =>
    .request { method, uri, version, headers, body }
  | .response version status reason =>
    .response { status, reason, version, headers, body }
  | .unknown line => .unknown { line, headers, body }

def startLine : Message → StartLine
  | request r => r.startLine
  | response r => r.startLine
  | unknown u => .unknown u.line

def headers : Message → Headers
  | request r => r.headers
  | response r => r.headers
  | unknown u => u.headers

def body : Message → Bytes
  | request r => r.body
  | response r => r.body
  | unknown u => u.body

def cseq? (m : Message) : Option UInt32 :=
  m.headers.cseq?

def encode (m : Message) : Bytes :=
  encodeParts m.startLine m.headers m.body

end Message
end Rtsp
