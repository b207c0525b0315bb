-- SUMMARY: Reading a message from a byte string that holds it whole.
import Rtsp.Error
import Rtsp.Message.Basic

/-!
# Whole messages

`Message.parse` reads one message from the start of a byte string. The head ends at the first
blank line. A header line without a name is dropped; a body shorter than declared is an error, and
bytes after the body are ignored.
-/

namespace Rtsp.Message

/-- The bytes before the first blank line, and the bytes after it. -/
def splitHead : Bytes → Bytes × Bytes
  | 13 :: 10 :: 13 :: 10 :: rest => ([], rest)
  | 10 :: 10 :: rest => ([], rest)
  | b :: rest => let (head, body) := splitHead rest; (b :: head, body)
  | [] => ([], [])

/-- Drop one carriage return at the end of a line. -/
def dropReturn (line : List Char) : List Char :=
  if line.getLast? = some '\r' then line.dropLast else line

/-- The lines of a head, without the blank ones in front. -/
def headLines (head : Bytes) : List (List Char) :=
  (((Text.Utf8.decodeLossy head).splitOn '\n').map dropReturn).dropWhile
    fun line => (Text.trim line).isEmpty

/-- The headers on the lines before the first empty one. -/
def headersOfLines (lines : List (List Char)) : Headers :=
  (lines.takeWhile (!·.isEmpty)).foldl (fun h line => h.addLine (String.ofList line)) {}

def parse (raw : Bytes) : Except Error Message :=
  let (head, rest) := splitHead raw
  match headLines head with
  | [] => .error (.parse .emptyMessage)
  | line :: lines =>
    let headers := headersOfLines lines
    match headers.contentLength? with
    | none => .error (.parse .contentLength)
    | some length =>
      if rest.length < length then .error (.parse .contentLength)
      else .ok (ofParts (String.ofList line) headers (rest.take length))

def toRequest : Message → Except Error Request
  | .request r => .ok r
  | _ => .error (.parse .startLine)

def toResponse : Message → Except Error Response
  | .response r => .ok r
  | _ => .error (.parse .startLine)

end Rtsp.Message

namespace Rtsp

/-- Read a message that has to be a request. -/
def Request.parse (raw : Bytes) : Except Error Request :=
  Message.parse raw >>= Message.toRequest

/-- Read a message that has to be a response. -/
def Response.parse (raw : Bytes) : Except Error Response :=
  Message.parse raw >>= Message.toResponse

end Rtsp
