-- SUMMARY: Why an operation fails, and the text that reports it.

/-!
# Errors

Every failure of this library is one of the causes below. The wording lives in `Error.message`
alone. Lost or damaged media packets are no errors: a depacketizer counts and drops them.
-/

namespace Rtsp

/-- Why a byte stream could not be read or written. -/
inductive StreamError where
  /-- The stream ended where another header line or the rest of a skipped body was due. -/
  | endedInMessage
  /-- The stream ended inside a body or an interleaved frame. -/
  | endedInPayload
  | writeFailed
  | readFailed
  | connectionRefused
  deriving DecidableEq, Repr

/-- What kind of text or datagram was malformed. -/
inductive ParseError where
  | emptyMessage
  | startLine
  | contentLength
  | transport
  | rtpPacket
  | authenticationHeader
  deriving DecidableEq, Repr

inductive Error where
  | stream (cause : StreamError)
  | parse (cause : ParseError)
  | connectionClosed
  /-- A challenge names a scheme that this library cannot answer. -/
  | unsupportedScheme (scheme : String)
  /-- A Digest challenge names an algorithm other than MD5. -/
  | unsupportedAlgorithm (algorithm : String)
  /-- An interleaved frame has a 16-bit length. -/
  | payloadTooLong
  | alreadyStarted
  deriving DecidableEq, Repr

def StreamError.message : StreamError → String
  | .endedInMessage => "stream ended inside an RTSP message"
  | .endedInPayload => "failed to fill whole buffer"
  | .writeFailed => "write failed"
  | .readFailed => "read failed"
  | .connectionRefused => "connection refused"

def ParseError.message : ParseError → String
  | .emptyMessage => "empty message"
  | .startLine => "invalid command line"
  | .contentLength => "invalid content length"
  | .transport => "invalid transport"
  | .rtpPacket => "invalid RTP packet"
  | .authenticationHeader => "invalid authentication header"

def Error.message : Error → String
  | .stream cause => "I/O error: " ++ cause.message
  | .parse cause => "RTSP parse error: " ++ cause.message
  | .connectionClosed => "connection closed"
  | .unsupportedScheme scheme => "unsupported authentication: " ++ scheme
  | .unsupportedAlgorithm algorithm => "unsupported authentication: Digest algorithm " ++ algorithm
  | .payloadTooLong => "invalid argument: interleaved payload exceeds 65535 bytes"
  | .alreadyStarted => "invalid argument: listener already started"

end Rtsp
