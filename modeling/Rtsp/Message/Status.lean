-- SUMMARY: Status codes and their reason phrases.

/-!
# Status codes

A status is a number from 100 to 599. The phrase beside it is for people and has no meaning to a
program.
-/

namespace Rtsp.Status

/-- The numbers that a status line may carry. -/
def isValid (code : Nat) : Bool :=
  100 ≤ code && code ≤ 599

def isSuccess (code : Nat) : Bool :=
  200 ≤ code && code < 300

/-- The standard phrase for a code. -/
def reason : Nat → String
  | 100 => "Continue"
  | 200 => "OK"
  | 201 => "Created"
  | 250 => "Low on Storage Space"
  | 300 => "Multiple Choices"
  | 301 => "Moved Permanently"
  | 302 => "Moved Temporarily"
  | 303 => "See Other"
  | 304 => "Not Modified"
  | 305 => "Use Proxy"
  | 400 => "Bad Request"
  | 401 => "Unauthorized"
  | 402 => "Payment Required"
  | 403 => "Forbidden"
  | 404 => "Not Found"
  | 405 => "Method Not Allowed"
  | 406 => "Not Acceptable"
  | 407 => "Proxy Authentication Required"
  | 408 => "Request Time-out"
  | 410 => "Gone"
  | 411 => "Length Required"
  | 412 => "Precondition Failed"
  | 413 => "Request Entity Too Large"
  | 414 => "Request-URI Too Large"
  | 415 => "Unsupported Media Type"
  | 451 => "Parameter Not Understood"
  | 452 => "Conference Not Found"
  | 453 => "Not Enough Bandwidth"
  | 454 => "Session Not Found"
  | 455 => "Method Not Valid in This State"
  | 456 => "Header Field Not Valid for Resource"
  | 457 => "Invalid Range"
  | 458 => "Parameter Is Read-Only"
  | 459 => "Aggregate operation not allowed"
  | 460 => "Only aggregate operation allowed"
  | 461 => "Unsupported transport"
  | 462 => "Destination unreachable"
  | 500 => "Internal Server Error"
  | 501 => "Not Implemented"
  | 502 => "Bad Gateway"
  | 503 => "Service Unavailable"
  | 504 => "Gateway Time-out"
  | 505 => "RTSP Version not supported"
  | 551 => "Option not supported"
  | _ => "Unknown"

end Rtsp.Status
