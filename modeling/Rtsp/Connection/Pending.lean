-- SUMMARY: The requests that still wait for a response.
import Rtsp.Message.Basic

/-!
# Pending requests

A finite map from sequence numbers to requests, listed by increasing number.
-/

namespace Rtsp

structure Pending where
  entries : List (UInt32 × Request) := []
  deriving DecidableEq, Repr

namespace Pending

def insertEntry (cseq : UInt32) (r : Request) :
    List (UInt32 × Request) → List (UInt32 × Request)
  | [] => [(cseq, r)]
  | (n, q) :: rest =>
    if cseq < n then (cseq, r) :: (n, q) :: rest
    else if cseq = n then (cseq, r) :: rest
    else (n, q) :: insertEntry cseq r rest

def insert (p : Pending) (cseq : UInt32) (r : Request) : Pending :=
  ⟨insertEntry cseq r p.entries⟩

def get? (p : Pending) (cseq : UInt32) : Option Request :=
  p.entries.lookup cseq

def erase (p : Pending) (cseq : UInt32) : Pending :=
  ⟨p.entries.filter fun e => e.1 != cseq⟩

end Pending
end Rtsp
