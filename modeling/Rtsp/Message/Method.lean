-- SUMMARY: Request methods.

/-!
# Methods

The methods that RTSP defines, and any other token. Tokens are case-sensitive.
-/

namespace Rtsp

inductive Method where
  | options
  | describe
  | setup
  | play
  | pause
  | teardown
  | announce
  | record
  | getParameter
  | setParameter
  | redirect
  | other (token : String)
  deriving DecidableEq, Repr

namespace Method

def token : Method → String
  | options => "OPTIONS"
  | describe => "DESCRIBE"
  | setup => "SETUP"
  | play => "PLAY"
  | pause => "PAUSE"
  | teardown => "TEARDOWN"
  | announce => "ANNOUNCE"
  | record => "RECORD"
  | getParameter => "GET_PARAMETER"
  | setParameter => "SET_PARAMETER"
  | redirect => "REDIRECT"
  | other token => token

/-- The methods with a name of their own. -/
def known : List Method :=
  [options, describe, setup, play, pause, teardown, announce, record, getParameter, setParameter,
    redirect]

def ofToken (token : String) : Method :=
  (known.find? fun m => m.token == token).getD (other token)

def isKnown : Method → Bool
  | other _ => false
  | _ => true

@[simp] theorem token_ofToken (s : String) : (ofToken s).token = s := by
  unfold ofToken
  cases h : known.find? (fun m => m.token == s) with
  | none => rfl
  | some m => simpa using List.find?_some h

/-- A method is the one that its token names, unless it is another method in disguise. -/
theorem ofToken_token {m : Method} (h : m ∈ known ∨ ∀ k ∈ known, k.token ≠ m.token) :
    ofToken m.token = m := by
  rcases h with hknown | hother
  · have hall : ∀ k ∈ known, ofToken k.token = k := by decide
    exact hall m hknown
  · have hnone : known.find? (fun k => k.token == m.token) = none := by
      simpa [List.find?_eq_none] using hother
    cases m with
    | other token => rw [ofToken, hnone]; rfl
    | _ => exact absurd rfl (hother _ (by decide))

end Method
end Rtsp
