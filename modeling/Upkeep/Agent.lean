import Upkeep.Token.TokenSet
import Upkeep.Work

/-!
Agents: sessions that are acquired from a provider, which is asked a bounded number of times.
-/

namespace Upkeep

/-- What restores the session of an identifier; none while there is no session. -/
abbrev Provider := Did → Errand (Option Session)

structure Retry where
  maxAttempts : Nat
  /-- How long to wait between one attempt and the next. -/
  backoff : Duration
  deriving DecidableEq, Repr

structure Agent where
  session : Session
  deriving DecidableEq

/-- No attempt gave a session. -/
structure Unavailable where
  did : Did
  attempts : Nat
  /-- What the last attempt failed with; none if it found no session. -/
  lastError : Option String

def Unavailable.message (u : Unavailable) : String :=
  "agent unavailable for " ++ u.did.text ++ " after " ++ toString u.attempts ++ " attempts"
    ++ match u.lastError with
      | some e => ": " ++ e
      | none => ""

namespace Agent

def accessToken? (a : Agent) : Option String := TokenSet.accessToken? a.session.blob

/-- Whether a text may stand in a header: tabs, and nothing else that controls. -/
def mayStandInHeader (s : String) : Bool :=
  (Utf8.encode s).all fun b => b == Ascii.tab || (0x20 ≤ b && b != 0x7f)

/-- The header value that carries an access token; none if the token cannot stand in one. -/
def authorization? (token : String) : Option String :=
  let value := "Bearer " ++ token
  if mayStandInHeader value then some value else none

/-- One attempt: the session, or what an agent that is not available reports. -/
def attempt (provider : Provider) (d : Did) : Work (Except (Option String) Session) :=
  (Work.ask (.attempt d)).bind fun _ =>
    (provider d).bind fun
      | .ok (some s) => .done (.ok s)
      | .ok none => .done (.error none)
      | .error f => .done (.error (some f.message))

/-- Attempts until one gives a session, with `more` further ones after the first. -/
def attempts (provider : Provider) (backoff : Duration) (d : Did) :
    (more : Nat) → Work (Except (Option String) Session)
  | 0 => attempt provider d
  | more + 1 =>
    (attempt provider d).bind fun
      | .ok s => .done (.ok s)
      | .error _ => (Work.ask (.sleep backoff)).bind fun _ => attempts provider backoff d more

/-- The agent of an identifier, after at least one attempt. -/
def obtain (provider : Provider) (retry : Retry) (d : Did) : Work (Except Unavailable Agent) :=
  (attempts provider retry.backoff d (retry.maxAttempts - 1)).bind fun
    | .ok s => .done (.ok ⟨s⟩)
    | .error last => .done (.error ⟨d, max retry.maxAttempts 1, last⟩)

end Agent

end Upkeep
