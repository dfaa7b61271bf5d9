import Upkeep.Did
import Upkeep.Store.Basic
import Upkeep.Token.Grant

/-!
Why an errand fails.
-/

namespace Upkeep

inductive Failure where
  | store (e : Store.Error)
  | json (e : Json.Error)
  | grant (e : Grant.Error)
  | noTokenSet
  /-- The token set names a subject that is not the identifier asked for. -/
  | otherSubject (subject : String) (did : Did)
  | noRefreshToken (did : Did)
  /-- What a provider elsewhere reports, from the outermost cause to the root. -/
  | reported (causes : List String)

/-- The whole chain of causes. -/
def Failure.message : Failure → String
  | .store e => e.message
  | .json e => e.message
  | .grant e => e.message
  | .noTokenSet => "session blob has no token set"
  | .otherSubject subject did => "session subject " ++ subject ++ " does not match " ++ did.text
  | .noRefreshToken did =>
    "session for " ++ did.text ++ " is expiring and has no refresh token"
  | .reported causes => String.intercalate ": " causes

end Upkeep
