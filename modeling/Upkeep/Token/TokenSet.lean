import Upkeep.Json.Reader
import Upkeep.Session.Record

/-!
The token set inside a credential blob: an object under one of two spellings of its key. What
reads it prefers one spelling, what writes it the other; they meet when a blob has one only.
-/

namespace Upkeep.TokenSet

def readKey : String := "tokenSet"

def writeKey : String := "token_set"

/-- The token set of a blob's value, `tokenSet` first. -/
def of? (v : Json) : Option Json :=
  let found := match v.get? readKey with
    | some set => some set
    | none => v.get? writeKey
  found.filter Json.isObject

/-- The access token of a blob, if it has one that is a string. -/
def accessToken? (b : Blob) : Option String := do
  let v ← (Json.parse b.text).toOption
  let set ← of? v
  let token ← set.get? "access_token"
  token.text?

end Upkeep.TokenSet
