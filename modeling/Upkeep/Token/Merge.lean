import Upkeep.Time.Duration
import Upkeep.Time.Rfc3339
import Upkeep.Token.Grant
import Upkeep.Token.TokenSet

/-!
Writing a granted token into the token set of a blob. All other members keep their values.
-/

namespace Upkeep.TokenSet

/-- The expiry of a token granted at `now`, as a blob states it; null when it is not known. -/
def expiryOf (now : UInt64) (t : Grant.Token) : Json :=
  if t.expiresIn = 0 then .null
  else
    match Rfc3339.format? (saturatingAdd now t.expiresIn).toNat with
    | some s => .text s
    | none => .null

/-- Sets a member to a text, if there is one. -/
def setText (set : Table String Json) (key : String) : Option String → Table String Json
  | some s => set.insert key (.text s)
  | none => set

/-- The members of a token set once a token is granted. -/
def granted (t : Grant.Token) (expiry : Json) (set : Table String Json) : Table String Json :=
  let set := setText set "access_token" (some t.accessToken)
  let set := setText set "refresh_token" t.refreshToken
  let set := setText set "token_type" t.tokenType
  set.insert "expires_at" expiry

/-- The key whose token set is written: `token_set` if it is there, whatever it holds. -/
def writtenKey (v : Json) : String := if (v.get? writeKey).isSome then writeKey else readKey

/-- The blob once a token is granted; none if it has no token set to write. -/
def merge (v : Json) (t : Grant.Token) (expiry : Json) : Option Blob :=
  match v with
  | .object members =>
    match Table.get? members (writtenKey v) with
    | some (.object set) =>
      some ⟨(Json.object (Table.insert members (writtenKey v) (.object (granted t expiry set)))).render⟩
    | _ => none
  | _ => none

end Upkeep.TokenSet
