import Upkeep.Text.Base64Url
import Upkeep.Time.Rfc3339
import Upkeep.Token.TokenSet

/-!
The expiry of the token in a blob, in seconds since the epoch: what the token set states, or the
claim of its access token when it states none.
-/

namespace Upkeep

/-- What tells when the token in a blob expires, or fails with a cause of type `ε`. -/
abbrev Decoder (ε : Type) := Blob → Except ε UInt64

namespace Expiry

inductive Error where
  | json (e : Json.Error)
  | base64 (e : Base64Url.Error)
  | noTokenSet
  | neitherExpiryNorToken
  | notNatural (n : Json.Number)
  | badTime (text : String) (e : Rfc3339.Error)
  | beforeEpoch (text : String)
  | unsupported (v : Json)
  | notSegmented
  | noClaim

def Error.message : Error → String
  | .json e => e.message
  | .base64 e => e.message
  | .noTokenSet => "session blob has no token set"
  | .neitherExpiryNorToken => "token set has neither expires_at nor access_token"
  | .notNatural n => "expires_at is not a positive integer: " ++ String.ofList n.chars
  | .badTime text e => "invalid expires_at " ++ Quoted.encode text ++ ": " ++ e.message
  | .beforeEpoch text => "expires_at before epoch: " ++ text
  | .unsupported v => "unsupported expires_at: " ++ v.render
  | .notSegmented => "access token is not a JWT"
  | .noClaim => "access token has no exp claim"

/-- A count of seconds, or a point in time as text. -/
def ofJson : Json → Except Error UInt64
  | .number (.natural n) => .ok n
  | .number n => .error (.notNatural n)
  | .text s =>
    match Rfc3339.parse s with
    | .error e => .error (.badTime s e)
    | .ok t => if 0 ≤ t then .ok (UInt64.ofNat t.toNat) else .error (.beforeEpoch s)
  | v => .error (.unsupported v)

/-- The parts of a text between its points. -/
def segments : List Char → List (List Char)
  | [] => [[]]
  | c :: r =>
    match segments r with
    | [] => [[c]]
    | s :: rest => if c = '.' then [] :: s :: rest else (c :: s) :: rest

/-- A text without the equals signs at its end. -/
def trimPadding (cs : List Char) : List Char := (cs.reverse.dropWhile (· == '=')).reverse

/-- The `exp` claim of a signed token, which is not verified: its second of three segments or more. -/
def ofToken (token : String) : Except Error UInt64 :=
  match segments token.toList with
  | _ :: payload :: _ :: _ =>
    match Base64Url.decode (Utf8.encode (String.ofList (trimPadding payload))) with
    | .error e => .error (.base64 e)
    | .ok octets =>
      match Json.ofBytes octets with
      | .error e => .error (.json e)
      | .ok claims =>
        match (claims.get? "exp").bind Json.natural? with
        | some t => .ok t
        | none => .error .noClaim
  | _ => .error .notSegmented

/-- What a token set says about its expiry; null says nothing. -/
def ofTokenSet (set : Json) : Except Error UInt64 :=
  match (set.get? "expires_at").filter fun v => !v.isNull with
  | some v => ofJson v
  | none =>
    match (set.get? "access_token").bind Json.text? with
    | some token => ofToken token
    | none => .error .neitherExpiryNorToken

/-- The decoder for blobs that hold a token set. -/
def decoder : Decoder Error := fun b =>
  match Json.parse b.text with
  | .error e => .error (.json e)
  | .ok v =>
    match TokenSet.of? v with
    | none => .error .noTokenSet
    | some set => ofTokenSet set

end Expiry

end Upkeep
