import Upkeep.Http.Status
import Upkeep.Json.Schema
import Upkeep.Text.Percent

/-!
The refresh grant: what is sent to a token endpoint, what may come back, and the token it grants.
-/

namespace Upkeep.Grant

structure Request where
  clientId : String
  refreshToken : String
  deriving DecidableEq, Repr

/-- The form that a request sends. -/
def Request.body (r : Request) : String :=
  Percent.form [("grant_type", "refresh_token"), ("client_id", r.clientId), ("refresh_token", r.refreshToken)]

inductive Reply where
  | response (status : Nat) (body : Bytes)
  /-- No connection was made. -/
  | unreachable

/-- A granted token. -/
structure Token where
  accessToken : String
  refreshToken : Option String
  /-- Seconds until the token expires; zero says nothing about it. -/
  expiresIn : UInt64
  tokenType : Option String
  deriving DecidableEq, Repr

inductive Error where
  | unreachable
  | refused (status : Nat) (body : String)
  | malformed (e : Json.Error)

/-- The whole chain of causes of a failed grant. -/
def Error.message : Error → String
  | .unreachable =>
    "error sending request: client error (Connect): tcp connect error: "
      ++ "Network is unreachable (os error 101)"
  | .refused status body => "refresh failed (" ++ Http.statusText status ++ "): " ++ body
  | .malformed e => "error decoding response body: " ++ e.message

namespace Token

inductive Value where
  | text (s : String)
  | optional (s : Option String)
  | count (n : UInt64)

def as {α : Type} (f : α → Value) (read : Json.Reader α) : Json.Reader Value :=
  fun bs => (read bs).map fun p => (f p.1, p.2)

def schema : Json.Schema Value where
  title := "struct TokenResponse"
  fields :=
    [⟨"access_token", as .text Json.readText, none⟩,
      ⟨"refresh_token", as .optional (Json.readOptional Json.readText), some (.optional none)⟩,
      ⟨"expires_in", as .count Json.readNatural, some (.count 0)⟩,
      ⟨"token_type", as .optional (Json.readOptional Json.readText), some (.optional none)⟩]

def ofValues? : List Value → Option Token
  | [.text access, .optional refresh, .count seconds, .optional kind] =>
    some ⟨access, refresh, seconds, kind⟩
  | _ => none

def decode (bs : Bytes) : Except Json.Error Token := do
  match ofValues? (← schema.ofBytes bs) with
  | some t => return t
  | none => throw .endInValue

/-- The members of a token in their written order; what is not known is left out. -/
def toJson (t : Token) : Json :=
  let optional (key : String) (value : Option String) : List (String × Json) :=
    match value with
    | some s => [(key, .text s)]
    | none => []
  .object <|
    ("access_token", .text t.accessToken) :: optional "refresh_token" t.refreshToken
      ++ ("expires_in", .number (.natural t.expiresIn)) :: optional "token_type" t.tokenType

def render (t : Token) : String := t.toJson.render

end Token

/-- The token that a reply grants. -/
def Reply.token : Reply → Except Error Token
  | .unreachable => .error .unreachable
  | .response status body =>
    if Http.isSuccess status then
      match Token.decode body with
      | .ok t => .ok t
      | .error e => .error (.malformed e)
    else .error (.refused status (Utf8.lossy body))

end Upkeep.Grant
