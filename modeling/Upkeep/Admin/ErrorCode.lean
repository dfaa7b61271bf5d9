import Upkeep.Json.Error

/-!
The codes of failed admin requests, and the body that carries one with a message.
-/

namespace Upkeep.Admin

inductive ErrorCode where
  | unauthorized
  | badRequest
  | internal
  deriving DecidableEq, Repr

namespace ErrorCode

def status : ErrorCode → Nat
  | .unauthorized => 401
  | .badRequest => 400
  | .internal => 500

/-- The code as a body shows it. -/
def label : ErrorCode → String
  | .unauthorized => "UNAUTHORIZED"
  | .badRequest => "BAD_REQUEST"
  | .internal => "INTERNAL"

/-- The code as a serialized value names it. -/
def name : ErrorCode → String
  | .unauthorized => "Unauthorized"
  | .badRequest => "BadRequest"
  | .internal => "Internal"

def all : List ErrorCode := [.unauthorized, .badRequest, .internal]

def body (c : ErrorCode) (message : String) : Json :=
  .object [("error", .object [("code", .text c.label), ("message", .text message)])]

def ofName (name : String) : Except Json.Error ErrorCode :=
  match all.find? fun c => c.name == name with
  | some c => .ok c
  | none => .error (.unknownVariant name (all.map ErrorCode.name))

/-- A code given as its name, or as an object with the name as its one key and null under it. -/
def ofJson : Json → Except Json.Error ErrorCode
  | .text name => ofName name
  | .object [(name, content)] => do
    let c ← ofName name
    match content with
    | .null => return c
    | v => throw (.wrongType (Json.found v) "unit")
  | .object _ => .error (.wrongValue .map "map with a single key")
  | v => .error (.wrongType (Json.found v) "string or map")

end ErrorCode

end Upkeep.Admin
