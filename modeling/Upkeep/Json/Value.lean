import Upkeep.Table
import Upkeep.Number.Binary64

/-!
JSON values. Members of an object are a table, so that they are written in key order and
a repeated key keeps its last value. A number is an integer of 64 bits or a binary64.
-/

namespace Upkeep

inductive Json.Number where
  | natural (n : UInt64)
  /-- The integer `-n`, where `n` is at least 1 and at most `2 ^ 63`. -/
  | negative (n : Nat)
  | float (x : Binary64)
  deriving DecidableEq, Repr

inductive Json where
  | null
  | bool (b : Bool)
  | number (n : Json.Number)
  | text (s : String)
  | array (items : List Json)
  | object (members : List (String × Json))

namespace Json

/-- The member of an object; nothing for any other value. -/
def get? (v : Json) (key : String) : Option Json :=
  match v with
  | .object members => Table.get? members key
  | _ => none

def isObject : Json → Bool
  | .object _ => true
  | _ => false

def isNull : Json → Bool
  | .null => true
  | _ => false

def text? : Json → Option String
  | .text s => some s
  | _ => none

def natural? : Json → Option UInt64
  | .number (.natural n) => some n
  | _ => none

end Json

end Upkeep
