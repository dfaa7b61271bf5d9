import Upkeep.Text.Utf8

/-!
The calls of a key-value store. Keys are texts in code point order, which is the order of
their octets; values are octets. Each call takes effect at once or fails without effect.
-/

namespace Upkeep.Store

/-- Why a file system refused. -/
inductive FileFault where
  | notFound
  | exists
  | isDirectory
  | notDirectory
  | nameTooLong
  deriving DecidableEq, Repr

inductive Error where
  | file (fault : FileFault)
  /-- The store gives a reason of its own. -/
  | refused (reason : String)
  deriving DecidableEq, Repr

def FileFault.message : FileFault → String
  | .notFound => "No such file or directory (os error 2)"
  | .exists => "File exists (os error 17)"
  | .notDirectory => "Not a directory (os error 20)"
  | .isDirectory => "Is a directory (os error 21)"
  | .nameTooLong => "File name too long (os error 36)"

def Error.message : Error → String
  | .file f => f.message
  | .refused reason => reason

inductive Call where
  /-- Up to `limit` keys that start with `start` and come after `after`, ascending. -/
  | scan (start : String) (after : Option String) (limit : Nat)
  | get (key : String)
  | put (key : String) (value : Bytes)
  /-- Puts `value` only if the key holds exactly `expected`. -/
  | compareAndPut (key : String) (expected value : Bytes)
  /-- Answers whether the key was there. -/
  | delete (key : String)
  deriving DecidableEq, Repr

def Call.Answer : Call → Type
  | .scan .. => List String
  | .get _ => Option Bytes
  | .put .. => Unit
  | .compareAndPut .. => Bool
  | .delete _ => Bool

/-- A call is answered or fails. -/
abbrev Reply (c : Call) := Except Error c.Answer

/-- Whether a text starts with another. -/
def startsWith (start key : String) : Bool := start.toList.isPrefixOf key.toList

/-- Whether a key comes after a cursor; every key comes after none. -/
def isAfter (after : Option String) (key : String) : Bool :=
  match after with
  | none => true
  | some a => decide (a < key)

end Upkeep.Store
