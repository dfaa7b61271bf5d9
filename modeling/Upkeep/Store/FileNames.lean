import Upkeep.Text.Hex
import Upkeep.Text.Utf8

/-!
The names of files that hold keys, and of the temporary files they are written to. A key's name
is its octets in hexadecimal digits, so names sort as keys do and no temporary name is one.
-/

namespace Upkeep.Store.FileNames

def ofKey (key : String) : Bytes := Hex.encode (Utf8.encode key)

/-- The ending of temporary names. -/
def temporaryEnding : Bytes := Utf8.encode ".tmp"

def isTemporary (name : Bytes) : Bool := temporaryEnding.isSuffixOf name

/-- The key that a name stands for; none for temporary names and names that are no key's. -/
def key? (name : Bytes) : Option String :=
  if isTemporary name then none else (Hex.decode name).bind Utf8.decode

/-- The name of the temporary file of one write by a process. -/
def temporary (key : String) (process serial : Nat) : Bytes :=
  ofKey key ++ Utf8.encode ("." ++ toString process ++ "." ++ toString serial) ++ temporaryEnding

end Upkeep.Store.FileNames
