import Upkeep.Store.Basic
import Upkeep.Table

/-!
A store held as a table in memory. Every call is answered.
-/

namespace Upkeep.Store

abbrev Memory := Table String Bytes

namespace Memory

/-- Whether a key is past the lower end of a scan: the start, or the cursor when that is not below it. -/
def isInRange (start : String) (after : Option String) (key : String) : Bool :=
  match after with
  | some a => if start ≤ a then decide (a < key) else decide (start ≤ key)
  | none => decide (start ≤ key)

def scan (m : Memory) (start : String) (after : Option String) (limit : Nat) : List String :=
  ((m.keys.dropWhile fun k => !isInRange start after k).takeWhile (startsWith start)).take limit

def compareAndPut (m : Memory) (key : String) (expected value : Bytes) : Bool × Memory :=
  if m.get? key = some expected then (true, m.insert key value) else (false, m)

def answer : (c : Call) → Memory → Reply c × Memory
  | .scan start after limit, m => (.ok (scan m start after limit), m)
  | .get key, m => (.ok (m.get? key), m)
  | .put key value, m => (.ok (), m.insert key value)
  | .compareAndPut key expected value, m =>
    let (done, m') := compareAndPut m key expected value
    (.ok done, m')
  | .delete key, m => (.ok (m.get? key).isSome, m.erase key)

end Memory

end Upkeep.Store
