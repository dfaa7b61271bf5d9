import Upkeep.Store.Pager

/-!
Markers of upkeep: the identifiers that are to be kept up after a restart, each as one key of a
namespace of the store.
-/

namespace Upkeep

structure Markers where
  space : String
  pageSize : Nat
  deriving DecidableEq, Repr

namespace Markers

/-- What the keys of all markers start with. -/
def start (m : Markers) : String := m.space ++ ":"

def key (m : Markers) (d : Did) : String := m.start ++ d.text

/-- Sets a marker, and answers whether it was absent. -/
def register (m : Markers) (d : Did) : Errand Bool :=
  (Work.get (m.key d)).onSuccess fun
    | some _ => Work.ok false
    | none => (Work.put (m.key d) (Utf8.encode d.text)).onSuccess fun () => Work.ok true

def contains (m : Markers) (d : Did) : Errand Bool :=
  (Work.get (m.key d)).onSuccess fun value => Work.ok value.isSome

/-- Takes a marker away, and answers whether it was there. -/
def remove (m : Markers) (d : Did) : Errand Bool := Work.delete (m.key d)

/-- The identifier that a key marks; none for keys that mark none. -/
def did? (m : Markers) (key : String) : Option Did :=
  (Did.parse (String.ofList (key.toList.drop m.start.toList.length))).toOption

/-- The identifiers marked, in ascending order. -/
def list (m : Markers) (budget : Nat) : Errand (List Did) :=
  (Pager.walk budget (.at m.start m.pageSize)).onSuccess fun pages =>
    Work.ok (pages.flatten.filterMap m.did?)

end Markers

end Upkeep
