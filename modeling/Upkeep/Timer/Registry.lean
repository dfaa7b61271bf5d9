import Upkeep.Did
import Upkeep.Table

/-!
Registries of what is kept up. A registry issues permits by number and withdraws them, one at a
time or all at once when it is shut; a withdrawn permit stays withdrawn.
-/

namespace Upkeep

structure Registry where
  isShut : Bool
  /-- How many permits were issued. -/
  issued : Nat
  withdrawn : List Nat
  /-- The identifiers entered, with the permit of each. -/
  entered : Table Did Nat

namespace Registry

def empty : Registry := ⟨false, 0, [], []⟩

/-- Whether a permit is still good. -/
def permits (r : Registry) (serial : Nat) : Bool := !r.isShut && !r.withdrawn.contains serial

def issue (r : Registry) : Nat × Registry := (r.issued, { r with issued := r.issued + 1 })

def withdraw (r : Registry) (serial : Nat) : Registry :=
  { r with withdrawn := serial :: r.withdrawn }

/-- Enters an identifier, with a new permit; not if it is there already or the registry is shut. -/
def enroll (r : Registry) (d : Did) : Option Nat × Registry :=
  if r.isShut || (r.entered.get? d).isSome then (none, r)
  else
    let (serial, r) := r.issue
    (some serial, { r with entered := r.entered.insert d serial })

/-- Takes an identifier out and withdraws its permit; answers whether it was there. -/
def strike (r : Registry) (d : Did) : Bool × Registry :=
  match r.entered.get? d with
  | none => (false, r)
  | some serial => (true, { r.withdraw serial with entered := r.entered.erase d })

def shut (r : Registry) : Registry := { r with isShut := true }

def clear (r : Registry) : Registry := { r with entered := [] }

def enrolled (r : Registry) : List Did := r.entered.keys

end Registry

end Upkeep
