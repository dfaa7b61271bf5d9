/-!
The smallest keys of a stream, holding no more of them than asked for. The held keys stand
in descending order, so the largest is at hand.
-/

namespace Upkeep.Store.Smallest

/-- Puts a key in its place among descending ones. -/
def push (key : String) : List String → List String
  | [] => [key]
  | k :: r => if k < key then key :: k :: r else k :: push key r

/-- Holds a key if there is room, or if it is smaller than the largest one held. -/
def offer (limit : Nat) (held : List String) (key : String) : List String :=
  if held.length = limit then
    match held with
    | largest :: r => if key < largest then push key r else held
    | [] => held
  else push key held

/-- The `limit` smallest keys, ascending. -/
def select (limit : Nat) (keys : List String) : List String :=
  (keys.foldl (offer limit) []).reverse

end Upkeep.Store.Smallest
