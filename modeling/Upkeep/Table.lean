/-!
Tables: lists of keys and values in ascending order of keys, each key once. `Ascending`
says so; insertion and removal keep it and change one key only.
-/

namespace Upkeep

/-- Keys with values, in ascending order when built by `insert`. -/
abbrev Table (κ α : Type) := List (κ × α)

namespace Table

variable {κ α : Type}

def get? [DecidableEq κ] (t : Table κ α) (k : κ) : Option α :=
  match t with
  | [] => none
  | (k', v) :: r => if k = k' then some v else get? r k

def insert [DecidableEq κ] [LT κ] [DecidableLT κ] (t : Table κ α) (k : κ) (v : α) : Table κ α :=
  match t with
  | [] => [(k, v)]
  | (k', v') :: r =>
    if k < k' then (k, v) :: (k', v') :: r
    else if k = k' then (k, v) :: r
    else (k', v') :: insert r k v

def erase [DecidableEq κ] (t : Table κ α) (k : κ) : Table κ α :=
  match t with
  | [] => []
  | (k', v') :: r => if k = k' then r else (k', v') :: erase r k

def keys (t : Table κ α) : List κ := t.map Prod.fst

def Ascending [LT κ] (t : Table κ α) : Prop := t.Pairwise fun p q => p.1 < q.1

def ofList [DecidableEq κ] [LT κ] [DecidableLT κ] (ps : List (κ × α)) : Table κ α :=
  ps.foldl (fun t p => t.insert p.1 p.2) []

@[simp] theorem get?_nil [DecidableEq κ] (k : κ) : get? ([] : Table κ α) k = none := rfl

@[simp] theorem keys_nil : keys ([] : Table κ α) = [] := rfl

@[simp] theorem keys_cons (p : κ × α) (t : Table κ α) : keys (p :: t) = p.1 :: keys t := rfl

@[simp] theorem ascending_nil [LT κ] : Ascending ([] : Table κ α) := List.Pairwise.nil

end Table

end Upkeep
