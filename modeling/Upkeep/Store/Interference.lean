import Upkeep.Store.Basic

/-!
Interference with the calls of a store: some calls fail, and before some of them another client
writes. A hook says which calls it is about, how many of them it lets through and how many it hits.
Every call is logged, whatever hits it.
-/

namespace Upkeep.Store

inductive Method where
  | scan
  | get
  | put
  | compareAndPut
  | delete
  deriving DecidableEq, Repr

def Method.name : Method → String
  | .scan => "scan"
  | .get => "get"
  | .put => "put"
  | .compareAndPut => "compare_and_put"
  | .delete => "delete"

def Method.all : List Method := [.scan, .get, .put, .compareAndPut, .delete]

def Call.method : Call → Method
  | .scan .. => .scan
  | .get _ => .get
  | .put .. => .put
  | .compareAndPut .. => .compareAndPut
  | .delete _ => .delete

/-- The key of a call, or the start of a scan. -/
def Call.subject : Call → String
  | .scan start _ _ => start
  | .get key | .put key _ | .compareAndPut key _ _ | .delete key => key

/-- What a hook does to a call that it hits. -/
inductive Effect where
  /-- The call fails and does nothing. -/
  | fault
  /-- Just before the call, keys are written or deleted. -/
  | race (writes : List (String × Option Bytes))

structure Hook where
  method : Option Method
  /-- The subject of the calls it is about; none for any. -/
  subject : Option String
  /-- How many of those calls it still lets through. -/
  skip : Nat
  /-- How many of them it still hits. -/
  times : Nat
  effect : Effect

def Hook.meets (h : Hook) (c : Call) : Bool :=
  h.times != 0 && h.method == some c.method && h.subject.all (· == c.subject)

/-- A store with the hooks in front of it and the calls made so far. -/
structure Interfered (σ : Type) where
  inner : σ
  hooks : List Hook
  log : List Call

namespace Interfered

variable {σ : Type}

/-- What does the calls of a store itself; no reply means that the caller dies. -/
abbrev Backing (σ : Type) := (c : Call) → σ → Option (Reply c) × σ

/-- Writes or deletes keys directly. -/
def writeAll (backing : Backing σ) : List (String × Option Bytes) → σ → σ
  | [], s => s
  | (key, some value) :: r, s => writeAll backing r (backing (.put key value) s).2
  | (key, none) :: r, s => writeAll backing r (backing (.delete key) s).2

/-- Takes a call past the hooks: whether it fails, and the hooks and the store after it. A fault
keeps the call from the hooks behind it. -/
def pass (backing : Backing σ) (c : Call) : List Hook → σ → Bool × List Hook × σ
  | [], s => (false, [], s)
  | h :: r, s =>
    if !h.meets c then
      let (failed, r, s) := pass backing c r s
      (failed, h :: r, s)
    else if h.skip ≠ 0 then
      let (failed, r, s) := pass backing c r s
      (failed, { h with skip := h.skip - 1 } :: r, s)
    else
      match h.effect with
      | .fault => (true, { h with times := h.times - 1 } :: r, s)
      | .race writes =>
        let (failed, r, s) := pass backing c r (writeAll backing writes s)
        (failed, { h with times := h.times - 1 } :: r, s)

def faultReason (c : Call) : String := "injected " ++ c.method.name ++ " fault: " ++ c.subject

def answer (backing : Backing σ) (c : Call) (s : Interfered σ) : Option (Reply c) × Interfered σ :=
  let (failed, hooks, inner) := pass backing c s.hooks s.inner
  let s : Interfered σ := ⟨inner, hooks, s.log ++ [c]⟩
  if failed then (some (.error (.refused (faultReason c))), s)
  else
    let (reply, inner) := backing c s.inner
    (reply, { s with inner := inner })

end Interfered

end Upkeep.Store
