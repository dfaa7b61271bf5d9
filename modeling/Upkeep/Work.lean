import Upkeep.Failure
import Upkeep.Program
import Upkeep.Session.Record
import Upkeep.Time.Duration

/-!
What the activities of a caretaker may ask of their surroundings: calls of its store, the clock,
token grants, sleep, timers, and the registries of what is kept up.
-/

namespace Upkeep

/-- Leave to go on, issued by a registry and withdrawn by it. -/
structure Permit where
  registry : Nat
  serial : Nat
  deriving DecidableEq, Repr

/-- What a background task does. -/
inductive Chore where
  /-- Acquires an agent, which refreshes its session if that is due. -/
  | refresh (did : Did)
  /-- Recomputes the expiry of every session. -/
  | sweep
  | ring (bell : Nat)
  /-- Has a chore done once in every period, while it is permitted. -/
  | recur (period : Duration) (permit : Permit) (chore : Chore)

namespace Work

inductive Request where
  | store (call : Store.Call)
  /-- The time, in seconds since the epoch. -/
  | now
  | exchange (grant : Grant.Request)
  /-- Announces an attempt to restore a session. -/
  | attempt (did : Did)
  /-- Asks a provider elsewhere to restore a session. -/
  | consult (did : Did)
  | sleep (span : Duration)
  /-- Rings a bell, and asks whether to go on. -/
  | ring (bell : Nat)
  /-- Starts a chore in the background. -/
  | launch (chore : Chore)
  /-- Starts a chore after a delay, unless the permit is withdrawn before. -/
  | after (delay : Duration) (permit : Permit) (chore : Chore)
  /-- Starts a chore once in every period, until the permit is withdrawn. -/
  | every (period : Duration) (permit : Permit) (chore : Chore)
  /-- A new registry with nothing in it. -/
  | openRegistry
  | issue (registry : Nat)
  /-- Enters an identifier, and issues a permit for it; none if it is there or the registry is shut. -/
  | enroll (registry : Nat) (did : Did)
  /-- Takes an identifier out and withdraws its permit; answers whether it was there. -/
  | strike (registry : Nat) (did : Did)
  /-- Shuts a registry for good and withdraws every permit it issued. -/
  | shut (registry : Nat)
  /-- Takes all identifiers out. -/
  | clear (registry : Nat)
  /-- The identifiers entered, in ascending order. -/
  | enrolled (registry : Nat)

def Request.Reply : Request → Type
  | .store call => Store.Reply call
  | .now => UInt64
  | .exchange _ => Grant.Reply
  | .consult _ => Except Failure (Option Session)
  | .ring _ => Bool
  | .openRegistry => Nat
  | .issue _ => Permit
  | .enroll .. => Option Permit
  | .strike .. => Bool
  | .enrolled _ => List Did
  | .attempt _ | .sleep _ | .launch _ | .after .. | .every .. | .shut _ | .clear _ => Unit

end Work

/-- The vocabulary of a caretaker's activities. -/
def work : Interface := ⟨Work.Request, Work.Request.Reply⟩

abbrev Work (α : Type) := Program work α

/-- An activity that may fail. -/
abbrev Errand (α : Type) := Work (Except Failure α)

namespace Work

def ask (r : Request) : Work r.Reply := Program.request (I := work) r

/-- A call of the store, whose failure is the errand's. -/
def call (c : Store.Call) : Errand c.Answer :=
  (ask (.store c)).bind fun
    | .ok a => .done (.ok a)
    | .error e => .done (.error (.store e))

def scan (start : String) (after : Option String) (limit : Nat) : Errand (List String) :=
  call (.scan start after limit)

def get (key : String) : Errand (Option Bytes) := call (.get key)

def put (key : String) (value : Bytes) : Errand Unit := call (.put key value)

def compareAndPut (key : String) (expected value : Bytes) : Errand Bool :=
  call (.compareAndPut key expected value)

def delete (key : String) : Errand Bool := call (.delete key)

def now : Work UInt64 := ask .now

def ok {α : Type} (a : α) : Errand α := .done (.ok a)

def fail {α : Type} (f : Failure) : Errand α := .done (.error f)

end Work

end Upkeep
