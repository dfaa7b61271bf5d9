import Upkeep.Work

/-!
Recurring timers. A tick begins at its deadline, or when the tick before it ends if that is later;
the next deadline is set when a tick begins. Instants and spans are counted in nanoseconds.
-/

namespace Upkeep

/-- How late a tick may begin and still leave the next deadline where it was. -/
def tickSlack : Nat := 5000000

/-- The deadline after a tick: one period after its deadline, or after its begin if that was late. -/
def nextDeadline (period deadline begun : Nat) : Nat :=
  if begun ≤ deadline + tickSlack then deadline + period else begun + period

namespace Ticker

inductive Phase where
  | waiting (deadline : Nat)
  /-- A tick runs; the next deadline is set. -/
  | busy (next : Nat)
  | ended
  deriving DecidableEq, Repr

end Ticker

structure Ticker where
  period : Duration
  permit : Permit
  chore : Chore
  phase : Ticker.Phase

namespace Ticker

/-- A ticker registered at an instant. Without a period it dies at once. -/
def «at» (instant : Nat) (period : Duration) (permit : Permit) (chore : Chore) : Ticker :=
  ⟨period, permit, chore, if period.isZero then .ended else .waiting (instant + period.toNanos)⟩

/-- Whether a tick can begin at an instant. -/
def isReady (t : Ticker) (instant : Nat) : Bool :=
  match t.phase with
  | .waiting deadline => decide (deadline ≤ instant)
  | _ => false

/-- Begins a tick, if one can begin. -/
def begin (t : Ticker) (instant : Nat) : Ticker :=
  match t.phase with
  | .waiting deadline => { t with phase := .busy (nextDeadline t.period.toNanos deadline instant) }
  | _ => t

/-- Ends the tick that runs, whatever became of it. -/
def finish (t : Ticker) : Ticker :=
  match t.phase with
  | .busy next => { t with phase := .waiting next }
  | _ => t

def stop (t : Ticker) : Ticker := { t with phase := .ended }

/-- What becomes of it at an instant at which its permit is withdrawn: it stops if it sleeps, and a
tick that runs is left to finish. -/
def lapse (t : Ticker) (instant : Nat) : Ticker :=
  match t.phase with
  | .waiting deadline => if instant < deadline then t.stop else t
  | _ => t

end Ticker

end Upkeep
