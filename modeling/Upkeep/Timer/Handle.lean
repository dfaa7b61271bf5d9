import Upkeep.Timer.Stagger
import Upkeep.Work

/-!
The upkeep of identifiers through a handle: tracking one starts its timer, and cancelling or
shutting down withdraws the permit that the timer needs.
-/

namespace Upkeep

/-- The upkeep of the identifiers in one registry. -/
structure Handle where
  registry : Nat
  period : Duration
  deriving DecidableEq, Repr

namespace Handle

/-- A handle with nothing in it. -/
def «open» (period : Duration) : Work Handle :=
  (Work.ask .openRegistry).bind fun registry => .done ⟨registry, period⟩

/-- Keeps an identifier up once in every period, first a delay and a period from now; answers
whether it was not kept up before. -/
def track (h : Handle) (d : Did) (delay : Duration) : Work Bool :=
  (Work.ask (.enroll h.registry d)).bind fun
    | none => .done false
    | some permit =>
      (Work.ask (.after delay permit (.recur h.period permit (.refresh d)))).bind fun _ =>
        .done true

def cancel (h : Handle) (d : Did) : Work Bool := Work.ask (.strike h.registry d)

def tracked (h : Handle) : Work (List Did) := Work.ask (.enrolled h.registry)

def isTracked (h : Handle) (d : Did) : Work Bool :=
  h.tracked.bind fun ds => .done (ds.contains d)

/-- Ends all upkeep for good. -/
def shutDown (h : Handle) : Work Unit :=
  (Work.ask (.shut h.registry)).bind fun _ => Work.ask (.clear h.registry)

/-- Sweeps once in every interval, until the handle is shut down. -/
def sweepEvery (h : Handle) (interval : Duration) : Work Unit :=
  (Work.ask (.issue h.registry)).bind fun permit => Work.ask (.every interval permit .sweep)

/-- Tracks identifiers, each a stagger after the one before, counting places from `index`. -/
def trackAll (h : Handle) (stagger : Duration) : (index : Nat) → List Did → Work Unit
  | _, [] => .done ()
  | index, d :: ds =>
    (h.track d (startDelay stagger index)).bind fun _ => trackAll h stagger (index + 1) ds

end Handle

end Upkeep
