import Upkeep.Agent
import Upkeep.Markers
import Upkeep.Session.Sweep
import Upkeep.Timer.Handle

/-!
The caretaker of sessions: what its chores do, and its start from the store, which sweeps the rows,
refreshes the sessions that expire soon and tracks every marked identifier.
-/

namespace Upkeep

/-- How upkeep is started. -/
structure Plan where
  stagger : Duration
  period : Duration
  lookahead : Duration
  /-- How often sessions are swept again, if at all. -/
  sweepInterval : Option Duration
  deriving DecidableEq, Repr

/-- Five seconds between starts, a period of five minutes, ten minutes of lookahead. -/
def Plan.standard : Plan := ⟨.ofSeconds 5, .ofSeconds 300, .ofSeconds 600, none⟩

/-- What a caretaker works with. -/
structure Caretaker (ε : Type) where
  provider : Provider
  retry : Retry
  decode : Decoder ε
  pageSize : Nat
  markers : Markers
  /-- The most pages that one walk through the store takes. -/
  budget : Nat

namespace Caretaker

variable {ε : Type}

def obtain (k : Caretaker ε) (d : Did) : Work (Except Unavailable Agent) :=
  Agent.obtain k.provider k.retry d

def sweep (k : Caretaker ε) : Errand (Sweep.Report ε) := Sweep.pass k.decode k.pageSize k.budget

def expiring (k : Caretaker ε) (now lookahead : UInt64) : Errand (List Did) :=
  Sweep.expiring now lookahead k.pageSize k.budget

def marked (k : Caretaker ε) : Errand (List Did) := k.markers.list k.budget

/-- What each chore does. -/
def perform (k : Caretaker ε) : Chore → Work Unit
  | .refresh d => (k.obtain d).bind fun _ => .done ()
  | .sweep => k.sweep.bind fun _ => .done ()
  | .ring bell => (Work.ask (.ring bell)).bind fun (goOn : Bool) => if goOn then .done () else .abandon
  | .recur period permit chore => Work.ask (.every period permit chore)

/-- Starts the refresh of each identifier. -/
def launchAll : List Did → Work Unit
  | [] => .done ()
  | d :: ds => (Work.ask (.launch (.refresh d))).bind fun _ => launchAll ds

/-- Starts upkeep from what the store holds. -/
def start (k : Caretaker ε) (plan : Plan) : Errand Handle :=
  k.sweep.onSuccess fun _ =>
    Work.now.bind fun now =>
      (k.expiring now plan.lookahead.seconds).onSuccess fun due =>
        (launchAll due).bind fun _ =>
          (Handle.open plan.period).bind fun h =>
            k.marked.onSuccess fun ds =>
              (h.trackAll plan.stagger 0 ds).bind fun _ =>
                match plan.sweepInterval with
                | none => Work.ok h
                | some interval => (h.sweepEvery interval).bind fun _ => Work.ok h

end Caretaker

end Upkeep
