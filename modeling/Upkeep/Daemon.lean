import Upkeep.Caretaker
import Upkeep.Session.Restore
import Upkeep.Settings.Basic
import Upkeep.Store.FileStore
import Upkeep.Timeline

/-!
The caretaker as a program that is run: what its command line comes to, how upkeep starts in a state
directory, and the code that a run ends with.
-/

namespace Upkeep

namespace Settings

def rotation (s : Settings) : Rotation Expiry.Error :=
  ⟨s.clientId, s.margin.seconds, Expiry.decoder⟩

/-- More pages than any store has. -/
def budget : Nat := Nat.pow 2 64

def caretaker (s : Settings) : Caretaker Expiry.Error where
  provider := s.rotation.restore
  retry := ⟨s.maxAttempts, s.backoff⟩
  decode := Expiry.decoder
  pageSize := s.pageSize
  markers := ⟨s.markerNamespace, s.pageSize⟩
  budget := budget

def plan (s : Settings) : Plan := ⟨s.stagger, s.period, s.lookahead, s.sweepInterval⟩

end Settings

namespace Daemon

/-- What a command line comes to. -/
inductive Command where
  | help
  | version
  | misused (e : CommandLine.Error)
  | invalid (f : Settings.Fault)
  | run (s : Settings)

def command (env : CommandLine.Values) (tokens : List String) : Command :=
  match Settings.parse env tokens with
  | .error .help => .help
  | .error .version => .version
  | .error e => .misused e
  | .ok s =>
    match s.fault? with
    | some f => .invalid f
    | none => .run s

/-- How a run ends. -/
inductive Ending where
  | normal
  /-- Upkeep could not be started, or nobody could be listened to. -/
  | fatal
  | misuse
  | death
  deriving DecidableEq, Repr

def Ending.code : Ending → Nat
  | .normal => 0
  | .fatal => 1
  | .misuse => 2
  | .death => 101

/-- The ending of a command that runs nothing. -/
def Command.ending? : Command → Option Ending
  | .help | .version => some .normal
  | .misused _ | .invalid _ => some .misuse
  | .run _ => none

/-- What surrounds a run: its state directory and the clock. -/
structure Place where
  disk : Store.Opened
  clock : UInt64

/-- Surroundings in which `endpoint` answers token grants. -/
def outside (f : Store.FileStore) (order : List Bytes → List Bytes)
    (endpoint : Grant.Request → Grant.Reply) (k : Caretaker Expiry.Error) : Outside Place where
  store c s :=
    let (reply, disk) := f.answer? order c s.disk
    (reply, { s with disk := disk })
  now s := s.clock
  exchange g s := (endpoint g, s)
  attempt _ _ s := s
  consult _ s := (⟨.zero, none⟩, s)
  ring _ s := (true, s)
  perform := k.perform
  insists _ _ _ := false

/-- What becomes of starting upkeep: a handle, or the ending of the run. -/
def started : Option (Except Failure Handle) → Except Ending Handle
  | none => .error .death
  | some (.error _) => .error .fatal
  | some (.ok h) => .ok h

/-- Starts upkeep. -/
def start (o : Outside Place) (s : Settings) (t : Timeline Place) : Except Ending Handle × Timeline Place :=
  let (r, t) := t.run o (s.caretaker.start s.plan)
  (started r, t)

end Daemon

end Upkeep
