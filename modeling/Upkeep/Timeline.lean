import Upkeep.Agent
import Upkeep.Timer.Registry
import Upkeep.Timer.Ticker

/-!
Activities on one line of time. Each runs until it has to wait; what is due earlier goes first,
and of two that are due together the one that began to wait first. Instants and spans are counted
in nanoseconds. A timer that sleeps is over when its permit is withdrawn; one that is due by then is
woken by both, and the surroundings say which of them it attends to.
-/

namespace Upkeep

/-- What a provider elsewhere makes of an attempt: after a delay it answers, or the asking
activity dies. -/
structure Consultation where
  delay : Duration
  verdict : Option (Except Failure (Option Session))

/-- A timer, by its place among those that fire once or among those that recur. -/
inductive Timer where
  | shot (index : Nat)
  | ticker (index : Nat)
  deriving DecidableEq, Repr

structure Outside (σ : Type) where
  /-- No reply means that the calling activity dies. -/
  store : (c : Store.Call) → σ → Option (Store.Reply c) × σ
  now : σ → UInt64
  exchange : Grant.Request → σ → Grant.Reply × σ
  /-- An attempt to restore a session begins at an instant. -/
  attempt : Did → Nat → σ → σ
  consult : Did → σ → Consultation × σ
  /-- Answers whether the activity that rang goes on. -/
  ring : Nat → σ → Bool × σ
  perform : Chore → Work Unit
  /-- Whether a timer that is due at an instant goes on although its permit is withdrawn by then. Both
  have woken it, and which of the two it attends to is drawn each time. -/
  insists : Timer → Nat → σ → Bool

structure OneShot where
  delay : Duration
  due : Nat
  permit : Permit
  chore : Chore
  /-- Whether it has fired, or stopped before it did. -/
  isOver : Bool

namespace OneShot

def stop (s : OneShot) : OneShot := { s with isOver := true }

/-- What becomes of it at an instant at which its permit is withdrawn: it stops if it sleeps. -/
def lapse (s : OneShot) (instant : Nat) : OneShot := if instant < s.due then s.stop else s

end OneShot

/-- An activity, and what its end means: nothing, the end of a tick, or the answer to a caller. -/
inductive Job where
  | chore (p : Work Unit)
  | tick (ticker : Nat) (p : Work Unit)
  | call (caller : Nat) (p : Work (Except Unavailable Agent))

/-- What comes up: an activity goes on, or a timer is looked at. -/
inductive Wake where
  | job (j : Job)
  | shot (index : Nat)
  | ticker (index : Nat)

structure Event where
  due : Nat
  wake : Wake

/-- The result of a caller's activity, and when it came; none if the activity died. -/
structure Answer where
  caller : Nat
  instant : Nat
  result : Option (Except Unavailable Agent)

structure Timeline (σ : Type) where
  outside : σ
  instant : Nat
  /-- In the order in which they come up. -/
  events : List Event
  registries : List Registry
  shots : List OneShot
  tickers : List Ticker
  answers : List Answer
  /-- Whether timers wait to be fired by hand. -/
  isManual : Bool

namespace Timeline

variable {σ : Type}

def start (outside : σ) (isManual : Bool) : Timeline σ := ⟨outside, 0, [], [], [], [], [], isManual⟩

/-- Puts an event after all that are due no later. -/
def place (e : Event) : List Event → List Event
  | [] => [e]
  | e' :: es => if e.due < e'.due then e :: e' :: es else e' :: place e es

def wakeAt (t : Timeline σ) (due : Nat) (w : Wake) : Timeline σ :=
  { t with events := place ⟨due, w⟩ t.events }

/-- Brings up an activity at the present instant. -/
def spawn (t : Timeline σ) (j : Job) : Timeline σ := t.wakeAt t.instant (.job j)

def registry (t : Timeline σ) (n : Nat) : Registry := t.registries.getD n .empty

def permits (t : Timeline σ) (p : Permit) : Bool := (t.registry p.registry).permits p.serial

/-- Has the timers lapse that wait with a permit which is lost. -/
def lapse (t : Timeline σ) (isLost : Permit → Bool) : Timeline σ :=
  { t with
    shots := t.shots.map fun s => if isLost s.permit then s.lapse t.instant else s
    tickers := t.tickers.map fun k => if isLost k.permit then k.lapse t.instant else k }

/-- Puts a registry in place. Timers whose permits are withdrawn by that lapse, unless they wait to
be fired by hand. -/
def setRegistry (t : Timeline σ) (n : Nat) (r : Registry) : Timeline σ :=
  let after := { t with registries := t.registries.set n r }
  after.lapse fun p => !t.isManual && t.permits p && !after.permits p

def openRegistry (t : Timeline σ) : Nat × Timeline σ :=
  (t.registries.length, { t with registries := t.registries ++ [.empty] })

def issue (t : Timeline σ) (n : Nat) : Permit × Timeline σ :=
  let (serial, r) := (t.registry n).issue
  (⟨n, serial⟩, t.setRegistry n r)

def withdraw (t : Timeline σ) (p : Permit) : Timeline σ :=
  t.setRegistry p.registry ((t.registry p.registry).withdraw p.serial)

def addShot (t : Timeline σ) (delay : Duration) (p : Permit) (c : Chore) : Timeline σ :=
  let index := t.shots.length
  let t := { t with shots := t.shots ++ [⟨delay, t.instant + delay.toNanos, p, c, false⟩] }
  if t.isManual then t else t.wakeAt t.instant (.shot index)

def addTicker (t : Timeline σ) (period : Duration) (p : Permit) (c : Chore) : Timeline σ :=
  let index := t.tickers.length
  let t := { t with tickers := t.tickers ++ [.at t.instant period p c] }
  if t.isManual then t else t.wakeAt t.instant (.ticker index)

/-- What becomes of a request: a reply after a delay, or the death of the activity. -/
structure Performed (σ : Type) (r : Work.Request) where
  reply : Option r.Reply
  delay : Nat
  timeline : Timeline σ

def atOnce {r : Work.Request} (x : r.Reply) (t : Timeline σ) : Performed σ r := ⟨some x, 0, t⟩

def withOutside (t : Timeline σ) (s : σ) : Timeline σ := { t with outside := s }

def perform (o : Outside σ) : (r : Work.Request) → Timeline σ → Performed σ r
  | .store c, t =>
    let (reply, s) := o.store c t.outside
    ⟨reply, 0, t.withOutside s⟩
  | .now, t => atOnce (o.now t.outside) t
  | .exchange g, t =>
    let (reply, s) := o.exchange g t.outside
    atOnce reply (t.withOutside s)
  | .attempt d, t => atOnce () (t.withOutside (o.attempt d t.instant t.outside))
  | .consult d, t =>
    let (c, s) := o.consult d t.outside
    ⟨c.verdict, c.delay.toNanos, t.withOutside s⟩
  | .sleep span, t => ⟨some (), span.toNanos, t⟩
  | .ring bell, t =>
    let (goOn, s) := o.ring bell t.outside
    atOnce goOn (t.withOutside s)
  | .launch c, t => atOnce () (t.spawn (.chore (o.perform c)))
  | .after delay p c, t => atOnce () (t.addShot delay p c)
  | .every period p c, t => atOnce () (t.addTicker period p c)
  | .openRegistry, t =>
    let (n, t) := t.openRegistry
    atOnce n t
  | .issue n, t =>
    let (p, t) := t.issue n
    atOnce p t
  | .enroll n d, t =>
    let (serial, r) := (t.registry n).enroll d
    atOnce (serial.map fun s => ⟨n, s⟩) (t.setRegistry n r)
  | .strike n d, t =>
    let (found, r) := (t.registry n).strike d
    atOnce found (t.setRegistry n r)
  | .shut n, t => atOnce () (t.setRegistry n (t.registry n).shut)
  | .clear n, t => atOnce () (t.setRegistry n (t.registry n).clear)
  | .enrolled n, t => atOnce (t.registry n).enrolled t

inductive Progress (α : Type) where
  | done (a : α)
  | dead
  | asleep (span : Nat) (rest : Work α)

/-- Runs an activity until it ends or has to wait. -/
def drive {α : Type} (o : Outside σ) : Work α → Timeline σ → Progress α × Timeline σ
  | .done a, t => (.done a, t)
  | .abandon, t => (.dead, t)
  | Program.ask r next, t =>
    let p := perform o r t
    match p.reply with
    | none => (if p.delay = 0 then .dead else .asleep p.delay .abandon, p.timeline)
    | some x =>
      if p.delay = 0 then drive o (next x) p.timeline else (.asleep p.delay (next x), p.timeline)

def setTicker (t : Timeline σ) (index : Nat) (ticker : Ticker) : Timeline σ :=
  { t with tickers := t.tickers.set index ticker }

/-- Ends the tick that runs, and has its ticker looked at. -/
def finishTick (t : Timeline σ) (index : Nat) : Timeline σ :=
  match t.tickers[index]? with
  | none => t
  | some ticker => (t.setTicker index ticker.finish).wakeAt t.instant (.ticker index)

def addAnswer (t : Timeline σ) (caller : Nat) (result : Option (Except Unavailable Agent)) :
    Timeline σ :=
  { t with answers := t.answers ++ [⟨caller, t.instant, result⟩] }

def resume (o : Outside σ) (t : Timeline σ) : Job → Timeline σ
  | .chore p =>
    match drive o p t with
    | (.asleep span rest, t) => t.wakeAt (t.instant + span) (.job (.chore rest))
    | (_, t) => t
  | .tick index p =>
    match drive o p t with
    | (.asleep span rest, t) => t.wakeAt (t.instant + span) (.job (.tick index rest))
    | (_, t) => t.finishTick index
  | .call caller p =>
    match drive o p t with
    | (.asleep span rest, t) => t.wakeAt (t.instant + span) (.job (.call caller rest))
    | (.done a, t) => t.addAnswer caller (some a)
    | (.dead, t) => t.addAnswer caller none

def setShot (t : Timeline σ) (index : Nat) (shot : OneShot) : Timeline σ :=
  { t with shots := t.shots.set index shot }

/-- Starts the chore of a timer that fires once. -/
def fire (o : Outside σ) (t : Timeline σ) (index : Nat) (shot : OneShot) : Timeline σ :=
  (t.setShot index shot.stop).resume o (.chore (o.perform shot.chore))

/-- Fires a timer by hand that has not fired, if its permit is good; answers whether it did. -/
def fireShot (o : Outside σ) (t : Timeline σ) (index : Nat) : Bool × Timeline σ :=
  match t.shots[index]? with
  | none => (false, t)
  | some shot =>
    if shot.isOver || !t.permits shot.permit then (false, t) else (true, t.fire o index shot)

/-- Whether a timer that is looked at heeds the withdrawal of its permit: it does if it is not due,
and else unless it insists. -/
def heeds (o : Outside σ) (t : Timeline σ) (timer : Timer) (p : Permit) (isDue : Bool) : Bool :=
  !t.permits p && !(isDue && o.insists timer t.instant t.outside)

/-- Looks at a timer that fires once: it stops if it heeds the withdrawal of its permit, fires if it
is due, and else is looked at again when it is. -/
def lookAtShot (o : Outside σ) (t : Timeline σ) (index : Nat) : Timeline σ :=
  match t.shots[index]? with
  | none => t
  | some shot =>
    if shot.isOver then t
    else if t.heeds o (.shot index) shot.permit (shot.due ≤ t.instant) then t.setShot index shot.stop
    else if shot.due ≤ t.instant then t.fire o index shot
    else t.wakeAt shot.due (.shot index)

/-- Looks at a ticker that waits: it stops if it heeds the withdrawal of its permit, begins a tick if
that can begin, and else is looked at again at its deadline. -/
def lookAtTicker (o : Outside σ) (t : Timeline σ) (index : Nat) : Timeline σ :=
  match t.tickers[index]? with
  | none => t
  | some ticker =>
    match ticker.phase with
    | .waiting deadline =>
      if t.heeds o (.ticker index) ticker.permit (ticker.isReady t.instant) then
        t.setTicker index ticker.stop
      else if ticker.isReady t.instant then
        (t.setTicker index (ticker.begin t.instant)).spawn (.tick index (o.perform ticker.chore))
      else t.wakeAt deadline (.ticker index)
    | _ => t

/-- Does the chore of a ticker once by hand, if its permit is good; answers whether it did. -/
def fireTick (o : Outside σ) (t : Timeline σ) (index : Nat) : Bool × Timeline σ :=
  match t.tickers[index]? with
  | none => (false, t)
  | some ticker =>
    if t.permits ticker.permit then (true, t.resume o (.chore (o.perform ticker.chore)))
    else (false, t)

def wake (o : Outside σ) (t : Timeline σ) : Wake → Timeline σ
  | .job j => t.resume o j
  | .shot index => t.lookAtShot o index
  | .ticker index => t.lookAtTicker o index

/-- Takes the next event, if one is due by an instant. -/
def step? (o : Outside σ) (t : Timeline σ) (bound : Option Nat) : Option (Timeline σ) :=
  match t.events with
  | [] => none
  | e :: es =>
    if bound.all (e.due ≤ ·) then
      some ({ t with events := es, instant := max t.instant e.due }.wake o e.wake)
    else none

/-- Takes all events that are due at the present instant or before it, at most `budget` of them. -/
def settle (o : Outside σ) : (budget : Nat) → Timeline σ → Timeline σ
  | 0, t => t
  | budget + 1, t =>
    match t.step? o (some t.instant) with
    | none => t
    | some t => settle o budget t

/-- Takes all events that are due by an instant, at most `budget` of them, and goes there. -/
def advanceTo (o : Outside σ) (bound : Nat) : (budget : Nat) → Timeline σ → Timeline σ
  | 0, t => t
  | budget + 1, t =>
    match t.step? o (some bound) with
    | none => { t with instant := max t.instant bound }
    | some t => advanceTo o bound budget t

/-- Takes events until as many answers are there as asked for. -/
def awaitAnswers (o : Outside σ) (count : Nat) : (budget : Nat) → Timeline σ → Timeline σ
  | 0, t => t
  | budget + 1, t =>
    if count ≤ t.answers.length then t
    else
      match t.step? o none with
      | none => t
      | some t => awaitAnswers o count budget t

/-- Runs activities together until all have ended, and gives their answers in the order in which
they ended. -/
def callAll (o : Outside σ) (budget : Nat) (ps : List (Work (Except Unavailable Agent)))
    (t : Timeline σ) : List Answer × Timeline σ :=
  let callers := (List.range ps.length).zip ps
  let t := callers.foldl (fun t (n, p) => t.spawn (.call n p)) { t with answers := [] }
  let t := awaitAnswers o ps.length budget t
  (t.answers, { t with answers := [] })

/-- Runs an activity that has nothing to wait for; none if it dies. -/
def run {α : Type} (o : Outside σ) (p : Work α) (t : Timeline σ) : Option α × Timeline σ :=
  match drive o p t with
  | (.done a, t) => (some a, t)
  | (_, t) => (none, t)

end Timeline

end Upkeep
