import Upkeep.Admin.Router
import Upkeep.Daemon
import Upkeep.Proofs.Markers
import Upkeep.Proofs.Store.Alone
import Upkeep.Proofs.Store.Shown
import Upkeep.Proofs.Timeline
import Upkeep.Proofs.Timer.Stagger

/-!
Numbers that settings put into upkeep, against the limits of what reckons with them. Accepted settings
give every ticker a period and let every acquisition make an attempt, and no sum or product of theirs
overflows. Only the page size is not looked at from above: a scan takes room for one key more than it
may answer, and there is not that much room for every page size that is accepted.
-/

namespace Upkeep

open Store

/-! What a daemon asks. -/

def Work.Request.background? : Work.Request → Option Chore
  | .launch chore | .after _ _ chore | .every _ _ chore => some chore
  | _ => none

/-- What is asked in the life of a daemon with certain settings, whatever its store holds and whatever
is replied: on its start, for requests to its admin interface, on its end, and for the chores that any
of these start. -/
inductive Settings.Asks (s : Settings) : Work.Request → Prop
  | start {σ : Type} (answer : Program.Answers work σ) (state : σ) {r : Work.Request}
      (h : r ∈ (s.caretaker.start s.plan).trace answer state) : Asks s r
  | respond {σ : Type} (answer : Program.Answers work σ) (state : σ) (describe : Expiry.Error → String)
      (registry : Nat) (req : Admin.Request) {r : Work.Request}
      (h : r ∈ (Admin.Site.respond ⟨s.caretaker, describe, ⟨registry, s.period⟩, s.authToken⟩ req).trace
        answer state) : Asks s r
  | shutDown {σ : Type} (answer : Program.Answers work σ) (state : σ) (registry : Nat)
      {r : Work.Request} (h : r ∈ (Handle.shutDown ⟨registry, s.period⟩).trace answer state) : Asks s r
  | perform {σ : Type} (answer : Program.Answers work σ) (state : σ) {chore : Chore}
      {r r' : Work.Request} (hr : Asks s r') (hchore : r'.background? = some chore)
      (h : r ∈ (s.caretaker.perform chore).trace answer state) : Asks s r

/-! Modest requests. -/

def Chore.Paced : Chore → Prop
  | .recur period _ chore => 0 < period.toNanos ∧ chore.Paced
  | _ => True

/-- A request that sets up no ticker without a period, and scans for just so many keys. -/
def Work.Request.Modest (size : Nat) : Work.Request → Prop
  | .store (.scan _ _ limit) => limit = size
  | .every period _ chore => 0 < period.toNanos ∧ chore.Paced
  | .launch chore | .after _ _ chore => chore.Paced
  | _ => True

theorem Work.Request.Modest.paced {size : Nat} {r : Work.Request} (h : r.Modest size) {chore : Chore}
    (hchore : r.background? = some chore) : chore.Paced := by
  cases r with
  | launch | after => exact Option.some.inj hchore ▸ h
  | every => exact Option.some.inj hchore ▸ h.2
  | _ => cases hchore

variable {size : Nat}

namespace Work

def IsModest {α : Type} (size : Nat) (p : Work α) : Prop :=
  p.Keeps (fun _ _ => True) (Request.Modest size) fun _ => True

theorem IsModest.bind {α β : Type} {p : Work α} {f : α → Work β} (hp : IsModest size p)
    (hf : ∀ a, IsModest size (f a)) : IsModest size (p.bind f) :=
  Program.Keeps.bind hp fun a _ => hf a

theorem IsModest.onSuccess {α β : Type} {p : Errand α} {f : α → Errand β} (hp : IsModest size p)
    (hf : ∀ a, IsModest size (f a)) : IsModest size (p.onSuccess f) := by
  refine hp.bind fun x => ?_
  cases x with
  | error e => trivial
  | ok a => exact hf a

theorem IsModest.of_mem_trace {α σ : Type} {p : Work α} (hp : IsModest size p)
    {answer : Program.Answers work σ} {state : σ} {r : Request} (h : r ∈ p.trace answer state) :
    r.Modest size :=
  Program.Keeps.safe_of_mem_trace hp r h

theorem isModest_ask {r : Request} (h : r.Modest size) : IsModest size (ask r) :=
  ⟨h, fun _ _ => trivial⟩

end Work

open Work

/-! Timers. -/

namespace Handle

variable {h : Handle} (hperiod : 0 < h.period.toNanos)

include hperiod in
theorem isModest_track (d : Did) (delay : Duration) : IsModest size (h.track d delay) := by
  refine (isModest_ask (r := .enroll h.registry d) trivial).bind fun permit => ?_
  cases permit with
  | none => trivial
  | some permit =>
      exact (isModest_ask (r := .after delay permit (.recur h.period permit (.refresh d)))
        ⟨hperiod, trivial⟩).bind fun _ => trivial

include hperiod in
theorem isModest_trackAll (stagger : Duration) (index : Nat) (ds : List Did) :
    IsModest size (h.trackAll stagger index ds) := by
  induction ds generalizing index with
  | nil => trivial
  | cons d ds ih => exact (isModest_track hperiod d _).bind fun _ => ih (index + 1)

theorem isModest_sweepEvery {interval : Duration} (hinterval : 0 < interval.toNanos) :
    IsModest size (h.sweepEvery interval) :=
  (isModest_ask (r := .issue h.registry) trivial).bind fun permit =>
    isModest_ask (r := .every interval permit .sweep) ⟨hinterval, trivial⟩

end Handle

/-! The caretaker. -/

namespace Caretaker

variable {ε : Type} {k : Caretaker ε}

theorem isModest_sweep (hsize : max k.pageSize 1 = size) : IsModest size k.sweep :=
  (Sweep.pass_keepsOk (fun _ => hsize) (fun _ _ _ _ _ => trivial)
    (fun _ _ _ _ => Rows.setExpiry_keepsOk trivial fun _ _ _ _ _ => trivial) k.budget).mono
      fun _ _ => trivial

theorem isModest_expiring (hsize : max k.pageSize 1 = size) (now lookahead : UInt64) :
    IsModest size (k.expiring now lookahead) :=
  (Sweep.expiring_keepsOk (fun _ => hsize) (fun _ _ _ _ _ => trivial) now lookahead k.budget).mono
    fun _ _ => trivial

theorem isModest_marked (hsize : max k.markers.pageSize 1 = size) : IsModest size k.marked :=
  (k.markers.list_keepsOk (fun _ => hsize) k.budget).mono fun _ _ => trivial

theorem isModest_launchAll (ds : List Did) : IsModest size (launchAll ds) := by
  induction ds with
  | nil => trivial
  | cons d ds ih => exact (isModest_ask (r := .launch (.refresh d)) trivial).bind fun _ => ih

theorem isModest_start (hsize : max k.pageSize 1 = size) (hmarkers : max k.markers.pageSize 1 = size)
    {plan : Plan} (hperiod : 0 < plan.period.toNanos)
    (hinterval : ∀ interval ∈ plan.sweepInterval, 0 < interval.toNanos) :
    IsModest size (k.start plan) := by
  refine (isModest_sweep hsize).onSuccess fun _ => ?_
  refine (isModest_ask (r := .now) trivial).bind fun now => ?_
  refine (isModest_expiring hsize now _).onSuccess fun due => ?_
  refine (isModest_launchAll due).bind fun _ => ?_
  refine (isModest_ask (r := .openRegistry) trivial).bind fun registry => ?_
  refine (isModest_marked hmarkers).onSuccess fun ds => ?_
  refine (Handle.isModest_trackAll (h := ⟨registry, plan.period⟩) hperiod _ 0 ds).bind fun _ => ?_
  cases hplan : plan.sweepInterval with
  | none => trivial
  | some interval => exact (Handle.isModest_sweepEvery (hinterval interval hplan)).bind fun _ => trivial

theorem isModest_perform (hprovider : ∀ d, IsModest size (k.provider d))
    (hsize : max k.pageSize 1 = size) {chore : Chore} (hpaced : chore.Paced) :
    IsModest size (k.perform chore) := by
  cases chore with
  | refresh d =>
      have hobtain : IsModest size (k.obtain d) :=
        Agent.obtain_keeps trivial (fun _ => trivial) (hprovider d) k.retry
      exact hobtain.bind fun _ => trivial
  | sweep => exact (isModest_sweep hsize).bind fun _ => trivial
  | ring bell =>
      refine (isModest_ask (r := .ring bell) trivial).bind fun goOn => ?_
      cases goOn <;> trivial
  | recur period permit chore => exact isModest_ask (r := .every period permit chore) hpaced

end Caretaker

namespace Admin.Site

variable {ε : Type} {s : Site ε}

theorem isModest_registerDid (hperiod : 0 < s.handle.period.toNanos) (d : Did) :
    IsModest size (s.registerDid d) := by
  have hregister : IsModest size (s.caretaker.markers.register d) :=
    (s.caretaker.markers.register_keepsOk trivial fun _ => trivial).mono fun _ _ => trivial
  refine hregister.bind fun registered => ?_
  cases registered with
  | error => trivial
  | ok registered =>
      exact (Handle.isModest_track hperiod d _).bind fun _ =>
        (isModest_ask (r := .enrolled s.handle.registry) trivial).bind fun _ => trivial

theorem isModest_handleRoute (hperiod : 0 < s.handle.period.toNanos)
    (hsize : max s.caretaker.pageSize 1 = size) (r : Route) : IsModest size (s.handleRoute r) := by
  cases r with
  | health | tracked => exact (isModest_ask (r := .enrolled s.handle.registry) trivial).bind fun _ => trivial
  | register segment =>
      change IsModest size (s.register segment)
      unfold register
      split
      next => trivial
      next =>
        split
        next => trivial
        next d _ => exact isModest_registerDid hperiod d
  | sweep =>
      refine (Caretaker.isModest_sweep hsize).bind fun report => ?_
      cases report <;> trivial

theorem isModest_respond (hperiod : 0 < s.handle.period.toNanos)
    (hsize : max s.caretaker.pageSize 1 = size) (req : Request) : IsModest size (s.respond req) := by
  have hserve (method : String) (route : Option Route) : IsModest size (s.serve method route) := by
    cases route with
    | none => trivial
    | some r =>
        unfold serve
        dsimp only
        split
        next => exact (isModest_handleRoute hperiod hsize r).bind fun _ => trivial
        next => trivial
  unfold respond
  dsimp only
  split
  next => trivial
  next =>
    split
    next => exact (hserve _ _).bind fun _ => trivial
    next => trivial

end Admin.Site

/-! A daemon with accepted settings. -/

/-- The most keys that a scan has room for. -/
theorem Store.FileStore.hasRoom_iff {limit : Nat} :
    hasRoom limit = true ↔ limit ≤ 384307168202282324 := by
  have hmax : maxRoom = 9223372036854775807 := rfl
  rw [hasRoom, decide_eq_true_iff, keyRoom, hmax]
  omega

/-- The first thing that a start asks for is a page of rows. -/
theorem Caretaker.start_eq_call {ε : Type} (k : Caretaker ε) (plan : Plan) (hbudget : k.budget ≠ 0) :
    ∃ next, k.start plan = (call (.scan Rows.start none (max k.pageSize 1))).bind next := by
  obtain ⟨budget, hbudget⟩ := Nat.exists_eq_succ_of_ne_zero hbudget
  unfold start sweep Sweep.pass
  rw [hbudget]
  unfold Sweep.passFrom Rows.page Program.onSuccess
  simp only [Program.bind_assoc]
  exact ⟨_, rfl⟩

theorem Agent.trace_obtain {σ : Type} (provider : Provider) (retry : Retry) (d : Did)
    (answer : Program.Answers work σ) (state : σ) :
    ∃ rest, (obtain provider retry d).trace answer state = .attempt d :: rest := by
  unfold Agent.obtain
  cases retry.maxAttempts - 1 <;> exact ⟨_, rfl⟩

namespace Settings

variable {s : Settings}

theorem pos_of_fault?_eq_none (h : s.fault? = none) :
    s.maxAttempts ≠ 0 ∧ s.refreshPeriodMs ≠ 0 ∧ s.pageSize ≠ 0 := by
  unfold fault? at h
  split at h
  next => cases h
  next hattempts =>
    split at h
    next => cases h
    next hperiod =>
      split at h
      next => cases h
      next hsize => exact ⟨hattempts, hperiod, hsize⟩

theorem toNanos_ofMillis_pos {ms : UInt64} (h : ms ≠ 0) : 0 < (Duration.ofMillis ms).toNanos := by
  have hne : ms.toNat ≠ 0 := fun hzero => h (UInt64.toNat_inj.mp hzero)
  rw [Duration.toNanos_ofMillis]
  omega

theorem toNanos_sweepInterval_pos : ∀ interval ∈ s.sweepInterval, 0 < interval.toNanos := by
  intro interval h
  unfold sweepInterval at h
  split at h
  next => cases h
  next hms =>
    cases h
    exact toNanos_ofMillis_pos hms

/-- All that a daemon asks with accepted settings is modest. -/
theorem Asks.modest (h : s.fault? = none) {r : Work.Request} (hr : s.Asks r) : r.Modest s.pageSize := by
  obtain ⟨-, hperiod, hpage⟩ := pos_of_fault?_eq_none h
  have hperiod : 0 < s.period.toNanos := toNanos_ofMillis_pos hperiod
  have hsize : max s.pageSize 1 = s.pageSize := Nat.max_eq_left (Nat.pos_of_ne_zero hpage)
  have hprovider (d : Did) : IsModest s.pageSize (s.caretaker.provider d) :=
    (s.rotation.restore_keepsOk trivial (fun _ => trivial) trivial fun _ => trivial).mono
      fun _ _ => trivial
  have hstart : IsModest s.pageSize (s.caretaker.start s.plan) :=
    Caretaker.isModest_start (k := s.caretaker) hsize hsize hperiod toNanos_sweepInterval_pos
  -- on how it came to be asked: what is modest starts only chores that are paced, and these ask
  -- for nothing else again
  induction hr with
  | start answer state hr => exact hstart.of_mem_trace hr
  | respond answer state describe registry req hr =>
      have hrespond := Admin.Site.isModest_respond
        (s := ⟨s.caretaker, describe, ⟨registry, s.period⟩, s.authToken⟩) hperiod hsize req
      exact hrespond.of_mem_trace hr
  | shutDown answer state registry hr =>
      have hshut : IsModest s.pageSize (Handle.shutDown ⟨registry, s.period⟩) :=
        (isModest_ask (r := .shut registry) trivial).bind fun _ =>
          isModest_ask (r := .clear registry) trivial
      exact hshut.of_mem_trace hr
  | perform answer state _ hchore hr ih =>
      have hperform := Caretaker.isModest_perform (k := s.caretaker) hprovider hsize (ih.paced hchore)
      exact hperform.of_mem_trace hr

theorem start_eq_call (hpage : s.pageSize ≠ 0) : ∃ next, s.caretaker.start s.plan =
    (call (.scan Rows.start none s.pageSize)).bind next := by
  have hbudget : budget ≠ 0 := by decide
  have hsize : max s.caretaker.pageSize 1 = s.pageSize := Nat.max_eq_left (Nat.pos_of_ne_zero hpage)
  rw [← hsize]
  exact s.caretaker.start_eq_call s.plan hbudget

/-- A start scans for rows first, whatever is replied. -/
theorem asks_scan (hpage : s.pageSize ≠ 0) : s.Asks (.store (.scan Rows.start none s.pageSize)) := by
  obtain ⟨next, hstart⟩ := start_eq_call hpage
  refine .start (Memory.alone Memory.nobody) [] ?_
  rw [hstart]
  exact List.mem_cons_self

/-- Without room for a scan, a daemon dies on its start. -/
theorem start_eq_death (hpage : s.pageSize ≠ 0) (hroom : FileStore.hasRoom s.pageSize = false)
    (f : FileStore) (order : List Bytes → List Bytes) (endpoint : Grant.Request → Grant.Reply)
    {t : Timeline Daemon.Place} (hpresent : t.outside.disk.disk.present = true) :
    (Daemon.start (Daemon.outside f order endpoint s.caretaker) s t).1 = .error .death := by
  obtain ⟨next, hstart⟩ := start_eq_call hpage
  have hstore : ((Daemon.outside f order endpoint s.caretaker).store
      (.scan Rows.start none s.pageSize) t.outside).1 = none := by
    change ((FileStore.scan Rows.start none s.pageSize).run (Files.answer order)
      t.outside.disk).1 = none
    rw [run_scan_of_no_room order hpresent Rows.start none hroom]
  rw [Daemon.start, hstart, Timeline.run_call_dead _ hstore]
  rfl

/-- What settings come to in upkeep has its limits kept, but for what scans take. -/
structure WithinLimits (s : Settings) : Prop where
  every_pos : ∀ period permit chore, s.Asks (.every period permit chore) → 0 < period.toNanos
  attempts : ∀ {σ : Type} (answer : Program.Answers work σ) (state : σ) (d : Did),
    ∃ rest, (s.caretaker.obtain d).trace answer state = .attempt d :: rest
  stagger : ∀ i, (startDelay s.plan.stagger i).toNanos =
    min (min i (2 ^ 32 - 1) * (s.staggerMs.toNat * 1000000)) Duration.max.toNanos
  lookahead : ∀ now, (saturatingAdd now s.plan.lookahead.seconds).toNat =
    min (now.toNat + s.expiryLookaheadSecs.toNat) (2 ^ 64 - 1)
  margin : ∀ now, (saturatingAdd now s.rotation.margin).toNat =
    min (now.toNat + s.refreshMarginSecs.toNat) (2 ^ 64 - 1)

/-- Every scan can count one key more than it may answer, and has room for so many. -/
def ScansFit (s : Settings) : Prop :=
  ∀ start after limit, s.Asks (.store (.scan start after limit)) →
    limit + 1 < 2 ^ 64 ∧ (limit + 1) * FileStore.keyRoom ≤ FileStore.maxRoom

theorem withinLimits (h : s.fault? = none) : s.WithinLimits where
  every_pos _ _ _ hasked := (hasked.modest h).1
  attempts answer state d := Agent.trace_obtain _ _ d answer state
  stagger i := by
    have hstagger : s.plan.stagger.toNanos = s.staggerMs.toNat * 1000000 :=
      Duration.toNanos_ofMillis s.staggerMs
    rw [toNanos_startDelay_eq_min, hstagger]
    rfl
  lookahead now := toNat_saturatingAdd_eq_min now s.expiryLookaheadSecs
  margin now := toNat_saturatingAdd_eq_min now s.refreshMarginSecs

theorem scansFit_iff (h : s.fault? = none) : s.ScansFit ↔ FileStore.hasRoom s.pageSize = true := by
  constructor
  · intro hfit
    exact decide_eq_true (hfit _ _ _ (asks_scan (pos_of_fault?_eq_none h).2.2)).2
  · intro hroom start after limit hasked
    obtain rfl : limit = s.pageSize := hasked.modest h
    have hle := FileStore.hasRoom_iff.mp hroom
    exact ⟨by omega, of_decide_eq_true hroom⟩

/-- Accepted settings keep all limits exactly if the page size is one that scans have room for; with
any greater one that can be counted past, a daemon that keeps its store in a directory does not survive
its start. -/
theorem limits_kept_iff (h : s.fault? = none) :
    s.WithinLimits ∧ (s.ScansFit ↔ s.pageSize ≤ 384307168202282324) ∧
      (384307168202282324 < s.pageSize → s.pageSize + 1 < 2 ^ 64 →
        ∀ (f : FileStore) (order : List Bytes → List Bytes) (endpoint : Grant.Request → Grant.Reply)
          (t : Timeline Daemon.Place), t.outside.disk.disk.present = true →
          (Daemon.start (Daemon.outside f order endpoint s.caretaker) s t).1 = .error .death) := by
  refine ⟨withinLimits h, (scansFit_iff h).trans FileStore.hasRoom_iff,
    fun hlarge _ f order endpoint t hpresent => ?_⟩
  have hroom : FileStore.hasRoom s.pageSize = false :=
    Bool.eq_false_iff.mpr fun hroom => Nat.not_le.mpr hlarge (FileStore.hasRoom_iff.mp hroom)
  exact start_eq_death (pos_of_fault?_eq_none h).2.2 hroom f order endpoint hpresent

def usual : Settings where
  host := "127.0.0.1"
  tcpPort := 9810
  authToken := none
  stateDir := none
  tokenUrl := "https://a/token"
  clientId := "client"
  markerNamespace := "refresh"
  maxAttempts := 5
  retryBackoffMs := 1000
  staggerMs := 5000
  refreshPeriodMs := 300000
  expiryLookaheadSecs := 600
  refreshMarginSecs := 300
  expirySweepMs := 0
  pageSize := 100
  logLevel := "info"
  logFormat := "text"

/-- With the largest page size there is room for, everything is kept. -/
theorem limits_kept_iff_largest :
    let s := { usual with pageSize := 384307168202282324 }
    s.fault? = none ∧ s.WithinLimits ∧ s.ScansFit := by
  intro s
  have haccepted : s.fault? = none := by decide
  obtain ⟨hlimits, hfit, -⟩ := limits_kept_iff haccepted
  exact ⟨haccepted, hlimits, hfit.mpr (Nat.le_refl _)⟩

/-- With the next one, settings are accepted that scans have no room for, and a daemon dies on its
start in an empty directory. -/
theorem limits_not_kept :
    let s := { usual with pageSize := 384307168202282325 }
    let place : Daemon.Place := ⟨FileStore.open ⟨true, []⟩, 0⟩
    s.fault? = none ∧ s.pageSize < 2 ^ 64 ∧ ¬ (s.WithinLimits ∧ s.ScansFit) ∧
      (Daemon.start (Daemon.outside ⟨1, fun _ => 0⟩ id (fun _ => .unreachable) s.caretaker) s
        (.start place false)).1 = .error .death := by
  intro s place
  have haccepted : s.fault? = none := by decide
  have hpage : s.pageSize ≠ 0 := by decide
  have hroom : FileStore.hasRoom s.pageSize = false := by decide
  refine ⟨haccepted, by decide, fun h => ?_, start_eq_death hpage hroom _ _ _ rfl⟩
  rw [scansFit_iff haccepted, hroom] at h
  exact Bool.false_ne_true h.2

end Settings

end Upkeep
