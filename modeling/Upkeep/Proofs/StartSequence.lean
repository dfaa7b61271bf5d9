import Upkeep.Proofs.Faltering

/-!
The course of a start, whatever the store holds and whichever of its calls fail. The sweep comes first
and alone; the query, the launch of the refreshes, the listing and the timers follow in turn, and the
start ends with the first of the sweep, the query and the listing that fails. Once refreshes have been
launched they may change the store under the listing.
-/

namespace Upkeep

open Store

namespace Work

def Request.chore? : Request → Option Chore
  | .launch chore => some chore
  | _ => none

def Request.isTimer : Request → Bool
  | .after .. | .every .. => true
  | _ => false

def Request.SetsOut : Request → Prop
  | .attempt _ | .consult _ | .exchange _ | .launch _ | .after .. | .every .. => True
  | _ => False

def Request.Writes : Request → Prop
  | .store c => c.writes = true
  | _ => False

def Request.Registers : Request → Prop
  | .openRegistry | .issue _ | .enroll .. | .strike .. | .shut _ | .clear _ | .enrolled _ => True
  | _ => False

def chores (asked : List Request) : List Chore := asked.filterMap Request.chore?

def timers (asked : List Request) : List Request := asked.filter Request.isTimer

theorem chores_append {l l' : List Request} {cs cs' : List Chore} (h : chores l = cs)
    (h' : chores l' = cs') : chores (l ++ l') = cs ++ cs' := by
  rw [chores, List.filterMap_append, ← h, ← h']
  rfl

theorem timers_append {l l' ts ts' : List Request} (h : timers l = ts) (h' : timers l' = ts') :
    timers (l ++ l') = ts ++ ts' := by
  rw [timers, List.filter_append, ← h, ← h']
  rfl

theorem chores_eq_nil {l : List Request} (h : ∀ r ∈ l, ¬ r.SetsOut) : chores l = [] := by
  refine List.filterMap_eq_nil_iff.mpr fun r hr => ?_
  cases r with
  | launch => exact absurd trivial (h _ hr)
  | _ => rfl

theorem timers_eq_nil {l : List Request} (h : ∀ r ∈ l, ¬ r.SetsOut) : timers l = [] := by
  refine List.filter_eq_nil_iff.mpr fun r hr => ?_
  cases r with
  | after | every => exact absurd trivial (h _ hr)
  | _ => exact Bool.false_ne_true

end Work

/-- Surroundings in which a start is made, and what there is to see of them. -/
structure Host (σ : Type) where
  answer : Program.Answers work σ
  held : σ → Memory
  /-- Whether chores are at work in the background. -/
  isBusy : σ → Bool
  registry : σ → Nat → Registry

def Host.trace {σ α : Type} (host : Host σ) (p : Work α) (s : σ) : List Work.Request :=
  p.trace host.answer s

/-- A host that has no chore to do until it is asked for one. As long as it has none, only what is
asked changes the store; chores at work may change it before each request, but leave the keys with a
certain start as they are. A registry is changed only by what is asked of it. -/
structure Host.Lawful {σ : Type} (host : Host σ) (start : String) : Prop where
  turn : ∀ r s, Table.Ascending (host.held s) → ∃ m, Table.Ascending m ∧
    m.keys.filter (startsWith start) = (host.held s).keys.filter (startsWith start) ∧
    (host.isBusy s = false → m = host.held s) ∧
    Shared r m (host.answer r s).1 (host.held (host.answer r s).2)
  idle : ∀ r s, host.isBusy s = false → ¬ r.SetsOut → host.isBusy (host.answer r s).2 = false
  opens : ∀ s, host.registry (host.answer .openRegistry s).2 (host.answer .openRegistry s).1 = .empty
  issues : ∀ n s, (host.answer (.issue n) s).1 = ⟨n, (host.registry s n).issue.1⟩ ∧
    host.registry (host.answer (.issue n) s).2 n = (host.registry s n).issue.2
  enrolls : ∀ n d s,
    (host.answer (.enroll n d) s).1 = ((host.registry s n).enroll d).1.map (Permit.mk n) ∧
    host.registry (host.answer (.enroll n d) s).2 n = ((host.registry s n).enroll d).2
  spares : ∀ r s n, ¬ r.Registers → host.registry (host.answer r s).2 n = host.registry s n

namespace Caretaker

variable {ε σ : Type} (k : Caretaker ε) (plan : Plan)

def query : Errand (List Did) :=
  Work.now.bind fun now => k.expiring now plan.lookahead.seconds

def launchDue (due : List Did) : Work Handle :=
  (launchAll due).bind fun _ => Handle.open plan.period

inductive Step where
  | sweep
  | query
  | listing
  deriving DecidableEq

/-- A step of a start comes in its turn, and fails. -/
inductive Fails (host : Host σ) (s : σ) : Step → Failure → Prop
  | sweep {e : Failure} {s' : σ} (h : k.sweep.run host.answer s = (some (.error e), s')) :
      Fails host s .sweep e
  | query {report : Sweep.Report ε} {e : Failure} {s₁ s' : σ}
      (hsweep : k.sweep.run host.answer s = (some (.ok report), s₁))
      (h : (k.query plan).run host.answer s₁ = (some (.error e), s')) : Fails host s .query e
  | listing {report : Sweep.Report ε} {due : List Did} {handle : Handle} {e : Failure}
      {s₁ s₂ s₃ s' : σ} (hsweep : k.sweep.run host.answer s = (some (.ok report), s₁))
      (hquery : (k.query plan).run host.answer s₁ = (some (.ok due), s₂))
      (hlaunch : (launchDue plan due).run host.answer s₂ = (some handle, s₃))
      (h : k.marked.run host.answer s₃ = (some (.error e), s')) : Fails host s .listing e

def upkeepTimer (registry : Nat) (i : Nat) (d : Did) : Work.Request :=
  .after (startDelay plan.stagger i) ⟨registry, i⟩ (.recur plan.period ⟨registry, i⟩ (.refresh d))

/-- What a start comes to, with all that it asks. -/
structure Outcome (host : Host σ) (s : σ) (x : Except Failure Handle) (s' : σ)
    (asked : List Work.Request) : Prop where
  /-- The sweep comes before anything that sets out, and nothing is written after it. -/
  order : ∃ rest, asked = host.trace k.sweep s ++ rest ∧
    (∀ r ∈ host.trace k.sweep s, ¬ r.SetsOut) ∧ ∀ r ∈ rest, ¬ r.Writes
  failed : ∀ e, x = .error e → Work.timers asked = [] ∧
    ∃ step, k.Fails plan host s step e ∧ (Work.chores asked ≠ [] → step = .listing)
  /-- Those are refreshed who are due after the sweep, each of them once. -/
  refreshed : ∀ h, x = .ok h → ∃ due : List Did, Work.chores asked = due.map .refresh ∧ due.Nodup ∧
    ∀ d, d ∈ due ↔ Rows.Due (host.held (k.sweep.run host.answer s).2)
      (host.answer .now (k.sweep.run host.answer s).2).1 plan.lookahead.seconds d
  /-- Those are tracked who are marked, each with a timer, and one more timer is for sweeps. -/
  tracked : ∀ h, x = .ok h → ∃ ds : List Did, ds.Pairwise (· < ·) ∧
    (∀ d, d ∈ ds ↔ k.markers.key d ∈ (host.held s).keys) ∧
    (∀ d, d ∈ (host.registry s' h.registry).enrolled ↔ d ∈ ds) ∧
    Work.timers asked = ds.mapIdx (upkeepTimer plan h.registry) ++
      plan.sweepInterval.toList.map fun interval => .every interval ⟨h.registry, ds.length⟩ .sweep

theorem start_eq : k.start plan = k.sweep.onSuccess fun _ => (k.query plan).onSuccess fun due =>
    (launchDue plan due).bind fun h => k.trackMarked plan h := by
  refine congrArg (Program.onSuccess k.sweep) (funext fun _ => ?_)
  refine congrArg (Program.bind Work.now) (funext fun now => ?_)
  refine congrArg (Program.onSuccess _) (funext fun due => ?_)
  exact (Program.bind_assoc ..).symm

variable {k plan} in
/-- A start in which a step fails ends with that failure. -/
theorem Fails.run {host : Host σ} {s : σ} {step : Step} {e : Failure}
    (h : k.Fails plan host s step e) :
    ∃ s', (k.start plan).run host.answer s = (some (.error e), s') := by
  rw [start_eq, Program.run_onSuccess]
  cases h with
  | sweep h =>
      rw [h]
      exact ⟨_, rfl⟩
  | query hsweep h =>
      rw [hsweep]
      dsimp only
      rw [Program.run_onSuccess, h]
      exact ⟨_, rfl⟩
  | listing hsweep hquery hlaunch h =>
      rw [hsweep]
      dsimp only
      rw [Program.run_onSuccess, hquery]
      dsimp only
      rw [Program.run_bind, hlaunch]
      dsimp only
      rw [trackMarked, Program.run_onSuccess, h]
      exact ⟨_, rfl⟩

end Caretaker

theorem Store.Shared.steady {m m' : Memory} {r : Work.Request} {x : r.Reply}
    (h : Shared r m x m') : Work.Steady m r x := by
  cases h with
  | answered => exact .inl rfl
  | failed c _ e => exact .inr ⟨e, rfl⟩
  | elsewhere _ _ _ hr =>
      cases r with
      | store c => exact absurd rfl (hr c)
      | _ => trivial

theorem Store.Shared.eq_of_not_writes {m m' : Memory} {r : Work.Request} {x : r.Reply}
    (h : Shared r m x m') (hr : ¬ r.Writes) : m' = m := by
  cases h with
  | answered c =>
      cases c with
      | scan | get => rfl
      | put | compareAndPut | delete => exact absurd rfl hr
  | failed | elsewhere => rfl

theorem Work.Request.Looks.not_writes {r : Work.Request} (h : r.Looks) : ¬ r.Writes := by
  cases r with
  | store c =>
      cases c with
      | scan | get => exact Bool.false_ne_true
      | put | compareAndPut | delete => exact h.elim
  | _ => exact h.elim

theorem Work.Request.Looks.not_setsOut {r : Work.Request} (h : r.Looks) : ¬ r.SetsOut := by
  cases r with
  | store => exact id
  | _ => exact h.elim

theorem Sweep.Asks.not_setsOut {ε : Type} {decode : Decoder ε} {r : Work.Request}
    (h : Sweep.Asks decode r) : ¬ r.SetsOut := by
  cases r with
  | store => exact id
  | _ => exact h.elim

/-- Rows that are refreshed stay where they are filed. -/
theorem Rows.Filed.refreshes {ε : Type} {decode : Decoder ε} {m m' : Memory} (h : Rows.Filed m)
    (hasc : Table.Ascending m) (hrefreshes : Sweep.Refreshes decode m m') : Rows.Filed m' := by
  intro row hrow r hr
  obtain ⟨hmem, hstart⟩ := List.mem_filter.mp hrow
  have hheld := Table.get?_of_mem (hrefreshes.ascending hasc) hmem
  have hfiled (bs : Bytes) (r' : Record) (hbs : m.get? row.1 = some bs)
      (hr' : Record.decode bs = .ok r') : row.1 = Rows.key r'.did :=
    h (row.1, bs) (List.mem_filter.mpr ⟨Table.mem_of_get? hbs, hstart⟩) r' hr'
  rcases hrefreshes.row row.1 with hsame | ⟨bs, bs', hbs, hbs', r', t, hdecode, -, hencode⟩
  · exact hfiled row.2 r (hsame ▸ hheld) hr
  · obtain rfl : bs' = row.2 := Option.some.inj (hbs'.symm.trans hheld)
    rw [hencode, Record.decode_encode] at hr
    cases hr
    exact hfiled bs r' hbs hdecode

section Stages

variable {σ : Type} {host : Host σ} {start : String} (hlaw : host.Lawful start)

namespace Host.Lawful

include hlaw

/-- A host without chores does what it is asked, and nothing else. -/
theorem turn_idle {r : Work.Request} {s : σ} (hidle : host.isBusy s = false)
    (hasc : Table.Ascending (host.held s)) (hr : ¬ r.SetsOut) :
    Shared r (host.held s) (host.answer r s).1 (host.held (host.answer r s).2) ∧
      host.isBusy (host.answer r s).2 = false := by
  obtain ⟨m, -, -, hsame, hturn⟩ := hlaw.turn r s hasc
  rw [hsame hidle] at hturn
  exact ⟨hturn, hlaw.idle r s hidle hr⟩

end Host.Lawful

namespace Caretaker

variable {ε : Type} (k : Caretaker ε) (plan : Plan) {s : σ}

include hlaw

/-- The sweep comes to its end, alone with the store. -/
theorem finishes_sweep (hidle : host.isBusy s = false) (hasc : Table.Ascending (host.held s))
    (hbudget : (host.held s).keys.length < k.budget) :
    k.sweep.Finishes host.answer s fun _ s' l => host.isBusy s' = false ∧
      Sweep.Refreshes k.decode (host.held s) (host.held s') ∧ ∀ r ∈ l, Sweep.Asks k.decode r := by
  have hsweep : k.sweep.CompletesOk
      (Work.Finds Rows.start ((host.held s).keys.filter (startsWith Rows.start)))
      (Sweep.Asks k.decode) fun _ => True :=
    Program.Keeps.completes ((Sweep.pass_asks k.decode k.pageSize k.budget).mono_rely
        fun _ _ _ => trivial)
      (Sweep.pass_ends k.decode k.pageSize
        (Nat.lt_of_le_of_lt (List.length_filter_le ..) hbudget))
  refine (hsweep.finishes (fun t => host.isBusy t = false ∧
    Sweep.Refreshes k.decode (host.held s) (host.held t)) (fun r t hr ⟨hbusy, hheld⟩ => ?_)
    ⟨hidle, .refl _⟩).mono fun _ s' l ⟨_, hs', hl⟩ => ⟨hs'.1, hs'.2, hl⟩
  have hasc' := hheld.ascending hasc
  obtain ⟨hturn, hbusy'⟩ := hlaw.turn_idle hbusy hasc' hr.not_setsOut
  exact ⟨Shared.finds hasc' (by rw [hheld.keys]) hturn, hbusy',
    hheld.trans ((hr.touches hturn).refreshes_store hasc')⟩

/-- The query comes to its end, alone with the store, and names whoever is due. -/
theorem finishes_query (hidle : host.isBusy s = false) (hasc : Table.Ascending (host.held s))
    (hbudget : (host.held s).keys.length < k.budget) :
    (k.query plan).Finishes host.answer s fun x s' l => host.held s' = host.held s ∧
      (∀ due, x = .ok due → due = Rows.dueBy
        (saturatingAdd (host.answer .now s).1 plan.lookahead.seconds) (Rows.ofStore (host.held s))) ∧
      ∀ r ∈ l, ¬ r.SetsOut ∧ ¬ r.Writes := by
  obtain ⟨hnow, hidle'⟩ := hlaw.turn_idle hidle hasc (r := .now) id
  have hheld : host.held (host.answer .now s).2 = host.held s := hnow.eq_of_not_writes id
  have hrows : (Rows.ofStore (host.held s)).length < k.budget := by
    rw [← List.length_map Prod.fst, Rows.keys_ofStore]
    exact Nat.lt_of_le_of_lt (List.length_filter_le ..) hbudget
  refine Work.finishes_ask ?_
  refine ((Sweep.expiring_steady hasc _ plan.lookahead.seconds k.pageSize hrows).finishes
    (fun t => host.isBusy t = false ∧ host.held t = host.held s) (fun r t hr ⟨hbusy, hsame⟩ => ?_)
    ⟨hidle', hheld⟩).mono fun x s' l ⟨hx, hs', hl⟩ => ⟨hs'.2, hx, ?_⟩
  · obtain ⟨hturn, hbusy'⟩ := hlaw.turn_idle hbusy (hsame ▸ hasc) hr.not_setsOut
    exact ⟨hsame ▸ hturn.steady, hbusy', (hturn.eq_of_not_writes hr.not_writes).trans hsame⟩
  · exact List.forall_mem_cons.mpr ⟨⟨id, id⟩, fun r hr =>
      ⟨(hl r hr).not_setsOut, (hl r hr).not_writes⟩⟩

/-- What the chores at work leave as it is, and the listing relies on. -/
structure Listable (host : Host σ) (start : String) (found : List String) (t : σ) : Prop where
  ascending : Table.Ascending (host.held t)
  keys : (host.held t).keys.filter (startsWith start) = found

variable {found : List String}

/-- Whatever is asked but a write, and whatever chores do before it. -/
theorem Listable.turn (h : Listable host start found s) {r : Work.Request} (hr : ¬ r.Writes) :
    Listable host start found (host.answer r s).2 ∧
      Work.Finds start found r (host.answer r s).1 := by
  obtain ⟨m, hm, hkeys, -, hturn⟩ := hlaw.turn r s h.ascending
  rw [h.keys] at hkeys
  have hheld := hturn.eq_of_not_writes hr
  exact ⟨⟨hheld ▸ hm, hheld ▸ hkeys⟩, Shared.finds hm hkeys hturn⟩

theorem finishes_launchAll (h : Listable host start found s) (ds : List Did) :
    (launchAll ds).Finishes host.answer s fun _ s' l => Listable host start found s' ∧
      Work.chores l = ds.map .refresh ∧ Work.timers l = [] ∧ ∀ r ∈ l, ¬ r.Writes := by
  induction ds generalizing s with
  | nil => exact ⟨h, rfl, rfl, List.forall_mem_nil _⟩
  | cons d ds ih =>
      have hturn := h.turn hlaw (r := .launch (.refresh d)) id
      exact Work.finishes_ask ((ih hturn.1).mono fun _ s' l ⟨hs', hchores, htimers, hwrites⟩ =>
        ⟨hs', congrArg _ hchores, htimers, List.forall_mem_cons.mpr ⟨id, hwrites⟩⟩)

theorem finishes_launchDue (h : Listable host start found s) (due : List Did) :
    (launchDue plan due).Finishes host.answer s fun handle s' l =>
      (Listable host start found s' ∧ host.registry s' handle.registry = .empty) ∧
        handle.period = plan.period ∧ Work.chores l = due.map .refresh ∧ Work.timers l = [] ∧
        ∀ r ∈ l, ¬ r.Writes := by
  refine Program.Finishes.bind ((finishes_launchAll hlaw h due).mono
    fun _ s' l ⟨hs', hchores, htimers, hwrites⟩ => ?_)
  refine Work.finishes_ask ⟨⟨(hs'.turn hlaw (r := .openRegistry) id).1, hlaw.opens s'⟩, rfl, ?_,
    Work.timers_append htimers rfl, List.forall_mem_append.mpr ⟨hwrites, ?_⟩⟩
  · exact (Work.chores_append hchores rfl).trans (List.append_nil _)
  · exact List.forall_mem_cons.mpr ⟨id, List.forall_mem_nil _⟩

theorem finishes_track {n index : Nat} {d : Did} (hopen : (host.registry s n).isShut = false)
    (hissued : (host.registry s n).issued = index)
    (hnew : (host.registry s n).entered.get? d = none) :
    (Handle.track ⟨n, plan.period⟩ d (startDelay plan.stagger index)).Finishes host.answer s
      fun _ s' l => host.registry s' n = (host.registry s n).enter d ∧
        l = [.enroll n d, upkeepTimer plan n index d] := by
  obtain ⟨hreply, hregistry⟩ := hlaw.enrolls n d s
  rw [Registry.enroll_eq hopen hnew] at hreply hregistry
  refine Work.finishes_ask ?_
  rw [hreply]
  refine Work.finishes_ask ⟨(hlaw.spares _ _ n id).trans hregistry, ?_⟩
  rw [hissued]
  rfl

/-- Identifiers are tracked that are not tracked yet, each with the next permit and its own delay. -/
theorem finishes_trackAll {n index : Nat} {ds : List Did}
    (hopen : (host.registry s n).isShut = false) (hissued : (host.registry s n).issued = index)
    (hnew : ∀ d ∈ ds, (host.registry s n).entered.get? d = none) (hnodup : ds.Nodup) :
    (Handle.trackAll ⟨n, plan.period⟩ plan.stagger index ds).Finishes host.answer s fun _ s' l =>
      (host.registry s' n).issued = index + ds.length ∧
        (∀ d, d ∈ (host.registry s' n).enrolled ↔ d ∈ (host.registry s n).enrolled ∨ d ∈ ds) ∧
        Work.timers l = ds.mapIdx (fun i => upkeepTimer plan n (index + i)) ∧
        Work.chores l = [] ∧ ∀ r ∈ l, ¬ r.Writes := by
  induction ds generalizing s index with
  | nil => exact ⟨hissued, fun d => by simp, rfl, rfl, fun _ hr => nomatch hr⟩
  | cons d ds ih =>
      obtain ⟨hd, hrest⟩ := List.nodup_cons.mp hnodup
      refine Program.Finishes.bind ((finishes_track hlaw plan hopen hissued
        (hnew d List.mem_cons_self)).mono fun _ s₁ l₁ ⟨hregistry, hl₁⟩ => ?_)
      have hnew' : ∀ d' ∈ ds, (host.registry s₁ n).entered.get? d' = none := fun d' hd' => by
        rw [hregistry]
        exact (Table.get?_insert_of_ne _ _ (ne_of_mem_of_not_mem hd' hd)).trans
          (hnew d' (List.mem_cons_of_mem d hd'))
      have hissued' : (host.registry s₁ n).issued = index + 1 := by
        rw [hregistry]
        exact congrArg (· + 1) hissued
      refine (ih (hregistry ▸ hopen) hissued' hnew' hrest).mono
        fun _ s' l ⟨hcount, hmem, htimers, hchores, hwrites⟩ => ?_
      subst hl₁
      refine ⟨?_, fun d' => ?_, ?_, hchores, ?_⟩
      · rw [hcount, List.length_cons, Nat.add_right_comm]
        rfl
      · have hentered : d' ∈ (host.registry s₁ n).enrolled ↔
            d' = d ∨ d' ∈ (host.registry s n).enrolled := by
          rw [hregistry]
          exact Table.mem_keys_insert
        rw [hmem, hentered, List.mem_cons, or_assoc, or_left_comm]
      · refine (congrArg (upkeepTimer plan n index d :: ·) htimers).trans ?_
        rw [List.mapIdx_cons]
        simp only [Nat.add_zero, Nat.add_right_comm, Nat.add_assoc]
      · exact List.forall_mem_cons.mpr ⟨id, List.forall_mem_cons.mpr ⟨id, hwrites⟩⟩

theorem finishes_sweepEvery (n : Nat) (interval : Duration) :
    (Handle.sweepEvery ⟨n, plan.period⟩ interval).Finishes host.answer s fun _ s' l =>
      (host.registry s' n).enrolled = (host.registry s n).enrolled ∧
        l = [.issue n, .every interval ⟨n, (host.registry s n).issued⟩ .sweep] := by
  obtain ⟨hpermit, hregistry⟩ := hlaw.issues n s
  refine Work.finishes_ask ?_
  rw [hpermit]
  have hevery := hlaw.spares (.every interval ⟨n, (host.registry s n).issued⟩ .sweep)
    (host.answer (.issue n) s).2 n id
  have henrolled := congrArg Registry.enrolled hregistry
  exact ⟨(congrArg Registry.enrolled hevery).trans henrolled, rfl⟩

def trackThese (h : Handle) (ds : List Did) : Errand Handle :=
  (h.trackAll plan.stagger 0 ds).bind fun _ =>
    match plan.sweepInterval with
    | none => Work.ok h
    | some interval => (h.sweepEvery interval).bind fun _ => Work.ok h

theorem finishes_trackThese {n : Nat} {ds : List Did} (hempty : host.registry s n = .empty)
    (hnodup : ds.Nodup) :
    (trackThese plan ⟨n, plan.period⟩ ds).Finishes host.answer s fun x s' l =>
      x = .ok ⟨n, plan.period⟩ ∧ (∀ d, d ∈ (host.registry s' n).enrolled ↔ d ∈ ds) ∧
        Work.timers l = ds.mapIdx (upkeepTimer plan n) ++
          plan.sweepInterval.toList.map (fun interval => .every interval ⟨n, ds.length⟩ .sweep) ∧
        Work.chores l = [] ∧ ∀ r ∈ l, ¬ r.Writes := by
  have hissued : (host.registry s n).issued = 0 := by
    rw [hempty]
    rfl
  refine Program.Finishes.bind ((finishes_trackAll hlaw plan (by rw [hempty]; rfl) hissued
    (fun _ _ => by rw [hempty]; rfl) hnodup).mono
      fun _ s₁ l₁ ⟨hcount, hmem, htimers, hchores, hwrites⟩ => ?_)
  have hmem' : ∀ d, d ∈ (host.registry s₁ n).enrolled ↔ d ∈ ds := fun d => by
    rw [hmem, hempty]
    exact or_iff_right List.not_mem_nil
  simp only [Nat.zero_add] at hcount htimers
  cases plan.sweepInterval with
  | none =>
      refine ⟨rfl, hmem', ?_, ?_, List.forall_mem_append.mpr ⟨hwrites, List.forall_mem_nil _⟩⟩
      · exact Work.timers_append htimers rfl
      · exact Work.chores_append hchores rfl
  | some interval =>
      refine Program.Finishes.bind ((finishes_sweepEvery hlaw plan n interval).mono
        fun _ s' l ⟨hsame, hl⟩ => ?_)
      subst hl
      rw [hcount]
      refine ⟨rfl, fun d => hsame ▸ hmem' d, ?_, ?_, List.forall_mem_append.mpr ⟨hwrites, ?_⟩⟩
      · exact Work.timers_append htimers rfl
      · exact Work.chores_append hchores rfl
      · exact List.forall_mem_cons.mpr ⟨id, List.forall_mem_cons.mpr ⟨id, List.forall_mem_nil _⟩⟩

end Caretaker

end Stages

/-! The parts of a start, put together. -/

namespace Caretaker

variable {ε σ : Type} {host : Host σ} {k : Caretaker ε} {plan : Plan} {s : σ}

structure Attended (k : Caretaker ε) (plan : Plan) (host : Host σ) (due ds : List Did) (s : σ)
    (x : Except Failure Handle) (s' : σ) (asked : List Work.Request) : Prop where
  chores : Work.chores asked = due.map .refresh
  writes : ∀ r ∈ asked, ¬ r.Writes
  failed : ∀ e, x = .error e → Work.timers asked = [] ∧ ∃ handle t t',
    (launchDue plan due).run host.answer s = (some handle, t) ∧
      k.marked.run host.answer t = (some (.error e), t')
  tracked : ∀ h, x = .ok h → (∀ d, d ∈ (host.registry s' h.registry).enrolled ↔ d ∈ ds) ∧
    Work.timers asked = ds.mapIdx (upkeepTimer plan h.registry) ++
      plan.sweepInterval.toList.map fun interval => .every interval ⟨h.registry, ds.length⟩ .sweep

/-- A start that ends before anything is launched. -/
theorem Outcome.of_fails {step : Step} {e : Failure} {s' : σ} {rest : List Work.Request}
    (h : k.Fails plan host s step e) (hsweep : ∀ r ∈ host.trace k.sweep s, ¬ r.SetsOut)
    (hrest : ∀ r ∈ rest, ¬ r.SetsOut ∧ ¬ r.Writes) :
    k.Outcome plan host s (.error e) s' (host.trace k.sweep s ++ rest) where
  order := ⟨rest, rfl, hsweep, fun r hr => (hrest r hr).2⟩
  failed e' he := by
    cases he
    have hquiet : ∀ r ∈ host.trace k.sweep s ++ rest, ¬ r.SetsOut :=
      List.forall_mem_append.mpr ⟨hsweep, fun r hr => (hrest r hr).1⟩
    exact ⟨Work.timers_eq_nil hquiet, step, h, fun hne => absurd (Work.chores_eq_nil hquiet) hne⟩
  refreshed := nofun
  tracked := nofun

/-- A start whose sweep and query succeed. -/
theorem Outcome.of_attended {report : Sweep.Report ε} {due : List Did} {x : Except Failure Handle}
    {s₁ s₂ s' : σ} {l l' : List Work.Request} (hasc : Table.Ascending (host.held s))
    (hsweep : k.sweep.run host.answer s = (some (.ok report), s₁))
    (hquery : (k.query plan).run host.answer s₁ = (some (.ok due), s₂))
    (hquiet : ∀ r ∈ host.trace k.sweep s, ¬ r.SetsOut) (hquiet' : ∀ r ∈ l, ¬ r.SetsOut ∧ ¬ r.Writes)
    (hnodup : due.Nodup)
    (hdue : ∀ d, d ∈ due ↔
      Rows.Due (host.held s₁) (host.answer .now s₁).1 plan.lookahead.seconds d)
    (h : k.Attended plan host due (k.markers.listed (host.held s)) s₂ x s' l') :
    k.Outcome plan host s x s' (host.trace k.sweep s ++ (l ++ l')) := by
  have hwrites : ∀ r ∈ l, ¬ r.Writes := fun r hr => (hquiet' r hr).2
  have hchores := Work.chores_append (Work.chores_eq_nil hquiet)
    (Work.chores_append (Work.chores_eq_nil fun r hr => (hquiet' r hr).1) h.chores)
  have htimers {ts : List Work.Request} (hts : Work.timers l' = ts) :=
    Work.timers_append (Work.timers_eq_nil hquiet)
      (Work.timers_append (Work.timers_eq_nil fun r hr => (hquiet' r hr).1) hts)
  refine ⟨⟨l ++ l', rfl, hquiet, List.forall_mem_append.mpr ⟨hwrites, h.writes⟩⟩, fun e he => ?_,
    fun handle hx => ⟨due, hchores, hnodup, fun d => ?_⟩, fun handle hx => ?_⟩
  · obtain ⟨hnone, handle, t, t', hlaunch, hlisting⟩ := h.failed e he
    exact ⟨htimers hnone, .listing, .listing hsweep hquery hlaunch hlisting, fun _ => rfl⟩
  · rw [hsweep]
    exact hdue d
  · obtain ⟨henrolled, htracked⟩ := h.tracked handle hx
    exact ⟨_, k.markers.listed_ascending hasc, fun d => k.markers.mem_listed, henrolled,
      htimers htracked⟩

section Start

variable (hlaw : host.Lawful k.markers.start) {found : List String}

include hlaw

/-- The listing comes to its end, and finds whoever is marked. -/
theorem finishes_marked (n : Nat) (h : Listable host k.markers.start found s)
    (hbudget : found.length < k.budget) :
    k.marked.Finishes host.answer s fun x s' l => host.registry s' n = host.registry s n ∧
      (∀ ds, x = .ok ds → ds = found.filterMap k.markers.did?) ∧
      ∀ r ∈ l, ¬ r.SetsOut ∧ ¬ r.Writes := by
  refine ((k.markers.list_completesOk hbudget).finishes (fun t =>
    Listable host k.markers.start found t ∧ host.registry t n = host.registry s n)
    (fun r t hr ⟨ht, hsame⟩ => ?_) ⟨h, rfl⟩).mono fun x s' l ⟨hx, hs', hl⟩ => ⟨hs'.2, hx, fun r hr =>
      ⟨(hl r hr).not_setsOut, (hl r hr).not_writes⟩⟩
  obtain ⟨ht', hfinds⟩ := ht.turn hlaw hr.not_writes
  have hspared : ¬ r.Registers := by
    cases r with
    | store => exact id
    | _ => exact hr.elim
  exact ⟨hfinds, ht', (hlaw.spares r t n hspared).trans hsame⟩

/-- The refreshes are launched, and whoever is found to be marked is tracked. -/
theorem finishes_attending (h : Listable host k.markers.start found s)
    (hbudget : found.length < k.budget) (hnodup : (found.filterMap k.markers.did?).Nodup) (due : List Did) :
    ((launchDue plan due).bind fun h => k.trackMarked plan h).Finishes host.answer s
      (k.Attended plan host due (found.filterMap k.markers.did?) s) := by
  refine Program.Finishes.bind (((finishes_launchDue hlaw plan h due).exact).mono
    fun ⟨n, period⟩ s₁ l₁ ⟨hstage, hrun₁, _⟩ => ?_)
  obtain ⟨⟨hlistable, hempty⟩, hperiod, hchores₁, htimers₁, hwrites₁⟩ := hstage
  obtain rfl : period = plan.period := hperiod
  refine Program.Finishes.onSuccess (((finishes_marked hlaw n hlistable hbudget).exact).mono
    fun x s₂ l₂ ⟨⟨hsame, hx, hquiet⟩, hrun₂, _⟩ => ?_)
  have hchores₂ := Work.chores_eq_nil fun r hr => (hquiet r hr).1
  have htimers₂ := Work.timers_eq_nil fun r hr => (hquiet r hr).1
  have hwrites₂ : ∀ r ∈ l₂, ¬ r.Writes := fun r hr => (hquiet r hr).2
  cases x with
  | error e =>
      refine ⟨?_, List.forall_mem_append.mpr ⟨hwrites₁, hwrites₂⟩, fun e' he => ?_, nofun⟩
      · exact (Work.chores_append hchores₁ hchores₂).trans (List.append_nil _)
      · cases he
        exact ⟨Work.timers_append htimers₁ htimers₂, _, s₁, s₂, hrun₁, hrun₂⟩
  | ok ds =>
      have hds := hx ds rfl
      subst hds
      refine (finishes_trackThese hlaw plan (hsame.trans hempty) hnodup).mono
        fun x s₃ l₃ ⟨hx', henrolled, htimers₃, hchores₃, hwrites₃⟩ => ?_
      subst hx'
      refine ⟨?_, ?_, nofun, fun h hh => ?_⟩
      · exact (Work.chores_append hchores₁ (Work.chores_append hchores₂ hchores₃)).trans
          (List.append_nil _)
      · exact List.forall_mem_append.mpr ⟨hwrites₁, List.forall_mem_append.mpr ⟨hwrites₂, hwrites₃⟩⟩
      · cases hh
        have htimers := Work.timers_append htimers₁ (Work.timers_append htimers₂ htimers₃)
        exact ⟨henrolled, htimers⟩

/-- A start comes to its end, whatever fails on the way. -/
theorem finishes_start (hidle : host.isBusy s = false) (hasc : Table.Ascending (host.held s))
    (hfiled : Rows.Filed (host.held s)) (hbudget : (host.held s).keys.length < k.budget) :
    (k.start plan).Finishes host.answer s (k.Outcome plan host s) := by
  rw [start_eq]
  refine Program.Finishes.onSuccess (((finishes_sweep hlaw k hidle hasc hbudget).exact).mono
    fun x s₁ l₁ ⟨⟨hidle₁, hrefreshes, hasks⟩, hrun₁, hl₁⟩ => ?_)
  subst hl₁
  have hsweep : ∀ r ∈ host.trace k.sweep s, ¬ r.SetsOut := fun r hr => (hasks r hr).not_setsOut
  have hasc₁ := hrefreshes.ascending hasc
  have hfiled₁ := hfiled.refreshes hasc hrefreshes
  cases x with
  | error e =>
      have hout : k.Outcome plan host s (.error e) s₁ (host.trace k.sweep s ++ []) :=
        .of_fails (.sweep hrun₁) hsweep (List.forall_mem_nil _)
      rwa [List.append_nil] at hout
  | ok report =>
      refine Program.Finishes.onSuccess (((finishes_query hlaw k plan hidle₁ hasc₁
        (hrefreshes.keys.symm ▸ hbudget)).exact).mono
          fun x s₂ l₂ ⟨⟨hheld₂, hdue, hquiet⟩, hrun₂, _⟩ => ?_)
      cases x with
      | error e => exact .of_fails (.query hrun₁ hrun₂) hsweep hquiet
      | ok due =>
          have hlistable : Listable host k.markers.start
              ((host.held s).keys.filter (startsWith k.markers.start)) s₂ := by
            refine ⟨hheld₂ ▸ hasc₁, ?_⟩
            rw [hheld₂, hrefreshes.keys]
          have hfew := Nat.lt_of_le_of_lt
            (List.length_filter_le (startsWith k.markers.start) (host.held s).keys) hbudget
          refine (finishes_attending hlaw hlistable hfew (k.markers.nodup_listed hasc) due).mono
            fun x s₃ l₃ h => ?_
          have hnodup := Rows.nodup_dueBy hasc₁ hfiled₁
            (saturatingAdd (host.answer .now s₁).1 plan.lookahead.seconds)
          refine .of_attended hasc hrun₁ hrun₂ hsweep hquiet (hdue due rfl ▸ hnodup) (fun d => ?_) h
          rw [hdue due rfl]
          exact Rows.mem_dueBy hasc₁ hfiled₁

/-- A start comes to its end, whatever the store holds and whichever of its calls fail. It fails just
when its sweep, its query or its listing does; and what it asks comes in order: the sweep with all its
writes, the refreshes of whoever is due, once each, and the timers of whoever is marked. -/
theorem start_sequence (hidle : host.isBusy s = false) (hasc : Table.Ascending (host.held s))
    (hfiled : Rows.Filed (host.held s)) (hbudget : (host.held s).keys.length < k.budget) :
    ∃ x s', (k.start plan).run host.answer s = (some x, s') ∧
      (∀ e, x = .error e ↔ ∃ step, k.Fails plan host s step e) ∧
      k.Outcome plan host s x s' (host.trace (k.start plan) s) := by
  have hfinishes : (k.start plan).Finishes host.answer s (k.Outcome plan host s) :=
    finishes_start hlaw hidle hasc hfiled hbudget
  obtain ⟨x, s', hrun, hout⟩ := Program.finishes_iff.mp hfinishes
  refine ⟨x, s', hrun, fun e => ⟨fun he => ?_, fun ⟨step, hfails⟩ => ?_⟩, hout⟩
  · obtain ⟨-, step, hfails, -⟩ := hout.failed e he
    exact ⟨step, hfails⟩
  · obtain ⟨t, hrun'⟩ := hfails.run
    rw [hrun] at hrun'
    exact Option.some.inj (Prod.ext_iff.mp hrun').1

end Start

end Caretaker

structure Ledger where
  rows : Memory
  registry : Nat → Registry
  opened : Nat
  isBusy : Bool

namespace Ledger

def answer (fails : Call → Bool) (now : UInt64) : Program.Answers work Ledger
  | .store c, s =>
    if fails c then (.error (.refused ""), s)
    else ((Memory.answer c s.rows).1, { s with rows := (Memory.answer c s.rows).2 })
  | .now, s => (now, s)
  | .launch _, s => ((), { s with isBusy := true })
  | .openRegistry, s =>
    (s.opened,
      { s with registry := Function.update s.registry s.opened .empty, opened := s.opened + 1 })
  | .issue n, s =>
    (⟨n, (s.registry n).issue.1⟩,
      { s with registry := Function.update s.registry n (s.registry n).issue.2 })
  | .enroll n d, s =>
    (((s.registry n).enroll d).1.map (Permit.mk n),
      { s with registry := Function.update s.registry n ((s.registry n).enroll d).2 })
  | .exchange _, s => (.unreachable, s)
  | .consult _, s => (.ok none, s)
  | .ring _, s => (false, s)
  | .strike .., s => (false, s)
  | .enrolled _, s => ([], s)
  | .attempt _, s | .sleep _, s | .after .., s | .every .., s | .shut _, s | .clear _, s => ((), s)

def host (fails : Call → Bool) (now : UInt64) : Host Ledger where
  answer := answer fails now
  held := rows
  isBusy := isBusy
  registry := registry

theorem lawful (fails : Call → Bool) (now : UInt64) (start : String) :
    (host fails now).Lawful start where
  turn r s hasc := by
    refine ⟨s.rows, hasc, rfl, fun _ => rfl, ?_⟩
    cases r with
    | store c =>
        simp only [host, answer]
        by_cases hfails : fails c = true
        · rw [if_pos hfails]
          exact .failed c s.rows _
        · rw [if_neg hfails]
          exact .answered c s.rows
    | _ => exact .elsewhere _ s.rows _ fun _ h => nomatch h
  idle r s hidle hr := by
    cases r with
    | store c =>
        simp only [host, answer]
        split <;> exact hidle
    | launch => exact absurd trivial hr
    | _ => exact hidle
  opens s := Function.update_self ..
  issues n s := ⟨rfl, Function.update_self ..⟩
  enrolls n d s := ⟨rfl, Function.update_self ..⟩
  spares r s n hr := by
    cases r with
    | store c =>
        simp only [host, answer]
        split <;> rfl
    | openRegistry | issue | enroll => exact absurd trivial hr
    | _ => rfl

end Ledger

/-- Every write is refused. Whoever is marked is tracked all the same; and refreshed is whoever is due
by what is in the rows, which is not the one whose expiry was not written. -/
theorem Caretaker.start_sequence_unwritten :
    let d : Did := ⟨"did:a:b", by decide⟩
    let due : Did := ⟨"did:a:c", by decide⟩
    let k : Caretaker Unit :=
      ⟨fun _ => Work.ok none, ⟨1, .ofSeconds 1⟩, fun _ => .ok 7, 1, ⟨"refresh", 1⟩, 4⟩
    let host := Ledger.host Call.writes 5
    let s : Ledger :=
      ⟨[("refresh:did:a:b", []), (Rows.key d, Record.encode ⟨d, ⟨""⟩, 1, 2, none⟩),
        (Rows.key due, Record.encode ⟨due, ⟨""⟩, 1, 2, some 7⟩)], fun _ => .empty, 0, false⟩
    host.Lawful k.markers.start ∧ host.isBusy s = false ∧ Table.Ascending (host.held s) ∧
      Rows.Filed (host.held s) ∧ (host.held s).keys.length < k.budget ∧
      ∃ s', (k.start .standard).run host.answer s = (some (.ok ⟨0, Plan.standard.period⟩), s') ∧
        (∀ d', d' ∈ (host.registry s' 0).enrolled ↔ d' = d) ∧
        Work.timers (host.trace (k.start .standard) s) = [Caretaker.upkeepTimer .standard 0 0 d] ∧
        Work.chores (host.trace (k.start .standard) s) = [.refresh due] := by
  intro d due k host s
  have hlaw : host.Lawful k.markers.start := Ledger.lawful ..
  have hasc : Table.Ascending (host.held s) := Table.ascending_iff_keys.mpr (by decide)
  have hfiled : Rows.Filed (host.held s) := by
    refine Rows.filed_of_encoded fun row hrow => ?_
    obtain ⟨hmem, hstart⟩ := List.mem_filter.mp hrow
    rcases List.mem_cons.mp hmem with rfl | hmem
    · exact absurd hstart (by decide)
    · rcases List.mem_cons.mp hmem with rfl | hmem
      · exact ⟨⟨d, ⟨""⟩, 1, 2, none⟩, rfl⟩
      · exact ⟨⟨due, ⟨""⟩, 1, 2, some 7⟩, List.mem_singleton.mp hmem⟩
  refine ⟨hlaw, rfl, hasc, hfiled, by decide, ?_⟩
  obtain ⟨x, s', hrun, -, hout⟩ :
      ∃ x s', (k.start .standard).run host.answer s = (some x, s') ∧
        (∀ e, x = .error e ↔ ∃ step, k.Fails .standard host s step e) ∧
        k.Outcome .standard host s x s' (host.trace (k.start .standard) s) :=
    start_sequence hlaw rfl hasc hfiled (by decide)
  have hx : x = .ok ⟨0, Plan.standard.period⟩ := by
    have hok : ((k.start .standard).run host.answer s).1.bind Except.toOption =
        some ⟨0, Plan.standard.period⟩ := by decide +kernel
    rw [hrun] at hok
    cases x with
    | error e => cases hok
    | ok h => exact congrArg Except.ok (Option.some.inj hok)
  obtain ⟨ds, hds, hmarked, henrolled, htimers⟩ := hout.tracked _ hx
  obtain ⟨chores, hchores, hnodup, hdue⟩ := hout.refreshed _ hx
  have hlisted : ds = [d] := by
    have hone : k.markers.listed (host.held s) = [d] := by decide +kernel
    exact (k.markers.eq_listed hasc hds hmarked).trans hone
  have hrefreshed : chores = [due] := by
    have hheld : host.held (k.sweep.run host.answer s).2 = host.held s := by decide +kernel
    have hone : Rows.dueBy (saturatingAdd 5 600) (Rows.ofStore (host.held s)) = [due] := by
      decide +kernel
    rw [hheld] at hdue
    exact List.perm_singleton.mp (hone ▸ Rows.perm_dueBy hasc hfiled hnodup hdue)
  subst hx hlisted hrefreshed
  exact ⟨s', hrun, fun d' => (henrolled d').trans List.mem_singleton, htimers, hchores⟩

end Upkeep
