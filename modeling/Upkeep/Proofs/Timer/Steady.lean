import Upkeep.Proofs.Timer.Alive
import Upkeep.Proofs.Timer.Obedience
import Upkeep.Proofs.Timer.Wakeful

/-!
The ticks of one timer. They keep time whatever becomes of them, and whatever else happens, as long
as the permit of the timer is good and each tick ends by the time when the next one is due.
-/

namespace Upkeep

def Chore.Avoids (p : Permit) : Chore → Prop
  | .recur _ q c => q ≠ p ∧ c.Avoids p
  | _ => True

/-- The conduct of all who do not hold a permit: they set up no ticker on it, as long as it is not
issued to them. What surrounds them may change in any way. -/
def Conduct.without {σ : Type} (p : Permit) : Conduct σ where
  rely
    | .issue _, (q : Permit) => q ≠ p
    | .enroll .., (q : Option Permit) => q ≠ some p
    | _, _ => True
  safe
    | .launch c | .after _ _ c => c.Avoids p
    | .every _ q c => q ≠ p ∧ c.Avoids p
    | _ => True
  drift _ _ := True

/-- What a caretaker does for a chore that sets up no ticker on a permit. -/
theorem Caretaker.obeys_without {σ ε : Type} {k : Caretaker ε} {p : Permit}
    (hprovider : ∀ d, Work.Obeys (Conduct.without p : Conduct σ) (k.provider d)) {chore : Chore}
    (hchore : chore.Avoids p) : Work.Obeys (Conduct.without p : Conduct σ) (k.perform chore) := by
  refine obeys_perform (fun _ => trivial) (fun _ => trivial) (fun _ => trivial) (fun r hr => ?_)
    hprovider fun period q chore' heq => ?_
  · cases r with
    | store => trivial
    | _ => exact hr.elim
  · subst heq
    exact hchore

/-- Whoever calls a handle sets up a ticker only on the permit that is issued for it. -/
theorem Handle.Call.obeys_without {σ : Type} (p : Permit) (h : Handle) (call : Handle.Call) :
    Work.Obeys (Conduct.without p : Conduct σ) (call.activity h) := by
  cases call with
  | track d delay =>
      have henroll : (Work.ask (.enroll h.registry d)).Keeps (Conduct.without p : Conduct σ).rely
          (Conduct.without p : Conduct σ).safe (· ≠ some p) := ⟨trivial, fun _ hx => hx⟩
      refine henroll.bind fun permit hpermit => ?_
      cases permit with
      | none => trivial
      | some q => exact ⟨⟨fun hq => hpermit (congrArg some hq), trivial⟩, fun _ _ => trivial⟩
  | cancel d => exact ⟨trivial, fun _ _ => trivial⟩
  | shutDown => exact ⟨trivial, fun _ _ => ⟨trivial, fun _ _ => trivial⟩⟩

def Ticker.Phase.isIdle : Ticker.Phase → Bool
  | .busy _ => false
  | _ => true

namespace Timeline

variable {σ : Type}

theorem map_permit_setRegistry (t : Timeline σ) (n : Nat) (r : Registry) :
    (t.setRegistry n r).tickers.map Ticker.permit = t.tickers.map Ticker.permit := by
  simp only [setRegistry, lapse, List.map_map]
  refine List.map_congr_left fun ticker _ => ?_
  dsimp only [Function.comp]
  split
  · exact ticker.permit_lapse _
  · rfl

structure Only (p : Permit) (own : Option Nat) (t : Timeline σ) : Prop where
  room : p.registry < t.registries.length
  issued : p.serial < (t.registry p.registry).issued
  only : ∀ (k : Nat) q, (t.tickers.map Ticker.permit)[k]? = some q → q = p → own = some k

namespace Only

variable {p : Permit} {own : Option Nat} {t t' : Timeline σ}

theorem of_ticker (h : Only p own t) {k : Nat} {r : Ticker} (hr : t.tickers[k]? = some r)
    (hpermit : r.permit = p) : own = some k :=
  h.only k r.permit (by rw [List.getElem?_map, hr]; rfl) hpermit

theorem congr (h : Only p own t) (hregistries : t'.registries = t.registries)
    (htickers : t'.tickers.map Ticker.permit = t.tickers.map Ticker.permit) : Only p own t' where
  room := hregistries ▸ h.room
  issued := by
    rw [registry, hregistries]
    exact h.issued
  only := htickers ▸ h.only

theorem setRegistry (h : Only p own t) {n : Nat} {r : Registry}
    (hissued : (t.registry n).issued ≤ r.issued) : Only p own (t.setRegistry n r) where
  room := by
    rw [length_setRegistry]
    exact h.room
  issued := by
    by_cases hn : n = p.registry
    · subst hn
      rw [registry_setRegistry h.room]
      exact Nat.lt_of_lt_of_le h.issued hissued
    · rw [registry_setRegistry_of_ne t hn]
      exact h.issued
  only := map_permit_setRegistry t n r ▸ h.only

theorem addTicker (h : Only p own t) (period : Duration) {q : Permit} (chore : Chore)
    (hq : q = p → own = some t.tickers.length) : Only p own (t.addTicker period q chore) := by
  have hadded : Only p own { t with tickers := t.tickers ++ [.at t.instant period q chore] } := by
    refine ⟨h.room, h.issued, fun k q' hq' heq => ?_⟩
    rw [List.map_append, List.map_singleton] at hq'
    rcases getElem?_push_cases hq' with hold | ⟨rfl, rfl⟩
    · exact h.only k q' hold heq
    · rw [List.length_map]
      exact hq heq
  rw [Timeline.addTicker]
  split
  · exact hadded
  · exact hadded.congr rfl rfl

theorem perform (h : Only p own t) (o : Outside σ) {r : Work.Request}
    (hr : (Conduct.without p : Conduct σ).safe r) : Only p own (t.perform o r).timeline := by
  cases r with
  | after => exact h.congr (registries_addShot ..) (congrArg _ (tickers_addShot ..))
  | every period q chore => exact h.addTicker period chore fun hq => absurd hq hr.1
  | openRegistry =>
      refine ⟨?_, ?_, h.only⟩
      · exact lt_length_openRegistry h.room
      · exact (registry_openRegistry h.room).symm ▸ h.issued
  | issue n => exact h.setRegistry (Nat.le_succ _)
  | enroll n d => exact h.setRegistry (Registry.issued_enroll ..)
  | strike n d => exact h.setRegistry (Nat.le_of_eq (Registry.issued_strike ..).symm)
  | shut n | clear n => exact h.setRegistry (Nat.le_refl _)
  | _ => exact h.congr rfl rfl

/-- Nobody is issued a permit that was issued before. -/
theorem rely (h : Only p own t) (o : Outside σ) (r : Work.Request) (x : r.Reply)
    (hx : (t.perform o r).reply = some x) : (Conduct.without p : Conduct σ).rely r x := by
  have hnew (n : Nat) : (⟨n, (t.registry n).issued⟩ : Permit) ≠ p := by
    rintro rfl
    exact absurd h.issued (Nat.lt_irrefl _)
  cases r with
  | issue n =>
      cases hx
      exact hnew n
  | enroll n d =>
      cases hx
      intro hsome
      obtain ⟨serial, hserial, heq⟩ := Option.map_eq_some_iff.mp hsome
      rw [Registry.eq_issued_of_enroll hserial] at heq
      exact hnew n heq
  | _ => trivial

theorem upholds {o : Outside σ}
    (hperform : ∀ chore, chore.Avoids p → Work.Obeys (Conduct.without p : Conduct σ) (o.perform chore))
    (own : Option Nat) : Upholds o (Conduct.without p) (Only p own) where
  congr h _ hregistries htickers := h.congr hregistries htickers
  perform _ _ h hr := h.perform o hr
  rely r _ h _ x hx := h.rely o r x hx
  drift _ _ _ h _ := h.congr rfl rfl
  launch chore hchore := hperform chore hchore
  after _ _ chore hchore := hperform chore hchore
  every _ _ chore hchore := hperform chore hchore.2

end Only

def BeginsFor (p : Permit) (t t' : Timeline σ) : Prop :=
  ∃ (k : Nat) (r : Ticker), t'.tickers[k]? = some r ∧ r.permit = p ∧ Begins k t t'

def RunsFor (p : Permit) (t : Timeline σ) : Prop :=
  ∃ (k : Nat) (r : Ticker) (next : Nat), t.tickers[k]? = some r ∧ r.permit = p ∧
    r.phase = .busy next

theorem runsFor_iff {p : Permit} {t : Timeline σ} : t.RunsFor p ↔
    (t.tickers.any fun r => r.permit = p && !r.phase.isIdle) = true := by
  simp only [RunsFor, List.any_eq_true, Bool.and_eq_true, decide_eq_true_eq, Bool.not_eq_true']
  constructor
  · rintro ⟨k, r, next, hr, hpermit, hphase⟩
    exact ⟨r, List.mem_of_getElem? hr, hpermit, by rw [hphase, Ticker.Phase.isIdle]⟩
  · rintro ⟨r, hr, hpermit, hbusy⟩
    obtain ⟨k, hk⟩ := List.getElem?_of_mem hr
    cases hphase : r.phase with
    | busy next => exact ⟨k, r, next, hk, hpermit, hphase⟩
    | waiting | ended => cases hphase ▸ hbusy

instance (p : Permit) (t : Timeline σ) : Decidable (t.RunsFor p) := decidable_of_iff' _ runsFor_iff

/-- How a timeline goes on, and when ticks that need a permit begin on it. None of them lasts longer
than a span. -/
inductive Ticked (o : Outside σ) (c : Conduct σ) (p : Permit) (span : Nat) (t : Timeline σ) :
    List Nat → Timeline σ → Prop
  | refl : Ticked o c p span t [] t
  | step {begun : List Nat} {t' t'' : Timeline σ} (h : Ticked o c p span t begun t')
      (hstep : t'.Goes o c t'') (hno : ¬ t'.BeginsFor p t'')
      (hlasts : t''.RunsFor p → ∀ b ∈ begun.getLast?, t''.instant ≤ b + span) :
      Ticked o c p span t begun t''
  | tick {begun : List Nat} {t' t'' : Timeline σ} (h : Ticked o c p span t begun t')
      (hstep : t'.Goes o c t'') (hbegins : t'.BeginsFor p t'') :
      Ticked o c p span t (begun ++ [t''.instant]) t''

section Begins

variable {p : Permit} {own : Option Nat} {k : Nat} {r : Ticker} {t t' : Timeline σ}

theorem Begins.waiting (h : Begins k t t') (hr : t.tickers[k]? = some r) :
    ∃ deadline, r.phase = .waiting deadline := by
  obtain ⟨r₀, deadline, -, -, hr₀, hphase, -⟩ := h
  cases Option.some.inj (hr.symm.trans hr₀)
  exact ⟨deadline, hphase⟩

theorem Begins.busy (h : Begins k t t') (hr : t'.tickers[k]? = some r) :
    ∃ next, r.phase = .busy next := by
  obtain ⟨-, -, r', next, -, -, hr', hphase⟩ := h
  cases Option.some.inj (hr.symm.trans hr')
  exact ⟨next, hphase⟩

theorem Only.not_beginsFor (h : Only p own t') (hno : ∀ k, own = some k → ¬ Begins k t t') :
    ¬ t.BeginsFor p t' :=
  fun ⟨_, _, hr, hpermit, hbegins⟩ => hno _ (h.of_ticker hr hpermit) hbegins

theorem Only.not_runsFor (h : Only p own t)
    (hno : ∀ k (r : Ticker) next, own = some k → t.tickers[k]? = some r → r.phase ≠ .busy next) :
    ¬ t.RunsFor p :=
  fun ⟨_, _, _, hr, hpermit, hphase⟩ => hno _ _ _ (h.of_ticker hr hpermit) hr hphase

theorem Only.idle (h : Only p none t) : ¬ t.RunsFor p :=
  h.not_runsFor nofun

theorem Only.not_runsFor_of_waiting {deadline : Nat} (h : Only p (some k) t)
    (hr : t.tickers[k]? = some r) (hphase : r.phase = .waiting deadline) : ¬ t.RunsFor p :=
  h.not_runsFor fun k' r' next hk hr' hbusy => by
    cases Option.some.inj hk
    cases Option.some.inj (hr.symm.trans hr')
    cases hphase.symm.trans hbusy

end Begins

theorem BeginsFor.runsFor {p : Permit} {t t' : Timeline σ} (h : t.BeginsFor p t') : t'.RunsFor p := by
  obtain ⟨k, r, hr, hpermit, hbegins⟩ := h
  obtain ⟨next, hphase⟩ := hbegins.busy hr
  exact ⟨k, r, next, hr, hpermit, hphase⟩

theorem beginsFor_of_phases {p : Permit} {k : Nat} (deadline next : Nat) {t t' : Timeline σ}
    (h : t.tickers[k]?.map Ticker.phase = some (.waiting deadline))
    (h' : t'.tickers[k]?.map (fun r => (r.permit, r.phase)) = some (p, .busy next)) :
    t.BeginsFor p t' := by
  obtain ⟨r, hr, heq⟩ := Option.map_eq_some_iff.mp h'
  obtain ⟨hpermit, hphase⟩ := Prod.mk.inj heq
  exact ⟨k, r, hr, hpermit, begins_of_phases deadline next h (by rw [hr, Option.map_some, hphase])⟩

/-- A step after which no tick runs that needs the permit. -/
theorem Ticked.idle {o : Outside σ} {c : Conduct σ} {p : Permit} {span : Nat} {t t' t'' : Timeline σ}
    {begun : List Nat} (h : Ticked o c p span t begun t') (hstep : t'.Goes o c t'')
    (hidle : ¬ t''.RunsFor p) : Ticked o c p span t begun t'' :=
  .step h hstep (fun hbegins => hidle hbegins.runsFor) fun hruns => absurd hruns hidle

theorem Ticked.life {o : Outside σ} {c : Conduct σ} {p : Permit} {span : Nat} {t t' : Timeline σ}
    {begun : List Nat} (h : Ticked o c p span t begun t') :
    Relation.ReflTransGen (Goes o c) t t' := by
  induction h with
  | refl => exact .refl
  | step _ hstep _ _ ih => exact ih.tail hstep
  | tick _ hstep _ ih => exact ih.tail hstep

end Timeline

open Timeline

/-- A timer that is to tick once in every period from an instant on. -/
structure Rhythm where
  permit : Permit
  start : Nat
  period : Duration

namespace Rhythm

variable {σ : Type} (m : Rhythm)

def due (n : Nat) : Nat := m.start + n * m.period.toNanos

theorem due_succ (n : Nat) : m.due (n + 1) = m.due n + m.period.toNanos := by
  rw [due, due, Nat.succ_mul, Nat.add_assoc]

theorem due_mono {n n' : Nat} (h : n ≤ n') : m.due n ≤ m.due n' :=
  Nat.add_le_add_left (Nat.mul_le_mul_right _ h) _

/-- Where the timer stands after a number of ticks: its start is still to come, it waits for a tick,
or a tick runs. -/
inductive Stage (t : Timeline σ) : Nat → Option Nat → Option Nat → Prop
  | pending {i : Nat} {s : OneShot} {c : Chore} (hs : t.shots[i]? = some s)
      (hfresh : s.isOver = false) (hpermit : s.permit = m.permit) (hdue : s.due = m.start)
      (hchore : s.chore = .recur m.period m.permit c) (hc : c.Avoids m.permit)
      (hin : t.instant ≤ m.start) : Stage t 0 (some i) none
  | waiting {n k : Nat} {r : Ticker} (hr : t.tickers[k]? = some r) (hpermit : r.permit = m.permit)
      (hperiod : r.period = m.period) (hphase : r.phase = .waiting (m.due (n + 1)))
      (hin : t.instant ≤ m.due (n + 1)) : Stage t n none (some k)
  | busy {n k : Nat} {r : Ticker} (hr : t.tickers[k]? = some r) (hpermit : r.permit = m.permit)
      (hperiod : r.period = m.period) (hphase : r.phase = .busy (m.due (n + 2))) :
      Stage t (n + 1) none (some k)

/-- Surroundings whose chores set up no ticker on the permit unless they say so. -/
structure IsLeft (o : Outside σ) : Prop where
  obeys : ∀ chore, chore.Avoids m.permit →
    Work.Obeys (Conduct.without m.permit : Conduct σ) (o.perform chore)
  recur : ∀ period p chore, o.perform (.recur period p chore) = Work.ask (.every period p chore)
  pos : 0 < m.period.toNanos

def Stands (o : Outside σ) (count : Nat) (t : Timeline σ) : Prop :=
  ∃ but own, m.Stage t count but own ∧ Minds o (.without m.permit) but t ∧ Only m.permit own t

structure Beats (o : Outside σ) (count : Nat) (t : Timeline σ) : Prop where
  stands : m.Stands o count t
  lasts : t.RunsFor m.permit → t.instant ≤ m.due (count + 1)

variable {m} {o : Outside σ} {count : Nat} {t t' : Timeline σ}

/-- A tick that runs has been counted. -/
theorem Stands.pos_of_runsFor (h : m.Stands o count t) (hruns : t.RunsFor m.permit) : 0 < count := by
  obtain ⟨but, own, hstage, -, honly⟩ := h
  cases hstage with
  | pending => exact absurd hruns honly.idle
  | waiting hr _ _ hphase => exact absurd hruns (honly.not_runsFor_of_waiting hr hphase)
  | busy => exact Nat.succ_pos _

theorem Beats.instant_le (h : m.Beats o count t) : t.instant ≤ m.due (count + 1) := by
  obtain ⟨but, own, hstage, -, -⟩ := h.stands
  cases hstage with
  | pending _ _ _ _ _ _ hin => exact Nat.le_trans hin (Nat.le_add_right ..)
  | waiting _ _ _ _ hin => exact hin
  | busy hr hpermit _ hphase => exact h.lasts ⟨_, _, _, hr, hpermit, hphase⟩

section Step

variable (hleft : m.IsLeft o) (hw : Wakeful none t)

include hleft

/-- The start has come, and the ticker waits; or it has not come yet. -/
theorem stands_lookAtShot (hgood : t.permits m.permit = true) {i : Nat} {s : OneShot} {c : Chore}
    (hs : t.shots[i]? = some s) (hfresh : s.isOver = false) (hpermit : s.permit = m.permit)
    (hdue : s.due = m.start) (hchore : s.chore = .recur m.period m.permit c)
    (hc : c.Avoids m.permit) (hin : t.instant ≤ m.start)
    (hminds : Minds o (.without m.permit) (some i) t) (honly : Only m.permit none t) :
    m.Stands o 0 (t.lookAtShot o i) ∧ ¬ (t.lookAtShot o i).RunsFor m.permit := by
  by_cases hready : s.due ≤ t.instant
  · have hinstant : t.instant = m.start := Nat.le_antisymm hin (hdue ▸ hready)
    have hperform : o.perform s.chore = Work.ask (.every m.period m.permit c) := by
      rw [hchore, hleft.recur]
    rw [lookAtShot_due o hs hready hfresh (hpermit ▸ hgood) hperform]
    have hr : ((t.setShot i s.stop).addTicker m.period m.permit c).tickers[t.tickers.length]? =
        some (.at t.instant m.period m.permit c) := by
      rw [tickers_addTicker]
      exact List.getElem?_concat_length ..
    have hphase : (Ticker.at t.instant m.period m.permit c).phase = .waiting (m.due (0 + 1)) := by
      rw [Ticker.phase_at hleft.pos, hinstant, due, Nat.zero_add, Nat.one_mul]
    have honly' : Only m.permit (some t.tickers.length)
        ((t.setShot i s.stop).addTicker m.period m.permit c) :=
      Only.addTicker (t := t.setShot i s.stop)
        ⟨honly.room, honly.issued, fun k q hq heq => by cases honly.only k q hq heq⟩ m.period c
        fun _ => rfl
    have hminds' : Minds o (.without m.permit) none
        ((t.setShot i s.stop).addTicker m.period m.permit c) :=
      (hminds.setShot rfl fun _ heq hne => absurd (Option.some.inj heq).symm hne).addTicker _ _
        (hleft.obeys c hc)
    refine ⟨⟨none, _, .waiting hr rfl rfl hphase ?_, hminds', honly'⟩,
      honly'.not_runsFor_of_waiting hr hphase⟩
    rw [instant_addTicker]
    exact Nat.le_trans hin (Nat.le_add_right ..)
  · have hlook : t.lookAtShot o i = t.wakeAt s.due (.shot i) := by
      rw [lookAtShot, hs]
      dsimp only
      rw [heeds_of_permits o _ (hpermit ▸ hgood)]
      simp [hfresh, hready]
    rw [hlook]
    have honly' : Only m.permit none (t.wakeAt s.due (.shot i)) := honly.congr rfl rfl
    exact ⟨⟨some i, none, .pending hs hfresh hpermit hdue hchore hc hin, hminds.wakeAt_shot ..,
      honly'⟩, honly'.idle⟩

variable (hstep : t.Goes o (.without m.permit) t') (hgood : t'.permits m.permit = true)

include hw hstep hgood

/-- As long as its start is still to come no tick of the timer begins. -/
theorem goes_pending {i : Nat} {s : OneShot} {c : Chore} (hs : t.shots[i]? = some s)
    (hfresh : s.isOver = false) (hpermit : s.permit = m.permit) (hdue : s.due = m.start)
    (hchore : s.chore = .recur m.period m.permit c) (hc : c.Avoids m.permit) (hin : t.instant ≤ m.start)
    (hminds : Minds o (.without m.permit) (some i) t) (honly : Only m.permit none t) :
    m.Stands o 0 t' ∧ ¬ t.BeginsFor m.permit t' := by
  have hgood₀ : t.permits m.permit = true := hstep.permits hw.isManual hgood
  -- its turn to be looked at
  have hlook {n : Nat} {es : List Event} (hevents : t.events = ⟨n, .shot i⟩ :: es)
      (heq : t' = lookAtShot o { t with events := es } i) :
      m.Stands o 0 t' ∧ ¬ t.BeginsFor m.permit t' := by
    subst heq
    have hpopped : Minds o (.without m.permit) (some i) { t with events := es } :=
      hminds.mono (fun e he => hevents ▸ List.mem_cons_of_mem _ he) rfl rfl
    obtain ⟨hstands, hruns⟩ := stands_lookAtShot (t := { t with events := es }) hleft hgood₀ hs
      hfresh hpermit hdue hchore hc hin hpopped (honly.congr rfl rfl)
    exact ⟨hstands, fun hbegins => hruns hbegins.runsFor⟩
  rcases hminds.goes (Only.upholds hleft.obeys _) honly hstep with
    ⟨hminds', honly'⟩ | ⟨i', n, es, hi, hevents, heq⟩
  · rcases hstep.shot hw.isManual hs with hs' | hlost | ⟨n, es, hevents, heq⟩
    · refine ⟨⟨some i, none, .pending hs' hfresh hpermit hdue hchore hc ?_, hminds', honly'⟩,
        fun hbegins => honly'.idle hbegins.runsFor⟩
      rcases hstep.fares hw.isManual with hfares | ⟨n, _, rfl, -, hmissed⟩
      · exact hfares.instant ▸ hin
      · obtain ⟨n', hn', hintime⟩ := hw.awaits_all (.shot i) s hs hfresh
        have hle : n' ≤ m.start := hintime.elim (Nat.le_trans · hin) fun hor => hdue ▸ hor.1
        exact Nat.le_trans (hmissed _ hn') hle
    · exact absurd (hlost.symm.trans (hpermit ▸ hgood)) Bool.false_ne_true
    · exact hlook hevents heq
  · cases Option.some.inj hi
    exact hlook hevents heq

section Ticking

variable {k : Nat} {r : Ticker} (hr : t.tickers[k]? = some r) (hpermit : r.permit = m.permit)
  (hperiod : r.period = m.period) (hminds : Minds o (.without m.permit) none t)
  (honly : Only m.permit (some k) t)

include hr hpermit hperiod hminds honly

/-- A timer that waits for a tick goes on waiting, or the tick begins when it is due. -/
theorem goes_waiting (hphase : r.phase = .waiting (m.due (count + 1)))
    (hin : t.instant ≤ m.due (count + 1)) :
    m.Stands o count t' ∧ ¬ t.BeginsFor m.permit t' ∨
      m.Stands o (count + 1) t' ∧ t.BeginsFor m.permit t' ∧ t'.instant = m.due (count + 1) := by
  obtain ⟨hminds', honly'⟩ := hminds.goes_whole (Only.upholds hleft.obeys _) honly hstep
  have hidle {r' : Ticker} {deadline : Nat} (hr' : t'.tickers[k]? = some r')
      (hphase' : r'.phase = .waiting deadline) : ¬ t.BeginsFor m.permit t' :=
    fun hbegins => honly'.not_runsFor_of_waiting hr' hphase' hbegins.runsFor
  rcases hstep.fares hw.isManual with hfares | ⟨n, _, rfl, -, hmissed⟩
  · obtain ⟨r', hr', hfate⟩ := hfares.tickers k r hr
    have hpermit' : r'.permit = m.permit := hfate.permit_eq.trans hpermit
    have hperiod' : r'.period = m.period := hfate.period_eq.trans hperiod
    cases hfate with
    | same =>
        exact .inl ⟨⟨none, _, .waiting hr' hpermit hperiod hphase (hfares.instant ▸ hin), hminds',
          honly'⟩, hidle hr' hphase⟩
    | stopped hlost => exact absurd (hlost.symm.trans (hpermit ▸ hgood)) Bool.false_ne_true
    | finished hbusy => cases hphase.symm.trans hbusy
    | begun hphase' hready =>
        cases hphase.symm.trans hphase'
        have hinstant : t'.instant = m.due (count + 1) :=
          Nat.le_antisymm (hfares.instant ▸ hin) hready
        have hbusy : (r.begin t'.instant).phase = .busy (m.due (count + 2)) := by
          rw [r.begin_eq hphase, hinstant, hperiod, nextDeadline, if_pos (Nat.le_add_right ..),
            due_succ m (count + 1)]
        exact .inr ⟨⟨none, _, .busy hr' hpermit' hperiod' hbusy, hminds', honly'⟩,
          ⟨k, _, hr', hpermit', _, _, _, _, hr, hphase, hr', hbusy⟩, hinstant⟩
  · refine .inl ⟨⟨none, _, .waiting hr hpermit hperiod hphase ?_, hminds', honly'⟩, hidle hr hphase⟩
    obtain ⟨n', hn', hintime⟩ := hw.awaits_all (.look k) r _ hr hphase
    exact Nat.le_trans (hmissed _ hn') (hintime.elim (Nat.le_trans · hin) And.left)

/-- While a tick runs no other begins. -/
theorem goes_busy (hphase : r.phase = .busy (m.due (count + 2))) (hin : t.instant ≤ m.due (count + 2)) :
    m.Stands o (count + 1) t' ∧ ¬ t.BeginsFor m.permit t' := by
  obtain ⟨hminds', honly'⟩ := hminds.goes_whole (Only.upholds hleft.obeys _) honly hstep
  have hbusy : ¬ t.BeginsFor m.permit t' := honly'.not_beginsFor fun k' hk hbegins => by
    cases Option.some.inj hk
    obtain ⟨deadline, hwaiting⟩ := hbegins.waiting hr
    cases hphase.symm.trans hwaiting
  refine ⟨?_, hbusy⟩
  rcases hstep.fares hw.isManual with hfares | ⟨n, _, rfl, -, -⟩
  · obtain ⟨r', hr', hfate⟩ := hfares.tickers k r hr
    have hpermit' : r'.permit = m.permit := hfate.permit_eq.trans hpermit
    have hperiod' : r'.period = m.period := hfate.period_eq.trans hperiod
    cases hfate with
    | same => exact ⟨none, _, .busy hr' hpermit hperiod hphase, hminds', honly'⟩
    | stopped hlost => exact absurd (hlost.symm.trans (hpermit ▸ hgood)) Bool.false_ne_true
    | begun hwaiting => cases hphase.symm.trans hwaiting
    | finished hphase' =>
        have hwaiting : r.finish.phase = .waiting (m.due (count + 1 + 1)) := by
          rw [r.finish_eq hphase]
        exact ⟨none, _, .waiting hr' hpermit' hperiod' hwaiting (hfares.instant ▸ hin), hminds',
          honly'⟩
  · exact ⟨none, _, .busy hr hpermit hperiod hphase, hminds', honly'⟩

end Ticking

/-- Whatever happens next, the timer keeps time: no tick of it begins, or the next one when it is due. -/
theorem Beats.goes (h : m.Beats o count t) :
    m.Stands o count t' ∧ ¬ t.BeginsFor m.permit t' ∨
      m.Stands o (count + 1) t' ∧ t.BeginsFor m.permit t' ∧ t'.instant = m.due (count + 1) := by
  obtain ⟨but, own, hstage, hminds, honly⟩ := h.stands
  cases hstage with
  | pending hs hfresh hpermit hdue hchore hc hin =>
      exact .inl (goes_pending hleft hw hstep hgood hs hfresh hpermit hdue hchore hc hin hminds honly)
  | waiting hr hpermit hperiod hphase hin =>
      exact goes_waiting hleft hw hstep hgood hr hpermit hperiod hminds honly hphase hin
  | busy hr hpermit hperiod hphase =>
      exact .inl (goes_busy hleft hw hstep hgood hr hpermit hperiod hminds honly hphase h.instant_le)

end Step

/-- However long it goes on, the timer keeps time as long as its permit is good. -/
theorem Beats.ticked (hleft : m.IsLeft o) (h : m.Beats o 0 t) (hw : Wakeful none t)
    {begun : List Nat} (hlife : Ticked o (.without m.permit) m.permit m.period.toNanos t begun t')
    (hgood : t'.permits m.permit = true) :
    m.Beats o begun.length t' ∧ ∀ (n : Nat) b, begun[n]? = some b → b = m.due (n + 1) := by
  induction hlife with
  | refl => exact ⟨h, fun _ _ hb => nomatch hb⟩
  | @step begun u u' hu hstep hno hlasts ih =>
      have hwu := hw.life hu.life
      obtain ⟨hbeats, htimes⟩ := ih (hstep.permits hwu.isManual hgood)
      obtain ⟨hstands, -⟩ := (hbeats.goes hleft hwu hstep hgood).resolve_right fun hor => hno hor.2.1
      refine ⟨⟨hstands, fun hruns => ?_⟩, htimes⟩
      have hlt : begun.length - 1 < begun.length := Nat.sub_lt (hstands.pos_of_runsFor hruns) Nat.one_pos
      have hlast := List.getLast?_eq_getElem? (l := begun)
      have hb := htimes _ _ (List.getElem?_eq_getElem hlt)
      have hle := hlasts hruns begun[begun.length - 1] (by rw [hlast, List.getElem?_eq_getElem hlt]; rfl)
      rw [hb, Nat.sub_add_cancel (hstands.pos_of_runsFor hruns)] at hle
      rwa [due_succ]
  | @tick begun u u' hu hstep hbegins ih =>
      have hwu := hw.life hu.life
      obtain ⟨hbeats, htimes⟩ := ih (hstep.permits hwu.isManual hgood)
      obtain ⟨hstands, -, hinstant⟩ :=
        (hbeats.goes hleft hwu hstep hgood).resolve_left fun hor => hor.2 hbegins
      have hlength : (begun ++ [u'.instant]).length = begun.length + 1 := by simp
      refine ⟨⟨hlength ▸ hstands, fun _ => ?_⟩, fun n b hb => ?_⟩
      · rw [hlength, hinstant]
        exact m.due_mono (Nat.le_succ _)
      · rcases getElem?_push_cases hb with hb | ⟨rfl, rfl⟩
        · exact htimes n b hb
        · exact hinstant

end Rhythm

end Upkeep
