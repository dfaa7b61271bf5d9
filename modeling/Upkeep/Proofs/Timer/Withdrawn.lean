import Upkeep.Proofs.Timer.Alive
import Upkeep.Proofs.Timer.Wakeful

/-!
What is left of a timer once its permit is withdrawn. A tick that runs is left to finish. Another one
begins later only if that took so long that the next was due by its end, as the ticker is then woken
both by the withdrawal and by its deadline, and only if it attends to the latter; and so on for each
further tick.
-/

namespace Upkeep

namespace Timeline

variable {σ : Type}

/-- A tick of a ticker ends between two timelines, and the next one is due by then. -/
def Overruns (k : Nat) (t t' : Timeline σ) : Prop :=
  ∃ r r' next, t.tickers[k]? = some r ∧ r.phase = .busy next ∧
    t'.tickers[k]? = some r' ∧ r'.phase = .waiting next ∧ next ≤ t'.instant

/-- A tick of a ticker has overrun at the instant of the second of two timelines, on the way there
from the first. -/
def HasOverrun (o : Outside σ) (c : Conduct σ) (k : Nat) (t t' : Timeline σ) : Prop :=
  ∃ u u', Relation.ReflTransGen (Goes o c) t u ∧ u.Goes o c u' ∧
    Relation.ReflTransGen (Goes o c) u' t' ∧ Overruns k u u' ∧ u'.instant = t'.instant

variable {o : Outside σ} {c : Conduct σ} {t t' t'' : Timeline σ}

/-- A permit that is withdrawn stays withdrawn. -/
theorem lost_of_life (hw : Wakeful none t) (hlife : Relation.ReflTransGen (Goes o c) t t')
    {p : Permit} (hlost : t.permits p = false) : Wakeful none t' ∧ t'.permits p = false := by
  induction hlife with
  | refl => exact ⟨hw, hlost⟩
  | tail _ hstep ih =>
      refine ⟨ih.1.goes hstep, Bool.eq_false_iff.mpr fun hp => ?_⟩
      exact Bool.false_ne_true (ih.2.symm.trans (hstep.permits ih.1.isManual hp))

theorem HasOverrun.tail {k : Nat} (h : HasOverrun o c k t t') (hstep : t'.Goes o c t'')
    (hinstant : t''.instant = t'.instant) : HasOverrun o c k t t'' := by
  obtain ⟨u, u', hlife, hover, hrest, hk, hnow⟩ := h
  exact ⟨u, u', hlife, hover, hrest.tail hstep, hk, hnow.trans hinstant.symm⟩

/-- A ticker without a permit that waits at a later instant, and is due, waits since its tick ended
at that instant. -/
theorem hasOverrun_of_waiting (hw : Wakeful none t)
    (hlife : Relation.ReflTransGen (Goes o c) t t') {k deadline : Nat} {r : Ticker}
    (hlost : t.permits r.permit = false) (hr : t'.tickers[k]? = some r)
    (hphase : r.phase = .waiting deadline) (hdue : deadline ≤ t'.instant)
    (hlater : t.instant < t'.instant) : HasOverrun o c k t t' := by
  induction hlife generalizing r deadline with
  | refl => exact absurd hlater (Nat.lt_irrefl _)
  | @tail u u' hlife hstep ih =>
      obtain ⟨hwu, hlostu⟩ := lost_of_life hw hlife hlost
      rcases hstep.fares hwu.isManual with hfares | ⟨n, s, rfl, hle, hmissed⟩
      · rw [hfares.instant] at hdue hlater
        by_cases hlt : k < u.tickers.length
        · have hru : u.tickers[k]? = some u.tickers[k] := List.getElem?_eq_getElem hlt
          obtain ⟨r', hr', hfate⟩ := hfares.tickers k _ hru
          cases Option.some.inj (hr'.symm.trans hr)
          generalize u.tickers[k] = r₀ at hru hfate
          cases hfate with
          | same => exact (ih hlost hru hphase hdue hlater).tail hstep hfares.instant
          | stopped => cases hphase
          | begun hwaiting =>
              rw [r₀.begin_eq hwaiting] at hphase
              cases hphase
          | finished hbusy =>
              have hfinish := r₀.finish_eq hbusy
              refine ⟨u, u', hlife, hstep, .refl, ⟨r₀, _, _, hru, hbusy, hr', ?_, ?_⟩, rfl⟩
              · rw [hfinish]
              · rw [hfinish] at hphase
                cases hphase
                exact hfares.instant ▸ hdue
        · rcases hfares.newTickers k r hr (Nat.not_lt.mp hlt) with hended | ⟨d, hphase', hd⟩
          · cases hended.symm.trans hphase
          · cases hphase'.symm.trans hphase
            exact absurd (hfares.instant ▸ hdue) (Nat.not_le.mpr hd)
      · -- time cannot pass a ticker by that waits without a permit
        obtain ⟨n', hn', hin⟩ := hwu.awaits_all (.look k) r deadline hr hphase
        have hn' : n' ≤ u.instant := by
          rcases hin with hn' | ⟨-, hgood⟩
          · exact hn'
          · exact absurd hgood (by simp [hlostu])
        have hinstant : n = u.instant := Nat.le_antisymm (Nat.le_trans (hmissed _ ‹_›) hn') hle
        subst hinstant
        exact (ih hlost hr hphase hdue hlater).tail hstep rfl

/-- What it takes for a tick to begin later without a permit. -/
theorem insists_of_begins (hw : Wakeful none t) (hlife : Relation.ReflTransGen (Goes o c) t t')
    (hstep : t'.Goes o c t'') {k : Nat} {r : Ticker} (hr : t''.tickers[k]? = some r)
    (hlost : t.permits r.permit = false) (hbegins : Begins k t' t'')
    (hlater : t.instant < t''.instant) :
    o.insists (.ticker k) t''.instant t''.outside = true ∧ HasOverrun o c k t t' := by
  obtain ⟨r₀, deadline, r', next, hr₀, hphase, hr', hbusy⟩ := hbegins
  obtain ⟨hw', hlost'⟩ := lost_of_life hw hlife hlost
  cases Option.some.inj (hr'.symm.trans hr)
  rcases hstep.fares hw'.isManual with hfares | ⟨n, s, rfl, -, -⟩
  · obtain ⟨r₁, hr₁, hfate⟩ := hfares.tickers k r₀ hr₀
    cases Option.some.inj (hr₁.symm.trans hr)
    cases hfate with
    | same => cases hphase.symm.trans hbusy
    | stopped => cases hbusy
    | finished hbusy' => cases hphase.symm.trans hbusy'
    | begun hphase' hready hgoes =>
        cases hphase.symm.trans hphase'
        rw [Ticker.permit_begin] at hlost hlost'
        rw [hfares.instant] at hready hlater
        refine ⟨hgoes.resolve_left fun hgood => ?_,
          hasOverrun_of_waiting hw hlife hlost hr₀ hphase hready hlater⟩
        exact Bool.false_ne_true (hlost'.symm.trans (hfares.permits _ hgood))
  · cases Option.some.inj (hr₀.symm.trans hr)
    cases hphase.symm.trans hbusy

end Timeline

namespace Handle

open Timeline

variable {σ : Type} {o : Outside σ} {h : Handle} {t t' : Timeline σ}

def Call.Withdraws (r : Registry) (serial : Nat) : Call → Prop
  | .track .. => False
  | .cancel d => r.entered.get? d = some serial
  | .shutDown => True

theorem run_cancel {d : Did} {serial : Nat}
    (hin : (t.registry h.registry).entered.get? d = some serial) :
    t.run o (h.cancel d) =
      (some true, t.setRegistry h.registry ((t.registry h.registry).leave d serial)) := by
  have hperform : t.perform o (.strike h.registry d) = atOnce (r := .strike h.registry d) true
      (t.setRegistry h.registry ((t.registry h.registry).leave d serial)) := by
    simp only [perform, Registry.strike_eq hin]
  have hdrive : drive o (h.cancel d) t =
      (.done true, t.setRegistry h.registry ((t.registry h.registry).leave d serial)) :=
    (drive_atOnce o hperform).trans (drive_done o ..)
  rw [run, hdrive]

theorem run_shutDown : t.run o (Call.shutDown.activity h) = (some true,
    (t.setRegistry h.registry (t.registry h.registry).shut).setRegistry h.registry
      ((t.setRegistry h.registry (t.registry h.registry).shut).registry h.registry).clear) := by
  have hrest : Call.shutDown.activity h = (Work.ask (.shut h.registry)).bind fun _ => h.clearing :=
    rfl
  rw [run, hrest, drive_ask_bind o (r := .shut _) rfl, clearing, drive_ask_bind o (r := .clear _) rfl,
    drive_done]

theorem Call.acts (hm : t.isManual = false) (call : Call) :
    Acts t (t.run o (call.activity h)).2 := by
  have ha := Acts.drive hm o (call.activity h)
  rw [run]
  generalize drive o (call.activity h) t = result at ha
  obtain ⟨_ | _ | _, t'⟩ := result <;> exact ha

variable {call : Call} {a : Bool} {serial : Nat}
  (hwithdraws : call.Withdraws (t.registry h.registry) serial)
  (hcall : t.run o (call.activity h) = (some a, t'))

include hwithdraws hcall

/-- Once a call has returned that withdraws a permit, the permit is withdrawn. -/
theorem lost_of_call (hroom : h.registry < t.registries.length) :
    t'.permits ⟨h.registry, serial⟩ = false := by
  cases call with
  | track => exact hwithdraws.elim
  | cancel d =>
      obtain ⟨-, rfl⟩ := Prod.ext_iff.mp ((run_cancel hwithdraws).symm.trans hcall)
      simp [permits, registry_setRegistry hroom]
  | shutDown =>
      obtain ⟨-, rfl⟩ := Prod.ext_iff.mp (run_shutDown.symm.trans hcall)
      simp [permits, registry_setRegistry hroom,
        registry_setRegistry (t := t.setRegistry _ _) (by simpa using hroom)]

theorem events_of_call : t'.events = t.events := by
  cases call with
  | track => exact hwithdraws.elim
  | cancel d =>
      obtain ⟨-, rfl⟩ := Prod.ext_iff.mp ((run_cancel hwithdraws).symm.trans hcall)
      rfl
  | shutDown =>
      obtain ⟨-, rfl⟩ := Prod.ext_iff.mp (run_shutDown.symm.trans hcall)
      rfl

/-- After a call has returned that withdraws the permit of a timer, the tick that runs is left to
finish. A tick of the timer begins later only if one of its ticks has just overrun, and its ticker
insists. -/
theorem ticks_after_withdrawal {s : σ}
    (hreach : Relation.ReflTransGen (Goes o .free) (Timeline.start s false) t)
    (hroom : h.registry < t.registries.length) :
    (t'.events = t.events ∧ ∀ (k : Nat) r next, t.tickers[k]? = some r → r.phase = .busy next →
      t'.tickers[k]? = some r) ∧
    ∀ t₁ t₂ (k : Nat) r, Relation.ReflTransGen (Goes o .free) t' t₁ → t₁.Goes o .free t₂ →
      t₂.tickers[k]? = some r → r.permit = ⟨h.registry, serial⟩ → Begins k t₁ t₂ →
      t'.instant < t₂.instant →
        o.insists (.ticker k) t₂.instant t₂.outside = true ∧ HasOverrun o .free k t' t₁ := by
  have hw : Wakeful none t := (wakeful_start s).life hreach
  have ha : Acts t t' := by
    have ha := Call.acts (o := o) (h := h) hw.isManual call
    rwa [hcall] at ha
  refine ⟨⟨events_of_call hwithdraws hcall, fun k r next hr hbusy => ?_⟩,
    fun t₁ t₂ k r hlife hstep hr hpermit hbegins hlater => ?_⟩
  · rcases ha.tickers k r hr with ⟨hsame, -⟩ | ⟨d, hphase, -⟩
    · exact hsame
    · cases hphase.symm.trans hbusy
  · exact insists_of_begins (hw.acts ha) hlife hstep hr
      (hpermit ▸ lost_of_call hwithdraws hcall hroom) hbegins hlater

end Handle

def Outside.slow : Outside Unit :=
  let k : Caretaker Expiry.Error :=
    ⟨fun d => Work.ask (.consult d), ⟨1, .zero⟩, Expiry.decoder, 10, ⟨"refresh", 10⟩, 10⟩
  { Outside.barren with
    consult := fun _ s => (⟨.ofMillis 2500, some (.ok none)⟩, s)
    perform := k.perform
    insists := fun _ _ _ => true }

namespace Handle

open Timeline

def slowTick (d : Did) : Timeline Unit :=
  let o := Outside.slow
  let t := ((start () false).run o (Handle.open (.ofSeconds 1))).2
  let t := (t.run o (track ⟨0, .ofSeconds 1⟩ d .zero)).2
  let t := (t.takeNext o).takeNext o
  ({ t with instant := 1000000000 }.takeNext o).takeNext o

def slowTickEnded (d : Did) : Timeline Unit :=
  let t := ((slowTick d).run Outside.slow (cancel ⟨0, .ofSeconds 1⟩ d)).2
  { t with instant := 3500000000 }.takeNext Outside.slow

/-- The identifier is cancelled at one second, and a tick of it begins at three and a half. -/
theorem slowTick_run :
    let o := Outside.slow
    let d : Did := ⟨"did:a:b", by decide⟩
    let h : Handle := ⟨0, .ofSeconds 1⟩
    let t' := ((slowTick d).run o (h.cancel d)).2
    let t₂ := (slowTickEnded d).takeNext o
    Relation.ReflTransGen (Goes o .free) (start () false) (slowTick d) ∧
      ((slowTick d).registry 0).entered.get? d = some 0 ∧ (slowTick d).registries.length = 1 ∧
      (slowTick d).run o (h.cancel d) = (some true, t') ∧
      Relation.ReflTransGen (Goes o .free) t' (slowTickEnded d) ∧ (slowTickEnded d).Goes o .free t₂ ∧
      Begins 0 (slowTickEnded d) t₂ ∧ t'.instant = 1000000000 ∧ t₂.instant = 3500000000 ∧
      ∃ r, t₂.tickers[0]? = some r ∧ r.permit = ⟨0, 0⟩ := by
  intro o d h t' t₂
  have hreach : Relation.ReflTransGen (Goes o .free) (start () false) (slowTick d) := by
    refine ((((((Relation.ReflTransGen.single (.run (Work.obeys_free _))).tail
      (.run (Work.obeys_free _))).tail (.takeNext ?_)).tail (.takeNext ?_)).tail
      (.pass_to ?_ ?_ trivial)).tail (.takeNext ?_)).tail (.takeNext ?_)
    all_goals decide +kernel
  have hrest : Relation.ReflTransGen (Goes o .free) t' (slowTickEnded d) := by
    refine (Relation.ReflTransGen.single (.pass_to ?_ ?_ trivial)).tail (.takeNext ?_)
    all_goals decide +kernel
  have hentered : ((slowTick d).registry 0).entered.get? d = some 0 := by decide +kernel
  have hpermit : t₂.tickers[0]?.map Ticker.permit = some ⟨0, 0⟩ := by decide +kernel
  refine ⟨hreach, hentered, by decide +kernel, ?_, hrest, .takeNext (by decide +kernel), ?_,
    by decide +kernel, by decide +kernel, Option.map_eq_some_iff.mp hpermit⟩
  · refine Prod.ext ?_ rfl
    rw [run_cancel (h := h) hentered]
  · exact begins_of_phases 2000000000 4500000000 (by decide +kernel)
      (by decide +kernel)

/-- A timer that insists begins another tick after its identifier was cancelled. -/
theorem not_ended_by_cancel :
    ¬ ∀ (o : Outside Unit) (h : Handle) (d : Did) (serial : Nat) (t t' t₁ t₂ : Timeline Unit)
        (k : Nat) (r : Ticker),
      Relation.ReflTransGen (Goes o .free) (start () false) t →
      (t.registry h.registry).entered.get? d = some serial →
      t.run o (h.cancel d) = (some true, t') → Relation.ReflTransGen (Goes o .free) t' t₁ →
      t₁.Goes o .free t₂ → t₂.tickers[k]? = some r → r.permit = ⟨h.registry, serial⟩ →
      Begins k t₁ t₂ → t₂.instant ≤ t'.instant := by
  intro hall
  obtain ⟨hreach, hentered, -, hcancel, hrest, hstep, hbegins, hthen, hnow, r, hr, hpermit⟩ :=
    slowTick_run
  have hle := hall _ ⟨0, .ofSeconds 1⟩ _ 0 _ _ _ _ 0 r hreach hentered hcancel hrest hstep hr hpermit
    hbegins
  omega

/-- The tick that runs when the identifier is cancelled has overrun once the next begins. -/
theorem slowTick_overran :
    let o := Outside.slow
    let d : Did := ⟨"did:a:b", by decide⟩
    let t' := ((slowTick d).run o (cancel ⟨0, .ofSeconds 1⟩ d)).2
    t'.events = (slowTick d).events ∧ HasOverrun o .free 0 t' (slowTickEnded d) := by
  intro o d t'
  obtain ⟨hreach, hentered, hroom, hcancel, hrest, hstep, hbegins, hthen, hnow, r, hr, hpermit⟩ :=
    slowTick_run
  have hwithdraws : Call.Withdraws ((slowTick d).registry 0) 0 (.cancel d) := hentered
  have hticks := ticks_after_withdrawal (h := ⟨0, .ofSeconds 1⟩) hwithdraws hcancel hreach
    (by rw [hroom]; exact Nat.zero_lt_one)
  exact ⟨hticks.1.1, (hticks.2 _ _ 0 r hrest hstep hr hpermit hbegins (by omega)).2⟩

end Handle

end Upkeep
