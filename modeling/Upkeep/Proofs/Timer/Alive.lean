import Mathlib.Logic.Relation
import Upkeep.Proofs.Timer.Calm
import Upkeep.Proofs.Timer.Clients

/-!
The upkeep of one identifier over time. The first tick comes a delay and a period after tracking
began, and each further one a period after the one before. A period that is no longer than the
margin of the provider leaves no second in which the token of the session is expired.
-/

namespace Upkeep

open Duration (nanosPerSecond)

theorem Duration.isZero_of_pos {span : Duration} (h : 0 < span.toNanos) : span.isZero = false := by
  cases hzero : span.isZero with
  | false => rfl
  | true =>
      obtain ⟨hseconds, hnanos⟩ : span.seconds = 0 ∧ span.nanos = 0 := by
        simpa [isZero] using hzero
      rw [toNanos, hseconds, hnanos] at h
      exact absurd h (by decide)

theorem Ticker.phase_at {instant : Nat} {period : Duration} (h : 0 < period.toNanos) {p : Permit}
    {c : Chore} : (Ticker.at instant period p c).phase = .waiting (instant + period.toNanos) := by
  simp [Ticker.at, Duration.isZero_of_pos h]

/-- How a timeline goes on while the row of an identifier is left to its upkeep: an event that is due
comes up; time passes, no further than the next event; or another activity begins. The clock counts
the seconds from `epoch`, and nobody else writes the row. -/
inductive Timeline.Onward {σ : Type} (o : Outside σ) (registry : Nat) (d : Did)
    (row : σ → Option Bytes) (honored : σ → Prop) (epoch : Nat) : Timeline σ → Timeline σ → Prop
  | next {t t' : Timeline σ} (h : t.step? o (some t.instant) = some t') :
      Onward o registry d row honored epoch t t'
  | pass {t : Timeline σ} {n : Nat} {s : σ} (hle : t.instant ≤ n) (hdue : ∀ e ∈ t.events, n ≤ e.due)
      (hnow : (o.now s).toNat = epoch + n / nanosPerSecond) (hrow : row s = row t.outside)
      (hh : honored s → honored t.outside) :
      Onward o registry d row honored epoch t { t with outside := s, instant := n }
  | join {t : Timeline σ} {j : Job} (hj : j.Spares registry d) :
      Onward o registry d row honored epoch t (t.spawn j)

namespace Outside.Tends

variable {σ : Type} {o : Outside σ} {d : Did} {margin : UInt64} {row : σ → Option Bytes}
  {honored : σ → Prop} (ho : o.Tends d margin row honored) {t t' : Timeline σ}

include ho

theorem honored_of_resume {j : Job} (h : honored (t.resume o j).outside) : honored t.outside := by
  cases j with
  | chore p => exact ho.honored_of_drive (t.outside_resume_chore o p ▸ h)
  | tick k p => exact ho.honored_of_drive (t.outside_resume_tick o k p ▸ h)
  | call caller p => exact ho.honored_of_drive (t.outside_resume_call o caller p ▸ h)

theorem honored_of_wake {w : Wake} (h : honored (t.wake o w).outside) : honored t.outside := by
  cases w with
  | job j => exact ho.honored_of_resume h
  | shot i =>
      rw [Timeline.wake, Timeline.lookAtShot] at h
      split at h
      next => exact h
      next =>
        split at h
        next => exact h
        next =>
          split at h
          next => exact h
          next =>
            split at h
            next => exact ho.honored_of_resume (t := t.setShot i _) h
            next => exact h
  | ticker k =>
      rw [Timeline.wake, Timeline.lookAtTicker] at h
      split at h
      next => exact h
      next =>
        split at h
        next =>
          split at h
          next => exact h
          next =>
            split at h
            next => exact h
            next => exact h
        next => exact h

end Outside.Tends

namespace Timeline.Onward

variable {σ : Type} {o : Outside σ} {registry : Nat} {d : Did} {row : σ → Option Bytes}
  {honored : σ → Prop} {epoch : Nat} {t t' : Timeline σ}

theorem of_events {e : Event} {es : List Event} (hevents : t.events = e :: es)
    (hdue : e.due = t.instant) (hwake : wake o { t with events := es } e.wake = t') :
    t.Onward o registry d row honored epoch t' := by
  refine .next ?_
  rw [step?_eq o hevents (Nat.le_of_eq hdue), hdue, Nat.max_self]
  exact congrArg some hwake

theorem honored_before {margin : UInt64} (ho : o.Tends d margin row honored)
    (hstep : t.Onward o registry d row honored epoch t') (hh : honored t'.outside) :
    honored t.outside := by
  cases hstep with
  | next h =>
      obtain ⟨e, es, -, -, rfl⟩ := Timeline.exists_of_step? h
      exact ho.honored_of_wake (t := { t with events := es, instant := max t.instant e.due }) hh
  | pass _ _ _ _ hbefore => exact hbefore hh
  | join => exact hh

end Timeline.Onward

/-- The upkeep of an identifier: by which handle and with which margin, when the clock began to
count, and when the first tick is due. -/
structure Course where
  handle : Handle
  did : Did
  margin : UInt64
  epoch : Nat
  first : Nat

namespace Course

variable (c : Course)

/-- The token in a row outlasts the tick that is due at an instant, unless that is the first. -/
def Outlasts (held : Option Bytes) (due : Nat) : Prop :=
  due = c.first ∨ ∃ x, Rows.Expires held x ∧
    c.epoch + (due - c.handle.period.toNanos) / nanosPerSecond + c.margin.toNat < x.toNat

/-- Where the timer stands, and what comes up for it next: its first tick is still to be scheduled,
it waits for a tick, or a tick runs. -/
inductive Stands (perform : Chore → Work Unit) (held : Option Bytes) : Own → Event → Prop
  | pending {i : Nat} {s : OneShot} {due : Nat} (hdue : due ≤ s.due)
      (hfirst : s.due + c.handle.period.toNanos = c.first) (hfresh : s.isOver = false)
      (hchore : s.chore = .recur c.handle.period s.permit (.refresh c.did)) :
      Stands perform held (.shot i s) ⟨due, .shot i⟩
  | waiting {k : Nat} {ticker : Ticker} {due deadline : Nat} (hdue : due ≤ deadline)
      (hphase : ticker.phase = .waiting deadline) (hperiod : ticker.period = c.handle.period)
      (hchore : ticker.chore = .refresh c.did) (hlasts : c.Outlasts held deadline) :
      Stands perform held (.ticker k ticker) ⟨due, .ticker k⟩
  | busy {k : Nat} {ticker : Ticker} {now : Nat}
      (hphase : ticker.phase = .busy (now + c.handle.period.toNanos))
      (hperiod : ticker.period = c.handle.period) (hchore : ticker.chore = .refresh c.did)
      (hlasts : c.Outlasts held now) :
      Stands perform held (.ticker k ticker) ⟨now, .job (.tick k (perform (.refresh c.did)))⟩

structure Runs {σ : Type} (o : Outside σ) (row : σ → Option Bytes) (t : Timeline σ) : Prop where
  now_eq : (o.now t.outside).toNat = c.epoch + t.instant / nanosPerSecond
  isRefreshable : Rows.IsRefreshable c.did (row t.outside)
  stands : ∃ own e, c.Stands o.perform (row t.outside) own e ∧
    t.Calm c.handle.registry c.did (some own) [e]

structure IsTended {σ : Type} (o : Outside σ) (row : σ → Option Bytes) (honored : σ → Prop) :
    Prop where
  tends : o.Tends c.did c.margin row honored
  spares : ∀ chore, chore.Spares c.did → Work.Spares c.handle.registry c.did (o.perform chore)
  recur : ∀ period permit chore,
    o.perform (.recur period permit chore) = Work.ask (.every period permit chore)
  refresh : ∃ (ro : Rotation Expiry.Error) (retry : Retry), ro.margin = c.margin ∧
    ro.decode = Expiry.decoder ∧
    o.perform (.refresh c.did) = (Agent.obtain ro.restore retry c.did).bind fun _ => .done ()
  pos : 0 < c.handle.period.toNanos
  le : c.handle.period.toNanos ≤ c.margin.toNat * nanosPerSecond

variable {c : Course}

theorem IsTended.of_caretaker {σ ε : Type} {o : Outside σ} {row : σ → Option Bytes}
    {honored : σ → Prop} (k : Caretaker ε) (ro : Rotation Expiry.Error)
    (hperform : o.perform = k.perform) (hprovider : k.provider = ro.restore)
    (hmargin : ro.margin = c.margin) (hdecode : ro.decode = Expiry.decoder)
    (htends : o.Tends c.did c.margin row honored) (hpos : 0 < c.handle.period.toNanos)
    (hle : c.handle.period.toNanos ≤ c.margin.toNat * nanosPerSecond) :
    c.IsTended o row honored where
  tends := htends
  spares chore hchore := hperform ▸ Caretaker.spares_perform hprovider hchore
  recur period permit chore := hperform ▸ rfl
  refresh := ⟨ro, k.retry, hmargin, hdecode, by rw [hperform, ← hprovider]; rfl⟩
  pos := hpos
  le := hle

theorem IsTended.drive_refresh {σ : Type} {o : Outside σ} {row : σ → Option Bytes}
    {honored : σ → Prop} (hc : c.IsTended o row honored) {t : Timeline σ}
    (hrow : Rows.IsRefreshable c.did (row t.outside))
    (hh : honored (Timeline.drive o (o.perform (.refresh c.did)) t).2.outside) :
    ∃ s, Timeline.drive o (o.perform (.refresh c.did)) t = (.done (), t.withOutside s) ∧
      o.Renewed c.did c.margin row t.outside s := by
  obtain ⟨ro, retry, hmargin, hdecode, hrefresh⟩ := hc.refresh
  rw [hrefresh] at hh ⊢
  obtain ⟨s, agent, hobtain, hs⟩ :=
    hc.tends.drive_obtain hmargin hdecode hrow retry (hc.tends.honored_of_drive_bind hh)
  refine ⟨s, ?_, hs⟩
  rw [Timeline.drive_bind_done o hobtain]
  exact Timeline.drive_done o ..

/-- Whole seconds lose nothing that the margin does not make up for. -/
theorem Outlasts.lasts {held : Option Bytes} {due now : Nat} (h : c.Outlasts held due)
    (hle : c.handle.period.toNanos ≤ c.margin.toNat * nanosPerSecond) (hfirst : due ≠ c.first)
    (hnow : now ≤ due) :
    ∃ x, Rows.Expires held x ∧ c.epoch + now / nanosPerSecond < x.toNat := by
  obtain ⟨x, hx, hlt⟩ := h.resolve_left hfirst
  refine ⟨x, hx, Nat.lt_of_le_of_lt ?_ hlt⟩
  have hspan : now ≤ due - c.handle.period.toNanos + c.margin.toNat * nanosPerSecond := by omega
  have hdiv := Nat.div_le_div_right (c := nanosPerSecond) hspan
  rw [Nat.add_mul_div_right _ _ (by decide)] at hdiv
  omega

theorem Runs.lasts {σ : Type} {o : Outside σ} {row : σ → Option Bytes} {t : Timeline σ}
    (h : c.Runs o row t) (hpos : 0 < c.handle.period.toNanos)
    (hle : c.handle.period.toNanos ≤ c.margin.toNat * nanosPerSecond)
    (hticked : c.first < t.instant ∨ c.first = t.instant ∧ ∀ e ∈ t.events, e.due ≠ t.instant) :
    ∃ x, Rows.Expires (row t.outside) x ∧ (o.now t.outside).toNat < x.toNat := by
  obtain ⟨own, e, hstands, hcalm⟩ := h.stands
  have hmem : e ∈ t.events := by
    obtain ⟨rest, hperm, -⟩ := hcalm.events
    exact hperm.symm.subset List.mem_cons_self
  have hinstant := hcalm.due e hmem
  rw [h.now_eq]
  cases hstands with
  | @pending i s due hdue hfirst =>
      have hlt : due < c.first := by omega
      have hge : c.first ≤ t.instant := hticked.elim Nat.le_of_lt fun hor => Nat.le_of_eq hor.1
      exact absurd (Nat.le_trans hge hinstant) (Nat.not_le.mpr hlt)
  | @waiting k ticker due deadline hdue _ _ _ hlasts =>
      refine hlasts.lasts hle (fun heq => ?_) (Nat.le_trans hinstant hdue)
      rcases hticked with hlt | ⟨heq', hnone⟩
      · exact absurd (Nat.le_trans hinstant hdue) (by omega)
      · refine hnone _ hmem (Nat.le_antisymm ?_ hinstant)
        exact heq' ▸ heq ▸ hdue
  | @busy k ticker now _ _ _ hlasts =>
      refine hlasts.lasts hle (fun heq => ?_) hinstant
      rcases hticked with hlt | ⟨heq', hnone⟩
      · exact absurd (heq ▸ hinstant) (Nat.not_le.mpr hlt)
      · exact hnone _ hmem (heq.trans heq')

section Step

variable {σ : Type} {o : Outside σ} {row : σ → Option Bytes} {honored : σ → Prop}
  (hc : c.IsTended o row honored) {t : Timeline σ}
  (hnow : (o.now t.outside).toNat = c.epoch + t.instant / nanosPerSecond)
  (hrow : Rows.IsRefreshable c.did (row t.outside))

include hc hnow hrow

/-- The start delay is over, and the ticker begins; or it is not over yet. -/
theorem runs_lookAtShot {i : Nat} {s : OneShot}
    (hcalm : t.Calm c.handle.registry c.did (some (.shot i s)) []) (hdue : t.instant ≤ s.due)
    (hfirst : s.due + c.handle.period.toNanos = c.first) (hfresh : s.isOver = false)
    (hchore : s.chore = .recur c.handle.period s.permit (.refresh c.did)) :
    c.Runs o row (t.lookAtShot o i) := by
  have hs : t.shots[i]? = some s := hcalm.isOn _ rfl
  have hpermits : t.permits s.permit = true := (hcalm.isHeld _ rfl).2.2
  by_cases hready : s.due ≤ t.instant
  · have hinstant : t.instant = s.due := Nat.le_antisymm hdue hready
    have hperform : o.perform s.chore =
        Work.ask (.every c.handle.period s.permit (.refresh c.did)) := by rw [hchore, hc.recur]
    rw [Timeline.lookAtShot_due o hs hready hfresh hpermits hperform,
      Timeline.addTicker_eq (t := t.setShot i s.stop) hcalm.isManual]
    refine ⟨hnow, hrow, _, _, ?_, (hcalm.launch rfl).wakeMine (Nat.le_refl _) _⟩
    refine .waiting (Nat.le_add_right ..) (Ticker.phase_at hc.pos) rfl rfl (.inl ?_)
    rw [← hfirst, ← hinstant]
  · rw [Timeline.lookAtShot, hs]
    dsimp only
    rw [Timeline.heeds_of_permits o _ hpermits]
    simp only [hfresh, Bool.false_eq_true, if_false, hready]
    exact ⟨hnow, hrow, _, _, .pending (Nat.le_refl _) hfirst hfresh hchore,
      hcalm.wakeMine (Nat.le_of_not_le hready) _⟩

omit hc in
theorem runs_lookAtTicker {k deadline : Nat} {ticker : Ticker}
    (hcalm : t.Calm c.handle.registry c.did (some (.ticker k ticker)) [])
    (hdue : t.instant ≤ deadline) (hphase : ticker.phase = .waiting deadline)
    (hperiod : ticker.period = c.handle.period) (hchore : ticker.chore = .refresh c.did)
    (hlasts : c.Outlasts (row t.outside) deadline) : c.Runs o row (t.lookAtTicker o k) := by
  have hs : t.tickers[k]? = some ticker := hcalm.isOn _ rfl
  have hpermits : t.permits ticker.permit = true := (hcalm.isHeld _ rfl).2.2
  by_cases hready : deadline ≤ t.instant
  · obtain rfl : deadline = t.instant := Nat.le_antisymm hready hdue
    have hbegun : (ticker.begin t.instant).phase =
        .busy (t.instant + c.handle.period.toNanos) := by
      simp [Ticker.begin, hphase, hperiod, nextDeadline]
    rw [Timeline.lookAtTicker_ready o hs hphase hpermits hready, hchore]
    refine ⟨hnow, hrow, .ticker k _, _, .busy hbegun (by simpa) (by simpa) hlasts, ?_⟩
    exact (hcalm.setOwn (by simp)).wakeMine (Nat.le_refl _) _
  · have hearly : t.instant < deadline := Nat.not_le.mp hready
    rw [Timeline.lookAtTicker_early o hs hphase hpermits hearly]
    exact ⟨hnow, hrow, _, _, .waiting (Nat.le_refl _) hphase hperiod hchore hlasts,
      hcalm.wakeMine (Nat.le_of_lt hearly) _⟩

/-- A tick that was honored ends with a token that outlasts the next one. -/
theorem runs_resume {k : Nat} {ticker : Ticker}
    (hcalm : t.Calm c.handle.registry c.did (some (.ticker k ticker)) [])
    (hphase : ticker.phase = .busy (t.instant + c.handle.period.toNanos))
    (hperiod : ticker.period = c.handle.period) (hchore : ticker.chore = .refresh c.did)
    (hh : honored (t.resume o (.tick k (o.perform (.refresh c.did)))).outside) :
    c.Runs o row (t.resume o (.tick k (o.perform (.refresh c.did)))) := by
  have hs : t.tickers[k]? = some ticker := hcalm.isOn _ rfl
  obtain ⟨s, hdrive, hnow', hrow', hlasts⟩ :=
    hc.drive_refresh hrow (t.outside_resume_tick o k _ ▸ hh)
  have hfinished : ticker.finish.phase = .waiting (t.instant + c.handle.period.toNanos) := by
    simp [Ticker.finish, hphase]
  rw [Timeline.resume_tick_done o hdrive hs]
  refine ⟨?_, hrow', .ticker k _, _,
    .waiting (Nat.le_add_right ..) hfinished (by simpa) (by simpa) (.inr ?_),
    ((hcalm.withOutside s).setOwn (by simp)).wakeMine (Nat.le_refl _) _⟩
  · exact (congrArg UInt64.toNat hnow').trans hnow
  · obtain ⟨x, hx, hlt⟩ := hlasts
    rw [hnow] at hlt
    exact ⟨x, hx, by rwa [Nat.add_sub_cancel]⟩

theorem runs_wake {own : Own} {e : Event} (hstands : c.Stands o.perform (row t.outside) own e)
    (hdue : e.due = t.instant) (hcalm : t.Calm c.handle.registry c.did (some own) [])
    (hh : honored (t.wake o e.wake).outside) : c.Runs o row (t.wake o e.wake) := by
  cases hstands with
  | pending hlate hfirst hfresh hchore =>
      exact runs_lookAtShot hc hnow hrow hcalm (hdue ▸ hlate) hfirst hfresh hchore
  | waiting hlate hphase hperiod hchore hlasts =>
      exact runs_lookAtTicker hnow hrow hcalm (hdue ▸ hlate) hphase hperiod hchore hlasts
  | busy hphase hperiod hchore =>
      exact runs_resume hc hnow hrow hcalm (hdue ▸ hphase) hperiod hchore hh

end Step

section Life

variable {σ : Type} {o : Outside σ} {row : σ → Option Bytes} {honored : σ → Prop}
  {t t' : Timeline σ}

/-- Nothing that happens meanwhile ends what was so far. -/
theorem Runs.onward (hc : c.IsTended o row honored) (hr : c.Runs o row t)
    (hstep : t.Onward o c.handle.registry c.did row honored c.epoch t')
    (hh : honored t'.outside) : c.Runs o row t' := by
  obtain ⟨own, m, hstands, hcalm⟩ := hr.stands
  cases hstep with
  | next h =>
      obtain ⟨e, es, hevents, hdue, rfl⟩ := Timeline.exists_of_step? h
      have hinstant : e.due = t.instant :=
        Nat.le_antisymm hdue (hcalm.due e (hevents ▸ List.mem_cons_self))
      rw [Nat.max_eq_left hdue] at hh ⊢
      -- either it is the timer's own event, or it leaves the row and the timer as they are
      rcases hcalm.pop hevents with ⟨rfl, hpop⟩ | ⟨hleaves, hpop⟩
      · exact runs_wake hc (t := { t with events := es }) hr.now_eq hr.isRefreshable hstands hinstant
          hpop hh
      · obtain ⟨hcalm', hun⟩ := hpop.wake hc.tends hc.spares
          (hleaves.mono (Nat.le_refl _) (Nat.le_refl _))
        refine ⟨?_, hun.row ▸ hr.isRefreshable, own, m, hun.row ▸ hstands, hcalm'⟩
        rw [hun.now, hun.instant]
        exact hr.now_eq
  | pass hle hdue hnow hrow _ =>
      exact ⟨hnow, hrow ▸ hr.isRefreshable, own, m, hrow ▸ hstands, hcalm.pass hdue _⟩
  | join hj => exact ⟨hr.now_eq, hr.isRefreshable, own, m, hstands, hcalm.spawn hj⟩

theorem Runs.life (hc : c.IsTended o row honored) (hr : c.Runs o row t)
    (hlife : Relation.ReflTransGen
      (Timeline.Onward o c.handle.registry c.did row honored c.epoch) t t')
    (hh : honored t'.outside) : c.Runs o row t' := by
  induction hlife with
  | refl => exact hr
  | tail _ hstep ih => exact (ih (hstep.honored_before hc.tends hh)).onward hc hstep hh

/-- A tick that is due takes three events, and the next one is due a period later. -/
theorem IsTended.exists_tick (hc : c.IsTended o row honored) {k : Nat} {ticker : Ticker}
    (hevents : t.events = [⟨t.instant, .ticker k⟩]) (hk : t.tickers[k]? = some ticker)
    (hphase : ticker.phase = .waiting t.instant) (hpermits : t.permits ticker.permit = true)
    (hperiod : ticker.period = c.handle.period) (hchore : ticker.chore = .refresh c.did)
    (hrow : Rows.IsRefreshable c.did (row t.outside))
    (hh : ∀ s, o.now s = o.now t.outside → honored s) :
    ∃ t', Relation.ReflTransGen
        (Timeline.Onward o c.handle.registry c.did row honored c.epoch) t t' ∧
      t'.instant = t.instant ∧ o.now t'.outside = o.now t.outside ∧
      t'.events = [⟨t.instant + c.handle.period.toNanos, .ticker k⟩] := by
  have hlt : k < t.tickers.length := (List.getElem?_eq_some_iff.mp hk).1
  let t₁ : Timeline σ := { t.setTicker k (ticker.begin t.instant) with events := [] }
  have hbegin : Timeline.lookAtTicker o { t with events := [] } k =
      t₁.spawn (.tick k (o.perform (.refresh c.did))) := by
    rw [Timeline.lookAtTicker_ready o (t := { t with events := [] }) hk hphase hpermits
      (Nat.le_refl _), hchore]
    rfl
  obtain ⟨s, hdrive, hnow, -⟩ := hc.drive_refresh (t := t₁) hrow (hh _ (hc.tends.now_drive _ _))
  have hk₁ : (t₁.withOutside s).tickers[k]? = some (ticker.begin t.instant) :=
    List.getElem?_set_self hlt
  let t₂ : Timeline σ := (t₁.withOutside s).setTicker k (ticker.begin t.instant).finish
  have hend : t₁.resume o (.tick k (o.perform (.refresh c.did))) =
      t₂.wakeAt t.instant (.ticker k) := Timeline.resume_tick_done o hdrive hk₁
  have hk₂ : t₂.tickers[k]? = some (ticker.begin t.instant).finish :=
    List.getElem?_set_self (by simpa [t₁, Timeline.withOutside, Timeline.setTicker] using hlt)
  have hphase₂ : (ticker.begin t.instant).finish.phase =
      .waiting (t.instant + c.handle.period.toNanos) := by
    simp [Ticker.begin, Ticker.finish, hphase, hperiod, nextDeadline]
  have hpermits₂ : t₂.permits (ticker.begin t.instant).finish.permit = true := by
    rw [Ticker.permit_finish, Ticker.permit_begin]
    exact hpermits
  have hwait : t₂.lookAtTicker o k =
      t₂.wakeAt (t.instant + c.handle.period.toNanos) (.ticker k) :=
    Timeline.lookAtTicker_early o hk₂ hphase₂ hpermits₂ (Nat.lt_add_of_pos_right hc.pos)
  exact ⟨_, .tail (.tail (.single (.of_events hevents rfl hbegin)) (.of_events rfl rfl hend))
    (.of_events rfl rfl hwait), rfl, hnow, rfl⟩

end Life

end Course

namespace Handle

variable {σ ε : Type} {o : Outside σ} {h : Handle} {d : Did} {delay : Duration} {t t' : Timeline σ}

def begun (h : Handle) (d : Did) (delay : Duration) (t : Timeline σ) : Timeline σ :=
  (t.setRegistry h.registry ((t.registry h.registry).enter d)).addShot delay
    ⟨h.registry, (t.registry h.registry).issued⟩ (h.chain d (t.registry h.registry).issued)

theorem run_track_eq (hopen : (t.registry h.registry).isShut = false)
    (hnew : (t.registry h.registry).entered.get? d = none) :
    t.run o (h.track d delay) = (some true, h.begun d delay t) := by
  have hperform : t.perform o (.enroll h.registry d) = Timeline.atOnce (r := .enroll h.registry d)
      (some ⟨h.registry, (t.registry h.registry).issued⟩)
      (t.setRegistry h.registry ((t.registry h.registry).enter d)) := by
    rw [Timeline.perform, Registry.enroll_eq hopen hnew]
    rfl
  rw [Timeline.run, track, Timeline.drive_ask_bind o hperform,
    Timeline.drive_ask_bind o (r := .after ..) rfl, Timeline.drive_done]
  rfl

theorem run_track_refused (hno : (t.registry h.registry).isShut = true ∨
    ((t.registry h.registry).entered.get? d).isSome = true) :
    t.run o (h.track d delay) = (some false, t) := by
  have hperform : t.perform o (.enroll h.registry d) =
      Timeline.atOnce (r := .enroll h.registry d) none t := by
    rw [Timeline.perform, Registry.enroll_refused hno]
    dsimp only
    rw [Timeline.setRegistry_registry]
    rfl
  rw [Timeline.run, track, Timeline.drive_ask_bind o hperform, Timeline.drive_done]

theorem run_track_cases (d : Did) (delay : Duration) :
    (t.run o (h.track d delay) = (some false, t) ∧ ((t.registry h.registry).isShut = true ∨
        ((t.registry h.registry).entered.get? d).isSome = true)) ∨
      t.run o (h.track d delay) = (some true, h.begun d delay t) ∧
        (t.registry h.registry).isShut = false ∧ (t.registry h.registry).entered.get? d = none := by
  by_cases hno : (t.registry h.registry).isShut = true ∨
      ((t.registry h.registry).entered.get? d).isSome = true
  · exact .inl ⟨run_track_refused hno, hno⟩
  · obtain ⟨hopen, hnew⟩ : (t.registry h.registry).isShut = false ∧
        (t.registry h.registry).entered.get? d = none := by simpa using hno
    exact .inr ⟨run_track_eq hopen hnew, hopen, hnew⟩

/-- Tracking that answers yes has entered the identifier and started its timer. -/
theorem run_track (hrun : t.run o (h.track d delay) = (some true, t')) :
    (t.registry h.registry).isShut = false ∧ t' = h.begun d delay t := by
  rcases run_track_cases (o := o) (h := h) (t := t) d delay with ⟨hno, -⟩ | ⟨hyes, hopen, -⟩
  · rw [hno] at hrun
    exact absurd (Option.some.inj (Prod.ext_iff.mp hrun).1) Bool.false_ne_true
  · rw [hyes] at hrun
    exact ⟨hopen, (Prod.ext_iff.mp hrun).2.symm⟩

theorem runs_track {c : Course} {row : σ → Option Bytes}
    (hcalm : t.Calm c.handle.registry c.did none [])
    (hnow : (o.now t.outside).toNat = c.epoch + t.instant / nanosPerSecond)
    (hrow : Rows.IsRefreshable c.did (row t.outside))
    (hfirst : t.instant + delay.toNanos + c.handle.period.toNanos = c.first)
    (hrun : t.run o (c.handle.track c.did delay) = (some true, t')) : c.Runs o row t' := by
  obtain ⟨hopen, rfl⟩ := run_track hrun
  rw [begun, Timeline.setRegistry_enter,
    Timeline.addShot_eq (t := { t with registries := t.registries.set _ _ }) hcalm.isManual]
  exact ⟨hnow, hrow, .shot t.shots.length _, _,
    .pending (Nat.le_add_right ..) hfirst rfl rfl,
    (hcalm.enter hopen rfl).wakeMine (Nat.le_refl _) _⟩

/-- Upkeep keeps a session alive: from the first tick on, the token in its row is never expired. -/
theorem alive_of_track (k : Caretaker ε) (ro : Rotation Expiry.Error) (row : σ → Option Bytes)
    (honored : σ → Prop) (epoch : Nat) (hperform : o.perform = k.perform)
    (hprovider : k.provider = ro.restore) (hdecode : ro.decode = Expiry.decoder)
    (htends : o.Tends d ro.margin row honored) (hpos : 0 < h.period.toNanos)
    (hle : h.period.toNanos ≤ ro.margin.toNat * nanosPerSecond) {t₀ t₁ : Timeline σ}
    (hcalm : t₀.Calm h.registry d none [])
    (hnow : (o.now t₀.outside).toNat = epoch + t₀.instant / nanosPerSecond)
    (hrow : Rows.IsRefreshable d (row t₀.outside))
    (htrack : t₀.run o (h.track d delay) = (some true, t₁))
    (hlife : Relation.ReflTransGen (Timeline.Onward o h.registry d row honored epoch) t₁ t)
    (hh : honored t.outside) (hticked : t₀.instant + delay.toNanos + h.period.toNanos < t.instant ∨
      t₀.instant + delay.toNanos + h.period.toNanos = t.instant ∧
        ∀ e ∈ t.events, e.due ≠ t.instant) :
    ∃ x, Rows.Expires (row t.outside) x ∧ (o.now t.outside).toNat < x.toNat := by
  let c : Course :=
    ⟨h, d, ro.margin, epoch, t₀.instant + delay.toNanos + h.period.toNanos⟩
  have hc : c.IsTended o row honored :=
    .of_caretaker k ro hperform hprovider rfl hdecode htends hpos hle
  have hruns : c.Runs o row t₁ := runs_track (c := c) hcalm hnow hrow rfl htrack
  exact (hruns.life hc hlife hh).lasts hpos hle hticked

/-- The first tick of an identifier that is alone. -/
theorem alive_of_track_alone :
    let d : Did := ⟨"did:a:b", by decide⟩
    let ro : Rotation Expiry.Error := ⟨"client", 300, Expiry.decoder⟩
    let k : Caretaker Expiry.Error :=
      ⟨ro.restore, ⟨3, .ofSeconds 1⟩, Expiry.decoder, 10, ⟨"refresh", 10⟩, 10⟩
    let token : Grant.Token := ⟨"access", none, 3600, none⟩
    let o := Outside.granting token k.perform
    let row (s : Desk) := s.rows.get? (Rows.key d)
    let honored (s : Desk) := s.clock.toNat + token.expiresIn.toNat ≤ Rfc3339.lastPlainSecond
    let h : Handle := ⟨0, .ofSeconds 300⟩
    let v : Json := .object [(TokenSet.readKey, .object [("refresh_token", .text "old")])]
    let rows : Store.Memory := [(Rows.key d, (Rows.renew d ⟨v.render⟩ 1 none).encode)]
    let t₀ := (Timeline.start (⟨rows, 1000⟩ : Desk) false).openRegistry.2
    ∃ t₁ t, t₀.run o (h.track d .zero) = (some true, t₁) ∧
      Relation.ReflTransGen (Timeline.Onward o h.registry d row honored 1000) t₁ t ∧
      h.period.toNanos < t.instant ∧
      ∃ x, Rows.Expires (row t.outside) x ∧ (o.now t.outside).toNat < x.toNat := by
  intro d ro k token o row honored h v rows t₀
  let period := h.period.toNanos
  let ticker : Ticker := .at 0 h.period ⟨0, 0⟩ (.refresh d)
  have hpos : 0 < period := by decide
  have hphase : ticker.phase = .waiting period := by rw [Ticker.phase_at hpos, Nat.zero_add]
  have htends : o.Tends d ro.margin row honored := Outside.granting_tends (by decide) k.perform
  have htrack : t₀.run o (h.track d .zero) = (some true, h.begun d .zero t₀) := run_track_eq rfl rfl
  -- The delay is over at once, and the ticker waits.
  let t₁ := h.begun d .zero t₀
  let t₂ : Timeline Desk := Timeline.addTicker
    { t₁ with events := [], shots := [⟨.zero, 0, ⟨0, 0⟩, h.chain d 0, true⟩] }
      h.period ⟨0, 0⟩ (.refresh d)
  have hshot : Timeline.lookAtShot o { t₁ with events := [] } 0 = t₂ :=
    Timeline.lookAtShot_due o (t := { t₁ with events := [] })
      (s := ⟨.zero, 0, ⟨0, 0⟩, h.chain d 0, false⟩) rfl (Nat.le_refl 0) rfl rfl rfl
  have hfirst : t₁.events = [⟨0, .shot 0⟩] := rfl
  have h1 : t₁.Onward o h.registry d row honored 1000 t₂ := .of_events hfirst rfl hshot
  let t₃ := Timeline.wakeAt { t₂ with events := [] } period (.ticker 0)
  have hwait : Timeline.lookAtTicker o { t₂ with events := [] } 0 = t₃ :=
    Timeline.lookAtTicker_early o (t := { t₂ with events := [] }) rfl hphase rfl hpos
  have h2 : t₂.Onward o h.registry d row honored 1000 t₃ := .of_events rfl rfl hwait
  -- A period later the first tick comes.
  let t₄ : Timeline Desk := { t₃ with outside := ⟨rows, 1300⟩, instant := period }
  have hdue : t₃.events = [⟨period, .ticker 0⟩] := rfl
  have h3 : t₃.Onward o h.registry d row honored 1000 t₄ := by
    refine .pass (Nat.zero_le _) (fun e he => ?_) (by decide) rfl fun _ => by decide
    rw [hdue, List.mem_singleton] at he
    rw [he]
  have hrow : Rows.IsRefreshable d (row t₀.outside) :=
    ⟨_, _, if_pos rfl, Record.decode_encode _, v, _, "old", TokenSet.parse_single_key "old", nofun,
      rfl, rfl, rfl⟩
  have hclock (s : Desk) (hs : s.clock ≤ 1301) : honored s := by
    have hle := UInt64.le_iff_toNat_le.mp hs
    exact Nat.le_trans (Nat.add_le_add_right hle _) (by decide)
  let c : Course := ⟨h, d, 300, 1000, period⟩
  have hc : c.IsTended o row honored := .of_caretaker k ro rfl rfl rfl rfl htends hpos (by decide)
  have hticker : t₄.tickers[0]? = some ticker := rfl
  obtain ⟨t₅, hlife, hinstant, hnow, hnext⟩ := hc.exists_tick hdue hticker hphase rfl rfl rfl hrow
    fun s hs => hclock s ((show s.clock = 1300 from hs) ▸ by decide)
  -- A second after it.
  let t₆ : Timeline Desk :=
    { t₅ with outside := { t₅.outside with clock := 1301 }, instant := period + nanosPerSecond }
  have h6 : t₅.Onward o h.registry d row honored 1000 t₆ := by
    have hseconds : (1301 : UInt64).toNat = 1000 + (period + nanosPerSecond) / nanosPerSecond := by
      decide
    refine .pass (hinstant ▸ Nat.le_add_right ..) (fun e he => ?_) hseconds rfl fun _ => ?_
    · rw [hnext, List.mem_singleton] at he
      rw [he]
      exact Nat.add_le_add_left (by decide) _
    · exact hclock _ ((show t₅.outside.clock = 1300 from hnow) ▸ by decide)
  have hall : Relation.ReflTransGen (Timeline.Onward o h.registry d row honored 1000) t₁ t₆ :=
    (((Relation.ReflTransGen.single h1).tail h2).tail h3).trans (hlife.tail h6)
  have hticked : t₀.instant + Duration.zero.toNanos + h.period.toNanos < t₆.instant := by
    change 0 + 0 + period < period + nanosPerSecond
    decide
  have hcalm : t₀.Calm h.registry d none [] := Timeline.calm_start _ d
  have hbegin : (1000 : UInt64).toNat = 1000 + 0 / nanosPerSecond := by decide
  have hh : honored t₆.outside := hclock _ (show (1301 : UInt64) ≤ 1301 by decide)
  refine ⟨t₁, t₆, htrack, hall, Nat.lt_add_of_pos_right (by decide), ?_⟩
  exact alive_of_track k ro row honored 1000 rfl rfl rfl htends hpos (by decide)
    hcalm hbegin hrow htrack hall hh (.inl hticked)

end Handle

end Upkeep
