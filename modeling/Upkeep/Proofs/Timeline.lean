import Upkeep.Proofs.Interleaving
import Upkeep.Timeline

/-!
The parts of a timeline. An activity is driven request by request: one that is answered at once goes
on at the same instant. The equations say what a request leaves alone.
-/

namespace Upkeep

def Outside.barren : Outside Unit where
  store _ s := (none, s)
  now _ := 0
  exchange _ s := (.unreachable, s)
  attempt _ _ s := s
  consult _ s := (⟨.zero, none⟩, s)
  ring _ s := (false, s)
  perform _ := .done ()
  insists _ _ _ := false

namespace OneShot

variable (s : OneShot) (instant : Nat)

@[simp] theorem permit_lapse : (s.lapse instant).permit = s.permit := by
  unfold lapse
  split <;> rfl

@[simp] theorem chore_lapse : (s.lapse instant).chore = s.chore := by
  unfold lapse
  split <;> rfl

theorem isOver_lapse {s : OneShot} (h : s.isOver = true) (instant : Nat) :
    (s.lapse instant).isOver = true := by
  unfold lapse
  split
  · rfl
  · exact h

end OneShot

namespace Ticker

variable (t : Ticker)

@[simp] theorem chore_finish : t.finish.chore = t.chore := by
  unfold finish
  split <;> rfl

@[simp] theorem period_finish : t.finish.period = t.period := by
  unfold finish
  split <;> rfl

@[simp] theorem permit_finish : t.finish.permit = t.permit := by
  unfold finish
  split <;> rfl

@[simp] theorem chore_begin (instant : Nat) : (t.begin instant).chore = t.chore := by
  unfold begin
  split <;> rfl

@[simp] theorem period_begin (instant : Nat) : (t.begin instant).period = t.period := by
  unfold begin
  split <;> rfl

@[simp] theorem permit_begin (instant : Nat) : (t.begin instant).permit = t.permit := by
  unfold begin
  split <;> rfl

@[simp] theorem chore_lapse (instant : Nat) : (t.lapse instant).chore = t.chore := by
  unfold lapse
  split
  · split <;> rfl
  · rfl

@[simp] theorem permit_lapse (instant : Nat) : (t.lapse instant).permit = t.permit := by
  unfold lapse
  split
  · split <;> rfl
  · rfl

end Ticker

namespace Timeline

variable {σ : Type} (t : Timeline σ)

@[simp] theorem registries_setRegistry (n : Nat) (r : Registry) :
    (t.setRegistry n r).registries = t.registries.set n r := rfl

theorem registry_setRegistry {t : Timeline σ} {n : Nat} (h : n < t.registries.length)
    (r : Registry) : (t.setRegistry n r).registry n = r := by
  simp [registry, h]

theorem registry_setRegistry_of_ne {n m : Nat} (h : n ≠ m) (r : Registry) :
    (t.setRegistry n r).registry m = t.registry m := by
  simp [registry, h]

theorem lt_length_openRegistry {t : Timeline σ} {n : Nat} (h : n < t.registries.length) :
    n < t.openRegistry.2.registries.length := by
  rw [openRegistry, List.length_append]
  exact Nat.lt_add_right 1 h

theorem registry_openRegistry {t : Timeline σ} {n : Nat} (h : n < t.registries.length) :
    t.openRegistry.2.registry n = t.registry n := by
  simp [registry, openRegistry, List.getElem?_append_left h]

/-- A registry that withdraws nothing leaves the timers as they are. -/
theorem setRegistry_eq {t : Timeline σ} {n : Nat} {r : Registry}
    (hkept : ∀ serial, (t.registry n).permits serial = true → r.permits serial = true) :
    t.setRegistry n r = { t with registries := t.registries.set n r } := by
  have hlost (p : Permit) :
      (!t.isManual && t.permits p &&
        !({ t with registries := t.registries.set n r } : Timeline σ).permits p) = false := by
    by_cases hn : n = p.registry
    · subst hn
      by_cases hlt : p.registry < t.registries.length
      · by_cases hp : (t.registry p.registry).permits p.serial = true
        · simp [permits, registry, hlt, hkept _ hp]
        · simp [permits, hp]
      · simp [permits, registry, hlt]
    · simp [permits, registry, List.getElem?_set_ne hn]
  simp [setRegistry, lapse, hlost]

theorem setRegistry_registry (n : Nat) : t.setRegistry n (t.registry n) = t := by
  have h : t.registries.set n (t.registry n) = t.registries := by
    refine List.ext_getElem? fun k => ?_
    by_cases hk : n = k
    · subst hk
      by_cases hn : n < t.registries.length <;> simp [registry, hn]
    · simp [List.getElem?_set_ne hk]
  rw [setRegistry_eq fun _ hp => hp, h]

@[simp] theorem length_setRegistry (n : Nat) (r : Registry) :
    (t.setRegistry n r).registries.length = t.registries.length := by
  simp

section Lapse

variable (isLost : Permit → Bool)

@[simp] theorem length_shots_lapse : (t.lapse isLost).shots.length = t.shots.length := by
  simp [lapse]

@[simp] theorem length_tickers_lapse : (t.lapse isLost).tickers.length = t.tickers.length := by
  simp [lapse]

/-- Timers keep their permits and their chores. -/
theorem shots_lapse : ∃ f : OneShot → OneShot,
    (∀ s, (f s).permit = s.permit ∧ (f s).chore = s.chore) ∧
      (t.lapse isLost).shots = t.shots.map f :=
  ⟨_, fun s => by split <;> simp, rfl⟩

/-- What sleeps with a permit that is lost stops; all else is as it was. -/
theorem shot_lapse_cases {i : Nat} {s : OneShot} (h : t.shots[i]? = some s) :
    (t.lapse isLost).shots[i]? = some s ∧ (isLost s.permit = true → s.due ≤ t.instant) ∨
      isLost s.permit = true ∧ t.instant < s.due ∧
        (t.lapse isLost).shots[i]? = some s.stop := by
  simp only [lapse, List.getElem?_map, h, Option.map_some]
  cases hlost : isLost s.permit with
  | false => exact .inl ⟨rfl, nofun⟩
  | true =>
      by_cases hsleeps : t.instant < s.due
      · exact .inr ⟨rfl, hsleeps, by simp [OneShot.lapse, hsleeps]⟩
      · exact .inl ⟨by simp [OneShot.lapse, hsleeps], fun _ => Nat.not_lt.mp hsleeps⟩

theorem ticker_lapse_cases {k : Nat} {ticker : Ticker} (h : t.tickers[k]? = some ticker) :
    (t.lapse isLost).tickers[k]? = some ticker ∧ (isLost ticker.permit = true →
        ∀ deadline, ticker.phase = .waiting deadline → deadline ≤ t.instant) ∨
      isLost ticker.permit = true ∧ ∃ deadline, ticker.phase = .waiting deadline ∧
        t.instant < deadline ∧ (t.lapse isLost).tickers[k]? = some ticker.stop := by
  simp only [lapse, List.getElem?_map, h, Option.map_some]
  cases hlost : isLost ticker.permit with
  | false => exact .inl ⟨rfl, nofun⟩
  | true =>
      simp only [if_true, Ticker.lapse, true_and]
      split
      next deadline hphase =>
        by_cases hsleeps : t.instant < deadline
        · exact .inr ⟨deadline, hphase, hsleeps, by simp [hsleeps]⟩
        · refine .inl ⟨by simp [hsleeps], fun _ deadline' hphase' => ?_⟩
          cases hphase.symm.trans hphase'
          exact Nat.not_lt.mp hsleeps
      next hnot => exact .inl ⟨rfl, fun _ deadline hphase => absurd hphase (hnot deadline)⟩

end Lapse

@[simp] theorem length_shots_setRegistry (n : Nat) (r : Registry) :
    (t.setRegistry n r).shots.length = t.shots.length := by
  simp [setRegistry]

@[simp] theorem length_tickers_setRegistry (n : Nat) (r : Registry) :
    (t.setRegistry n r).tickers.length = t.tickers.length := by
  simp [setRegistry]

@[simp] theorem registries_addShot (delay : Duration) (p : Permit) (c : Chore) :
    (t.addShot delay p c).registries = t.registries := by
  cases h : t.isManual <;> simp [addShot, h, wakeAt]

@[simp] theorem registry_addShot (delay : Duration) (p : Permit) (c : Chore) (n : Nat) :
    (t.addShot delay p c).registry n = t.registry n := by
  simp [registry]

@[simp] theorem shots_addShot (delay : Duration) (p : Permit) (c : Chore) :
    (t.addShot delay p c).shots =
      t.shots ++ [⟨delay, t.instant + delay.toNanos, p, c, false⟩] := by
  cases h : t.isManual <;> simp [addShot, h, wakeAt]

@[simp] theorem tickers_addShot (delay : Duration) (p : Permit) (c : Chore) :
    (t.addShot delay p c).tickers = t.tickers := by
  cases h : t.isManual <;> simp [addShot, h, wakeAt]

@[simp] theorem instant_addShot (delay : Duration) (p : Permit) (c : Chore) :
    (t.addShot delay p c).instant = t.instant := by
  cases h : t.isManual <;> simp [addShot, h, wakeAt]

@[simp] theorem outside_addShot (delay : Duration) (p : Permit) (c : Chore) :
    (t.addShot delay p c).outside = t.outside := by
  cases h : t.isManual <;> simp [addShot, h, wakeAt]

@[simp] theorem outside_addTicker (period : Duration) (p : Permit) (c : Chore) :
    (t.addTicker period p c).outside = t.outside := by
  cases h : t.isManual <;> simp [addTicker, h, wakeAt]

@[simp] theorem registries_addTicker (period : Duration) (p : Permit) (c : Chore) :
    (t.addTicker period p c).registries = t.registries := by
  cases h : t.isManual <;> simp [addTicker, h, wakeAt]

@[simp] theorem registry_addTicker (period : Duration) (p : Permit) (c : Chore) (n : Nat) :
    (t.addTicker period p c).registry n = t.registry n := by
  simp [registry]

@[simp] theorem shots_addTicker (period : Duration) (p : Permit) (c : Chore) :
    (t.addTicker period p c).shots = t.shots := by
  cases h : t.isManual <;> simp [addTicker, h, wakeAt]

@[simp] theorem tickers_addTicker (period : Duration) (p : Permit) (c : Chore) :
    (t.addTicker period p c).tickers = t.tickers ++ [.at t.instant period p c] := by
  cases h : t.isManual <;> simp [addTicker, h, wakeAt]

@[simp] theorem instant_addTicker (period : Duration) (p : Permit) (c : Chore) :
    (t.addTicker period p c).instant = t.instant := by
  cases h : t.isManual <;> simp [addTicker, h, wakeAt]

theorem addShot_eq {t : Timeline σ} (h : t.isManual = false) (delay : Duration) (p : Permit)
    (c : Chore) : t.addShot delay p c =
      wakeAt { t with shots := t.shots ++ [⟨delay, t.instant + delay.toNanos, p, c, false⟩] }
        t.instant (.shot t.shots.length) := by
  simp [addShot, h]

theorem addTicker_eq {t : Timeline σ} (h : t.isManual = false) (period : Duration) (p : Permit)
    (c : Chore) : t.addTicker period p c =
      wakeAt { t with tickers := t.tickers ++ [.at t.instant period p c] }
        t.instant (.ticker t.tickers.length) := by
  simp [addTicker, h]

theorem step?_eq (o : Outside σ) {t : Timeline σ} {e : Event} {es : List Event} {bound : Nat}
    (hevents : t.events = e :: es) (hdue : e.due ≤ bound) : t.step? o (some bound) =
      some (wake o { t with events := es, instant := max t.instant e.due } e.wake) := by
  simp [step?, hevents, hdue]

theorem exists_of_step? {o : Outside σ} {t t' : Timeline σ} {bound : Nat}
    (h : t.step? o (some bound) = some t') :
    ∃ e es, t.events = e :: es ∧ e.due ≤ bound ∧
      t' = wake o { t with events := es, instant := max t.instant e.due } e.wake := by
  rw [step?] at h
  split at h
  next => exact nomatch h
  next e es hevents =>
    split at h
    next hdue => exact ⟨e, es, hevents, by simpa using hdue, (Option.some.inj h).symm⟩
    next => exact nomatch h

/-- A request takes no time before its reply is on the way. -/
theorem instant_perform (o : Outside σ) (r : Work.Request) (t : Timeline σ) :
    (perform o r t).timeline.instant = t.instant := by
  cases r with
  | after | every =>
      simp only [perform, atOnce, addShot, addTicker]
      split <;> rfl
  | _ => rfl

theorem length_shots_perform (o : Outside σ) (r : Work.Request) (t : Timeline σ) :
    t.shots.length ≤ (perform o r t).timeline.shots.length := by
  cases r with
  | after | every =>
      simp only [perform, atOnce, addShot, addTicker]
      split <;> simp [wakeAt]
  | issue | enroll | strike | shut | clear => exact Nat.le_of_eq (length_shots_setRegistry ..).symm
  | _ => exact Nat.le_refl _

theorem length_tickers_perform (o : Outside σ) (r : Work.Request) (t : Timeline σ) :
    t.tickers.length ≤ (perform o r t).timeline.tickers.length := by
  cases r with
  | after | every =>
      simp only [perform, atOnce, addShot, addTicker]
      split <;> simp [wakeAt]
  | issue | enroll | strike | shut | clear =>
      exact Nat.le_of_eq (length_tickers_setRegistry ..).symm
  | _ => exact Nat.le_refl _

section Drive

variable (o : Outside σ) {α : Type}

theorem drive_done (a : α) (t : Timeline σ) : drive o (.done a) t = (.done a, t) := by
  rw [drive.eq_def]

theorem drive_abandon (t : Timeline σ) : drive o (.abandon : Work α) t = (.dead, t) := by
  rw [drive.eq_def]

theorem drive_ask (r : Work.Request) (next : r.Reply → Work α) (t : Timeline σ) :
    drive o (Program.ask (I := work) r next) t =
      match (perform o r t).reply with
      | none =>
        (if (perform o r t).delay = 0 then .dead else .asleep (perform o r t).delay .abandon,
          (perform o r t).timeline)
      | some x =>
        if (perform o r t).delay = 0 then drive o (next x) (perform o r t).timeline
        else (.asleep (perform o r t).delay (next x), (perform o r t).timeline) := by
  rw [drive.eq_def]
  rfl

theorem drive_atOnce {r : Work.Request} {next : r.Reply → Work α} {t t' : Timeline σ} {x : r.Reply}
    (h : t.perform o r = atOnce x t') :
    drive o (Program.ask (I := work) r next) t = drive o (next x) t' := by
  rw [drive_ask, h]
  rfl

theorem drive_ask_bind {r : Work.Request} {f : r.Reply → Work α} {t t' : Timeline σ} {x : r.Reply}
    (h : t.perform o r = atOnce x t') : drive o ((Work.ask r).bind f) t = drive o (f x) t' :=
  drive_atOnce o h

theorem drive_bind {β : Type} (p : Work α) (f : α → Work β) (t : Timeline σ) :
    drive o (p.bind f) t =
      match drive o p t with
      | (.done a, t') => drive o (f a) t'
      | (.dead, t') => (.dead, t')
      | (.asleep span rest, t') => (.asleep span (rest.bind f), t') := by
  induction p generalizing t with
  | done a => rw [drive_done, Program.bind_done]
  | abandon => rw [Program.bind_abandon, drive_abandon, drive_abandon]
  | ask r next ih =>
      refine (drive_ask o r (fun x => (next x).bind f) t).trans ?_
      rw [show drive o (Program.ask r next) t = _ from drive_ask o r next t]
      cases (perform o r t).reply with
      | none => by_cases hdelay : (perform o r t).delay = 0 <;> simp [hdelay]
      | some x =>
          by_cases hdelay : (perform o r t).delay = 0
          · simp only [hdelay, if_true]
            exact ih x _
          · simp only [hdelay, if_false]

theorem drive_bind_done {β : Type} {p : Work α} {a : α} {t t' : Timeline σ}
    (h : drive o p t = (.done a, t')) (f : α → Work β) : drive o (p.bind f) t = drive o (f a) t' := by
  rw [drive_bind, h]

/-- What every safe request does to a timeline, an activity that asks nothing else does, and what it
has still to do when it has to wait is as safe. -/
theorem drive_keeps (rel : Timeline σ → Timeline σ → Prop) (hrefl : ∀ t, rel t t)
    (htrans : ∀ t t' t'', rel t t' → rel t' t'' → rel t t'') (safe : Work.Request → Prop)
    (hstep : ∀ r t, safe r → rel t (perform o r t).timeline) {p : Work α}
    (hp : p.Keeps (fun _ _ => True) safe fun _ => True) (t : Timeline σ) :
    rel t (drive o p t).2 ∧ ∀ span rest, (drive o p t).1 = .asleep span rest →
      rest.Keeps (fun _ _ => True) safe fun _ => True := by
  induction p generalizing t with
  | done a =>
      rw [drive_done]
      exact ⟨hrefl t, fun _ _ h => nomatch h⟩
  | abandon =>
      rw [drive_abandon]
      exact ⟨hrefl t, fun _ _ h => nomatch h⟩
  | ask r next ih =>
      have hrel := hstep r t hp.1
      rw [show drive o (Program.ask r next) t = _ from drive_ask o r next t]
      cases (perform o r t).reply with
      | none =>
          refine ⟨hrel, fun span rest h => ?_⟩
          by_cases hdelay : (perform o r t).delay = 0
          · simp [hdelay] at h
          · simp only [hdelay, if_false, Progress.asleep.injEq] at h
            rw [← h.2]
            trivial
      | some x =>
          by_cases hdelay : (perform o r t).delay = 0
          · simp only [hdelay, if_true]
            obtain ⟨hrel', hrest⟩ := ih x (hp.2 x trivial) (perform o r t).timeline
            exact ⟨htrans _ _ _ hrel hrel', hrest⟩
          · simp only [hdelay, if_false]
            refine ⟨hrel, fun span rest h => ?_⟩
            rw [← (Progress.asleep.inj h).2]
            exact hp.2 x trivial

end Drive

section Resume

variable (o : Outside σ)

@[simp] theorem outside_finishTick (k : Nat) : (t.finishTick k).outside = t.outside := by
  rw [finishTick]
  split <;> rfl

@[simp] theorem shots_finishTick (k : Nat) : (t.finishTick k).shots = t.shots := by
  rw [finishTick]
  split <;> rfl

@[simp] theorem permits_finishTick (k : Nat) (p : Permit) :
    (t.finishTick k).permits p = t.permits p := by
  rw [finishTick]
  split <;> rfl

theorem outside_resume_chore (p : Work Unit) :
    (t.resume o (.chore p)).outside = (drive o p t).2.outside := by
  rw [resume]
  rcases drive o p t with ⟨_ | _ | _, t'⟩ <;> rfl

theorem outside_resume_tick (k : Nat) (p : Work Unit) :
    (t.resume o (.tick k p)).outside = (drive o p t).2.outside := by
  rw [resume]
  rcases drive o p t with ⟨_ | _ | _, t'⟩
  · exact outside_finishTick t' k
  · exact outside_finishTick t' k
  · rfl

theorem outside_resume_call (caller : Nat) (p : Work (Except Unavailable Agent)) :
    (t.resume o (.call caller p)).outside = (drive o p t).2.outside := by
  rw [resume]
  rcases drive o p t with ⟨_ | _ | _, t'⟩ <;> rfl

theorem resume_chore_done {p : Work Unit} {t t' : Timeline σ} (h : drive o p t = (.done (), t')) :
    t.resume o (.chore p) = t' := by
  rw [resume, h]

theorem resume_tick_done {k : Nat} {p : Work Unit} {t t' : Timeline σ} {ticker : Ticker}
    (h : drive o p t = (.done (), t')) (hk : t'.tickers[k]? = some ticker) :
    t.resume o (.tick k p) = (t'.setTicker k ticker.finish).wakeAt t'.instant (.ticker k) := by
  rw [resume, h]
  dsimp only
  rw [finishTick, hk]

omit t in
theorem heeds_of_permits {t : Timeline σ} (timer : Timer) {p : Permit} (h : t.permits p = true)
    (isDue : Bool) : t.heeds o timer p isDue = false := by
  simp [heeds, h]

/-- A timer whose delay is over starts its recurring chore. -/
theorem lookAtShot_due {t : Timeline σ} {i : Nat} {s : OneShot} {period : Duration} {p : Permit}
    {c : Chore} (hs : t.shots[i]? = some s) (hdue : s.due ≤ t.instant) (hfresh : s.isOver = false)
    (hpermits : t.permits s.permit = true)
    (hperform : o.perform s.chore = Work.ask (.every period p c)) :
    t.lookAtShot o i = (t.setShot i s.stop).addTicker period p c := by
  have hdrive (t : Timeline σ) : drive o (Work.ask (.every period p c)) t =
      (.done (), t.addTicker period p c) :=
    (drive_atOnce o rfl).trans (drive_done o ..)
  rw [lookAtShot, hs]
  dsimp only
  rw [heeds_of_permits o _ hpermits]
  simp only [hfresh, Bool.false_eq_true, if_false, hdue, if_true]
  rw [fire, hperform]
  exact resume_chore_done o (hdrive _)

section Ticker

variable {t : Timeline σ} {k deadline : Nat} {ticker : Ticker}
  (hk : t.tickers[k]? = some ticker) (hphase : ticker.phase = .waiting deadline)
  (hpermits : t.permits ticker.permit = true)

include hk hphase hpermits

theorem lookAtTicker_ready (hready : deadline ≤ t.instant) : t.lookAtTicker o k =
    (t.setTicker k (ticker.begin t.instant)).spawn (.tick k (o.perform ticker.chore)) := by
  simp [lookAtTicker, hk, hphase, heeds_of_permits o _ hpermits, Ticker.isReady, hready]

theorem lookAtTicker_early (hearly : t.instant < deadline) :
    t.lookAtTicker o k = t.wakeAt deadline (.ticker k) := by
  simp [lookAtTicker, hk, hphase, heeds_of_permits o _ hpermits, Ticker.isReady,
    Nat.not_le.mpr hearly]

end Ticker

end Resume

section Run

variable {o : Outside σ} {t t' : Timeline σ}

theorem run_eq_some {α : Type} {p : Work α} {a : α} :
    t.run o p = (some a, t') ↔ drive o p t = (.done a, t') := by
  rw [run]
  rcases drive o p t with ⟨_ | _ | _, t''⟩ <;> simp

theorem run_bind_eq {α β : Type} (p : Work α) (f : α → Work β) :
    t.run o (p.bind f) = match t.run o p with
      | (some a, t') => t'.run o (f a)
      | (none, t') => (none, t') := by
  rw [run, run, drive_bind]
  rcases drive o p t with ⟨_ | _ | _, t'⟩ <;> rfl

/-- An activity in two parts that is run to its end. -/
theorem run_bind {α β : Type} {p : Work α} {f : α → Work β} {b : β}
    (h : t.run o (p.bind f) = (some b, t')) :
    ∃ a t₁, t.run o p = (some a, t₁) ∧ t₁.run o (f a) = (some b, t') := by
  rw [run_bind_eq] at h
  rcases hp : t.run o p with ⟨_ | a, t₁⟩ <;> rw [hp] at h
  · cases h
  · exact ⟨a, t₁, rfl, h⟩

/-- What an errand that is run to its end comes to. -/
theorem run_eq_ok {ε α : Type} {p : Work (Except ε α)} {a : α}
    (h : (t.run o p).1.bind Except.toOption = some a) : t.run o p = (some (.ok a), (t.run o p).2) := by
  obtain ⟨x, hx, ha⟩ := Option.bind_eq_some_iff.mp h
  cases x with
  | error => cases ha
  | ok a' => exact Prod.ext (hx.trans (congrArg (some ∘ Except.ok) (Option.some.inj ha))) rfl

theorem run_onSuccess {ε α β : Type} {p : Work (Except ε α)} {f : α → Work (Except ε β)} {b : β}
    (h : t.run o (p.onSuccess f) = (some (.ok b), t')) :
    ∃ a t₁, t.run o p = (some (.ok a), t₁) ∧ t₁.run o (f a) = (some (.ok b), t') := by
  obtain ⟨x, t₁, hp, hf⟩ := run_bind h
  cases x with
  | ok a => exact ⟨a, t₁, hp, hf⟩
  | error e =>
      rw [run_eq_some, drive_done] at hf
      cases hf

theorem run_ask {α : Type} {r : Work.Request} {f : r.Reply → Work α} {t₁ : Timeline σ} {x : r.Reply}
    (hr : t.perform o r = atOnce x t₁) : t.run o ((Work.ask r).bind f) = t₁.run o (f x) := by
  rw [run, run, drive_ask_bind o hr]

theorem run_done {α : Type} (a : α) : t.run o (.done a) = (some a, t) := by
  rw [run, drive_done]

section Call

variable {α : Type} {c : Store.Call} (f : Except Failure c.Answer → Work α)

theorem run_call_ok {a : c.Answer} (h : (o.store c t.outside).1 = some (.ok a)) :
    t.run o ((Work.call c).bind f) = (t.withOutside (o.store c t.outside).2).run o (f (.ok a)) := by
  have hperform : t.perform o (.store c) =
      atOnce (r := .store c) (.ok a) (t.withOutside (o.store c t.outside).2) := by
    simp only [perform, h]
    rfl
  exact run_ask hperform

theorem run_call_error {e : Store.Error} (h : (o.store c t.outside).1 = some (.error e)) :
    t.run o ((Work.call c).bind f) =
      (t.withOutside (o.store c t.outside).2).run o (f (.error (.store e))) := by
  have hperform : t.perform o (.store c) =
      atOnce (r := .store c) (.error e) (t.withOutside (o.store c t.outside).2) := by
    simp only [perform, h]
    rfl
  exact run_ask hperform

theorem run_call_dead (h : (o.store c t.outside).1 = none) :
    t.run o ((Work.call c).bind f) = (none, t.withOutside (o.store c t.outside).2) := by
  have hdrive : drive o ((Work.call c).bind f) t =
      (.dead, t.withOutside (o.store c t.outside).2) := by
    refine (drive_ask o (.store c) _ t).trans ?_
    simp only [perform, h]
    rfl
  rw [run, hdrive]

end Call

end Run

end Timeline

end Upkeep
