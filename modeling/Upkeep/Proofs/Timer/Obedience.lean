import Upkeep.Caretaker
import Upkeep.Proofs.Session.SweepWrites
import Upkeep.Proofs.Timer.Life

/-!
What lasts while all activities keep to a conduct. What they ask for keeps an invariant, on which the
replies depend; and all that waits to be done keeps to the conduct again.
-/

namespace Upkeep

section Chores

variable {σ ε : Type} {c : Conduct σ}

/-- What a caretaker does for a chore keeps to a conduct that lets it attempt, sleep and sweep, if
its provider does, and if it may set up the ticker. -/
theorem Caretaker.obeys_perform {k : Caretaker ε} (hattempt : ∀ d, c.safe (.attempt d))
    (hsleep : ∀ span, c.safe (.sleep span)) (hring : ∀ bell, c.safe (.ring bell))
    (hsweep : ∀ r, Sweep.Asks k.decode r → c.safe r)
    (hprovider : ∀ d, Work.Obeys c (k.provider d)) {chore : Chore}
    (hrecur : ∀ period p chore', chore = .recur period p chore' →
      c.safe (.every period p chore')) : Work.Obeys c (k.perform chore) := by
  cases chore with
  | refresh d =>
      exact Program.Keeps.bind (Agent.obtain_keeps (hattempt d) hsleep (hprovider d) k.retry)
        fun _ _ => trivial
  | sweep =>
      have hpass := (Sweep.pass_asks k.decode k.pageSize k.budget).mono_safe hsweep
      exact (hpass.mono_rely fun _ _ _ => trivial).bind fun _ _ => trivial
  | ring bell =>
      refine ⟨hring bell, fun goOn _ => ?_⟩
      cases goOn <;> trivial
  | recur period p chore' => exact ⟨hrecur period p chore' rfl, fun _ _ => trivial⟩

end Chores

namespace Timeline

variable {σ : Type}

/-- How far an activity has got, and that what is left of it keeps to what it is held to. -/
def Progress.Keeps {α : Type} (rely : (r : Work.Request) → r.Reply → Prop)
    (safe : Work.Request → Prop) (post : α → Prop) : Progress α → Prop
  | .done a => post a
  | .dead => True
  | .asleep _ rest => Program.Keeps (I := work) rely safe post rest

/-- An invariant that all safe requests keep is kept by an activity, whose replies it can rely on. -/
theorem drive_invariant {α : Type} (o : Outside σ) {rely : (r : Work.Request) → r.Reply → Prop}
    {safe : Work.Request → Prop} {post : α → Prop} (inv : Timeline σ → Prop)
    (hstep : ∀ r t, inv t → safe r → inv (perform o r t).timeline ∧
      ∀ x, (perform o r t).reply = some x → rely r x)
    {p : Work α} (hp : p.Keeps rely safe post) {t : Timeline σ} (ht : inv t) :
    inv (drive o p t).2 ∧ (drive o p t).1.Keeps rely safe post := by
  induction p generalizing t with
  | done a =>
      rw [drive_done]
      exact ⟨ht, hp⟩
  | abandon =>
      rw [drive_abandon]
      exact ⟨ht, trivial⟩
  | ask r next ih =>
      obtain ⟨hinv, hrely⟩ := hstep r t ht hp.1
      rw [show drive o (Program.ask r next) t = _ from drive_ask o r next t]
      cases hreply : (perform o r t).reply with
      | none =>
          refine ⟨hinv, ?_⟩
          by_cases hdelay : (perform o r t).delay = 0 <;> simp [hdelay, Progress.Keeps, Program.Keeps]
      | some x =>
          have hnext := hp.2 x (hrely x hreply)
          by_cases hdelay : (perform o r t).delay = 0
          · simp only [hdelay, if_true]
            exact ih x hnext hinv
          · simp only [hdelay, if_false]
            exact ⟨hinv, hnext⟩

/-- An invariant of what surrounds the activities, the registries and the permits of tickers, which
lasts while all activities keep to a conduct. -/
structure Upholds (o : Outside σ) (c : Conduct σ) (inv : Timeline σ → Prop) : Prop where
  congr : ∀ {t t' : Timeline σ}, inv t → t'.outside = t.outside → t'.registries = t.registries →
    t'.tickers.map Ticker.permit = t.tickers.map Ticker.permit → inv t'
  perform : ∀ r t, inv t → c.safe r → inv (perform o r t).timeline
  rely : ∀ r t, inv t → c.safe r → ∀ x, (t.perform o r).reply = some x → c.rely r x
  drift : ∀ t n s, inv t → c.drift t.outside s → inv { t with outside := s, instant := n }
  /-- Chores that may be started keep to the conduct themselves. -/
  launch : ∀ chore, c.safe (.launch chore) → Work.Obeys c (o.perform chore)
  after : ∀ delay p chore, c.safe (.after delay p chore) → Work.Obeys c (o.perform chore)
  every : ∀ period p chore, c.safe (.every period p chore) → Work.Obeys c (o.perform chore)

/-- All that waits to be done keeps to a conduct, except what a timer has still to start. -/
structure Minds (o : Outside σ) (c : Conduct σ) (but : Option Nat) (t : Timeline σ) : Prop where
  jobs : ∀ e ∈ t.events, ∀ j, e.wake = .job j → j.Obeys c
  shots : ∀ (i : Nat) s, t.shots[i]? = some s → s.isOver = false → but ≠ some i →
    Work.Obeys c (o.perform s.chore)
  tickers : ∀ (k : Nat) r, t.tickers[k]? = some r → Work.Obeys c (o.perform r.chore)

theorem map_permit_setTicker {t : Timeline σ} {k : Nat} {r r' : Ticker} (hr : t.tickers[k]? = some r)
    (hpermit : r'.permit = r.permit) :
    (t.setTicker k r').tickers.map Ticker.permit = t.tickers.map Ticker.permit := by
  refine List.ext_getElem? fun k' => ?_
  rw [Timeline.setTicker, List.getElem?_map, List.getElem?_map]
  by_cases hk : k = k'
  · subst hk
    rw [List.getElem?_set_self (List.getElem?_eq_some_iff.mp hr).1, hr]
    exact congrArg some hpermit
  · rw [List.getElem?_set_ne hk]

namespace Minds

variable {o : Outside σ} {c : Conduct σ} {but : Option Nat} {t t' : Timeline σ}

/-- Nothing is there that was not there before. -/
theorem mono (h : Minds o c but t) (hevents : ∀ e ∈ t'.events, e ∈ t.events)
    (hshots : t'.shots = t.shots) (htickers : t'.tickers = t.tickers) : Minds o c but t' :=
  ⟨fun e he => h.jobs e (hevents e he), hshots ▸ h.shots, htickers ▸ h.tickers⟩

theorem wakeAt (h : Minds o c but t) (due : Nat) {w : Wake} (hw : ∀ j, w = .job j → j.Obeys c) :
    Minds o c but (t.wakeAt due w) := by
  refine ⟨fun e he j hj => ?_, h.shots, h.tickers⟩
  rcases mem_wakeAt.mp he with rfl | he
  · exact hw j hj
  · exact h.jobs e he j hj

theorem wakeAt_shot (h : Minds o c but t) (due i : Nat) : Minds o c but (t.wakeAt due (.shot i)) :=
  h.wakeAt due nofun

theorem wakeAt_ticker (h : Minds o c but t) (due k : Nat) :
    Minds o c but (t.wakeAt due (.ticker k)) :=
  h.wakeAt due nofun

theorem addShot (h : Minds o c but t) (delay : Duration) (p : Permit) {chore : Chore}
    (hchore : Work.Obeys c (o.perform chore)) : Minds o c but (t.addShot delay p chore) := by
  have hadded : Minds o c but
      { t with shots := t.shots ++ [⟨delay, t.instant + delay.toNanos, p, chore, false⟩] } := by
    refine ⟨h.jobs, fun i s hs hfresh hbut => ?_, h.tickers⟩
    rcases getElem?_push_cases hs with hs | ⟨-, rfl⟩
    · exact h.shots i s hs hfresh hbut
    · exact hchore
  rw [Timeline.addShot]
  split
  · exact hadded
  · exact hadded.wakeAt_shot ..

theorem addTicker (h : Minds o c but t) (period : Duration) (p : Permit) {chore : Chore}
    (hchore : Work.Obeys c (o.perform chore)) : Minds o c but (t.addTicker period p chore) := by
  have hadded : Minds o c but
      { t with tickers := t.tickers ++ [.at t.instant period p chore] } := by
    refine ⟨h.jobs, h.shots, fun k r hr => ?_⟩
    rcases getElem?_push_cases hr with hr | ⟨-, rfl⟩
    · exact h.tickers k r hr
    · exact hchore
  rw [Timeline.addTicker]
  split
  · exact hadded
  · exact hadded.wakeAt_ticker ..

theorem setRegistry (h : Minds o c but t) (n : Nat) (r : Registry) :
    Minds o c but (t.setRegistry n r) := by
  refine ⟨h.jobs, fun i s hs hfresh hbut => ?_, fun k ticker hk => ?_⟩
  · have hi := (List.getElem?_eq_some_iff.mp hs).1
    rw [length_shots_setRegistry] at hi
    rcases shot_lapse_cases { t with registries := t.registries.set n r } _
      (List.getElem?_eq_getElem hi) with ⟨hsame, -⟩ | ⟨-, -, hstop⟩
    · cases Option.some.inj (hsame.symm.trans hs)
      exact h.shots i _ (List.getElem?_eq_getElem hi) hfresh hbut
    · cases Option.some.inj (hstop.symm.trans hs)
      cases hfresh
  · have hlt := (List.getElem?_eq_some_iff.mp hk).1
    rw [length_tickers_setRegistry] at hlt
    have hbefore := h.tickers k _ (List.getElem?_eq_getElem hlt)
    rcases ticker_lapse_cases { t with registries := t.registries.set n r } _
      (List.getElem?_eq_getElem hlt) with ⟨hsame, -⟩ | ⟨-, _, -, -, hstop⟩
    · cases Option.some.inj (hsame.symm.trans hk)
      exact hbefore
    · cases Option.some.inj (hstop.symm.trans hk)
      exact hbefore

/-- A timer that is over need not be left out. -/
theorem setShot {but' : Option Nat} (h : Minds o c but t) {i : Nat} {s : OneShot}
    (hover : s.isOver = true) (hbut : ∀ i', but = some i' → i' ≠ i → but' = some i') :
    Minds o c but' (t.setShot i s) := by
  refine ⟨h.jobs, fun i' s' hs' hfresh hbut' => ?_, h.tickers⟩
  by_cases hi : i = i'
  · subst hi
    have hlt := (List.getElem?_eq_some_iff.mp hs').1
    rw [Timeline.setShot, List.length_set] at hlt
    rw [Timeline.setShot, List.getElem?_set_self hlt] at hs'
    cases hs'
    cases hover.symm.trans hfresh
  · rw [Timeline.setShot, List.getElem?_set_ne hi] at hs'
    exact h.shots i' s' hs' hfresh fun heq => hbut' (hbut i' heq (Ne.symm hi))

theorem setTicker (h : Minds o c but t) {k : Nat} {r r' : Ticker} (hr : t.tickers[k]? = some r)
    (hchore : r'.chore = r.chore) : Minds o c but (t.setTicker k r') := by
  refine ⟨h.jobs, h.shots, fun k' r₀ hr₀ => ?_⟩
  by_cases hk : k = k'
  · subst hk
    rw [Timeline.setTicker, List.getElem?_set_self (List.getElem?_eq_some_iff.mp hr).1] at hr₀
    cases hr₀
    exact hchore ▸ h.tickers k r hr
  · rw [Timeline.setTicker, List.getElem?_set_ne hk] at hr₀
    exact h.tickers k' r₀ hr₀

section Upheld

variable {inv : Timeline σ → Prop} (hu : Upholds o c inv)

include hu

theorem perform (h : Minds o c but t) {r : Work.Request} (hr : c.safe r) :
    Minds o c but (t.perform o r).timeline := by
  cases r with
  | launch chore =>
      refine h.wakeAt _ fun j hj => ?_
      cases hj
      exact hu.launch chore hr
  | after delay p chore => exact h.addShot delay p (hu.after delay p chore hr)
  | every period p chore => exact h.addTicker period p (hu.every period p chore hr)
  | issue | enroll | strike | shut | clear => exact h.setRegistry _ _
  | _ => exact h.mono (fun _ he => he) rfl rfl

theorem drive (h : Minds o c but t) (hinv : inv t) {α : Type} {p : Work α} (hp : Work.Obeys c p) :
    (Minds o c but (Timeline.drive o p t).2 ∧ inv (Timeline.drive o p t).2) ∧
      (Timeline.drive o p t).1.Keeps c.rely c.safe fun _ => True :=
  drive_invariant o (fun t => Minds o c but t ∧ inv t)
    (fun r t ht hr => ⟨⟨ht.1.perform hu hr, hu.perform r t ht.2 hr⟩, hu.rely r t ht.2 hr⟩) hp
    ⟨h, hinv⟩

theorem finishTick (h : Minds o c but t) (hinv : inv t) (k : Nat) :
    Minds o c but (t.finishTick k) ∧ inv (t.finishTick k) := by
  rw [Timeline.finishTick]
  split
  next => exact ⟨h, hinv⟩
  next r hr =>
    refine ⟨(h.setTicker hr r.chore_finish).wakeAt_ticker .., hu.congr hinv rfl rfl ?_⟩
    exact map_permit_setTicker hr r.permit_finish

theorem resume (h : Minds o c but t) (hinv : inv t) {j : Job} (hj : j.Obeys c) :
    Minds o c but (t.resume o j) ∧ inv (t.resume o j) := by
  cases j with
  | chore p =>
      obtain ⟨⟨hm, hi⟩, hrest⟩ := h.drive hu hinv hj
      rw [Timeline.resume]
      generalize Timeline.drive o p t = result at hm hi hrest ⊢
      obtain ⟨_ | _ | ⟨span, rest⟩, t'⟩ := result
      · exact ⟨hm, hi⟩
      · exact ⟨hm, hi⟩
      · exact ⟨hm.wakeAt _ fun j hj => by cases hj; exact hrest, hu.congr hi rfl rfl rfl⟩
  | tick k p =>
      obtain ⟨⟨hm, hi⟩, hrest⟩ := h.drive hu hinv hj
      rw [Timeline.resume]
      generalize Timeline.drive o p t = result at hm hi hrest ⊢
      obtain ⟨_ | _ | ⟨span, rest⟩, t'⟩ := result
      · exact hm.finishTick hu hi k
      · exact hm.finishTick hu hi k
      · exact ⟨hm.wakeAt _ fun j hj => by cases hj; exact hrest, hu.congr hi rfl rfl rfl⟩
  | call caller p =>
      obtain ⟨⟨hm, hi⟩, hrest⟩ := h.drive hu hinv hj
      rw [Timeline.resume]
      generalize Timeline.drive o p t = result at hm hi hrest ⊢
      obtain ⟨_ | _ | ⟨span, rest⟩, t'⟩ := result
      · exact ⟨hm.mono (fun _ he => he) rfl rfl, hu.congr hi rfl rfl rfl⟩
      · exact ⟨hm.mono (fun _ he => he) rfl rfl, hu.congr hi rfl rfl rfl⟩
      · exact ⟨hm.wakeAt _ fun j hj => by cases hj; exact hrest, hu.congr hi rfl rfl rfl⟩

theorem lookAtShot (h : Minds o c but t) (hinv : inv t) {i : Nat} (hbut : but ≠ some i) :
    Minds o c but (t.lookAtShot o i) ∧ inv (t.lookAtShot o i) := by
  rw [Timeline.lookAtShot]
  split
  next => exact ⟨h, hinv⟩
  next s hs =>
    split
    next => exact ⟨h, hinv⟩
    next hfresh =>
      have hstopped : Minds o c but (t.setShot i s.stop) ∧ inv (t.setShot i s.stop) :=
        ⟨h.setShot rfl fun _ hi' _ => hi', hu.congr hinv rfl rfl rfl⟩
      split
      next => exact hstopped
      next =>
        split
        next =>
          exact hstopped.1.resume (j := .chore _) hu hstopped.2
            (h.shots i s hs (Bool.not_eq_true _ ▸ hfresh) hbut)
        next => exact ⟨h.wakeAt_shot .., hu.congr hinv rfl rfl rfl⟩

theorem lookAtTicker (h : Minds o c but t) (hinv : inv t) (k : Nat) :
    Minds o c but (t.lookAtTicker o k) ∧ inv (t.lookAtTicker o k) := by
  rw [Timeline.lookAtTicker]
  split
  next => exact ⟨h, hinv⟩
  next r hr =>
    split
    next deadline hphase =>
      split
      next =>
        exact ⟨h.setTicker hr rfl, hu.congr hinv rfl rfl (map_permit_setTicker hr rfl)⟩
      next =>
        split
        next =>
          refine ⟨(h.setTicker hr (r.chore_begin _)).wakeAt _ fun j hj => ?_,
            hu.congr hinv rfl rfl (map_permit_setTicker hr (r.permit_begin _))⟩
          cases hj
          exact h.tickers k r hr
        next => exact ⟨h.wakeAt_ticker .., hu.congr hinv rfl rfl rfl⟩
    next => exact ⟨h, hinv⟩

/-- What comes up is done as it should be, unless it is the timer that is left out. -/
theorem wake (h : Minds o c but t) (hinv : inv t) {w : Wake} (hw : ∀ j, w = .job j → j.Obeys c)
    (hbut : ∀ i, but = some i → w ≠ .shot i) : Minds o c but (t.wake o w) ∧ inv (t.wake o w) := by
  cases w with
  | job j => exact h.resume hu hinv (hw j rfl)
  | shot i => exact h.lookAtShot hu hinv fun hi => hbut i hi rfl
  | ticker k => exact h.lookAtTicker hu hinv k

/-- However a timeline goes on, all that waits keeps to the conduct, and the invariant lasts; or it is
the turn of the timer that is left out. -/
theorem goes (h : Minds o c but t) (hinv : inv t) (hstep : t.Goes o c t') :
    (Minds o c but t' ∧ inv t') ∨ ∃ i n es, but = some i ∧ t.events = ⟨n, .shot i⟩ :: es ∧
      t' = Timeline.lookAtShot o { t with events := es } i := by
  cases hstep with
  | next hnext =>
      obtain ⟨⟨n, w⟩, es, hevents, hdue, rfl⟩ := exists_of_step? hnext
      rw [Nat.max_eq_left hdue]
      have hpop : Minds o c but { t with events := es } :=
        h.mono (fun e he => hevents ▸ List.mem_cons_of_mem _ he) rfl rfl
      by_cases hw : ∃ i, but = some i ∧ w = .shot i
      · obtain ⟨i, hi, rfl⟩ := hw
        exact .inr ⟨i, n, es, hi, hevents, rfl⟩
      · refine .inl (hpop.wake hu (hu.congr hinv rfl rfl rfl)
          (h.jobs ⟨n, w⟩ (hevents ▸ List.mem_cons_self)) fun i hi heq => hw ⟨i, hi, heq⟩)
  | act hp => exact .inl (h.drive hu hinv hp).1
  | join hj => exact .inl ⟨h.wakeAt _ fun j hj' => by cases hj'; exact hj, hu.congr hinv rfl rfl rfl⟩
  | pass hle hdue hs => exact .inl ⟨h.mono (fun _ he => he) rfl rfl, hu.drift t _ _ hinv hs⟩

theorem goes_whole (h : Minds o c none t) (hinv : inv t) (hstep : t.Goes o c t') :
    Minds o c none t' ∧ inv t' :=
  (h.goes hu hinv hstep).resolve_right nofun

end Upheld

end Minds

end Timeline

end Upkeep
