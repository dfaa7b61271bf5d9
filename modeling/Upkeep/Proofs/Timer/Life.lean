import Mathlib.Logic.Relation
import Upkeep.Proofs.Timeline
import Upkeep.Proofs.Timer.Registry

/-!
How a timeline goes on, whatever happens. An activity adds timers, and has those lapse that sleep on
permits it withdraws; all else that becomes of a timer becomes of it when it is looked at, or when
its tick ends.
-/

namespace Upkeep

theorem Duration.toNanos_pos {span : Duration} (h : span.isZero = false) : 0 < span.toNanos := by
  refine Nat.pos_of_ne_zero fun hzero => ?_
  obtain ⟨hseconds, hnanos⟩ := Nat.add_eq_zero_iff.mp hzero
  have hseconds : span.seconds.toNat = 0 :=
    (Nat.mul_eq_zero.mp hseconds).resolve_right (by decide)
  rw [isZero, UInt64.toNat_inj.mp (hseconds.trans UInt64.toNat_zero.symm), hnanos] at h
  exact absurd h (by decide)

/-- What activities are held to: what they ask is safe as long as the replies can be relied on, and
what surrounds them only drifts in some ways as time passes. -/
structure Conduct (σ : Type) where
  rely : (r : Work.Request) → r.Reply → Prop
  safe : Work.Request → Prop
  drift : σ → σ → Prop

def Conduct.free {σ : Type} : Conduct σ := ⟨fun _ _ => True, fun _ => True, fun _ _ => True⟩

namespace Work

def Obeys {σ α : Type} (c : Conduct σ) (p : Work α) : Prop :=
  Program.Keeps (I := work) c.rely c.safe (fun _ => True) p

theorem obeys_free {σ α : Type} (p : Work α) : Obeys (Conduct.free : Conduct σ) p :=
  Program.keeps_true p

end Work

namespace Job

def Obeys {σ : Type} (c : Conduct σ) : Job → Prop
  | .chore p | .tick _ p => Work.Obeys c p
  | .call _ p => Work.Obeys c p

def isTick : Job → Bool
  | .tick .. => true
  | _ => false

end Job

namespace Ticker

variable (r : Ticker)

theorem begin_eq {deadline : Nat} (h : r.phase = .waiting deadline) (instant : Nat) :
    r.begin instant = { r with phase := .busy (nextDeadline r.period.toNanos deadline instant) } := by
  simp [begin, h]

theorem finish_eq {next : Nat} (h : r.phase = .busy next) :
    r.finish = { r with phase := .waiting next } := by
  simp [finish, h]

theorem finish_eq_self (h : ∀ next, r.phase ≠ .busy next) : r.finish = r := by
  unfold finish
  split
  next next hphase => exact absurd hphase (h next)
  next => rfl

theorem phase_finish_ne (next : Nat) : r.finish.phase ≠ .busy next := by
  unfold finish
  split
  next => simp
  next hnot => exact hnot next

/-- What a step makes of a ticker, by whether its permit is good after the step. -/
inductive Fate (isGood insists : Bool) (instant : Nat) (r : Ticker) : Ticker → Prop
  | same : Fate isGood insists instant r r
  | stopped (hlost : isGood = false) : Fate isGood insists instant r r.stop
  | begun {deadline : Nat} (hphase : r.phase = .waiting deadline) (hready : deadline ≤ instant)
      (hgoes : isGood = true ∨ insists = true) : Fate isGood insists instant r (r.begin instant)
  | finished {next : Nat} (hphase : r.phase = .busy next) : Fate isGood insists instant r r.finish

variable {r} {r' : Ticker} {isGood insists : Bool} {instant : Nat}

theorem Fate.permit_eq (h : Fate isGood insists instant r r') : r'.permit = r.permit := by
  cases h with
  | same | stopped => rfl
  | begun => exact r.permit_begin _
  | finished => exact r.permit_finish

theorem Fate.period_eq (h : Fate isGood insists instant r r') : r'.period = r.period := by
  cases h with
  | same | stopped => rfl
  | begun => exact r.period_begin _
  | finished => exact r.period_finish

end Ticker

namespace Timeline

variable {σ : Type}

/-- How a timeline goes on: an event that is due comes up; an activity is driven as far as it gets, or
begins beside the others; or time passes, no further than the next event. -/
inductive Goes (o : Outside σ) (c : Conduct σ) : Timeline σ → Timeline σ → Prop
  | next {t t' : Timeline σ} (h : t.step? o (some t.instant) = some t') : Goes o c t t'
  | act {t : Timeline σ} {α : Type} {p : Work α} (hp : Work.Obeys c p) : Goes o c t (drive o p t).2
  | join {t : Timeline σ} {j : Job} (hj : j.Obeys c) (htick : j.isTick = false) :
      Goes o c t (t.spawn j)
  | pass {t : Timeline σ} {n : Nat} {s : σ} (hle : t.instant ≤ n) (hdue : ∀ e ∈ t.events, n ≤ e.due)
      (hs : c.drift t.outside s) : Goes o c t { t with outside := s, instant := n }

def takeNext (o : Outside σ) (t : Timeline σ) : Timeline σ := (t.step? o (some t.instant)).getD t

namespace Goes

variable {o : Outside σ} {c : Conduct σ} {t : Timeline σ}

theorem takeNext (h : (t.step? o (some t.instant)).isSome = true) : t.Goes o c (t.takeNext o) := by
  obtain ⟨t', ht'⟩ := Option.isSome_iff_exists.mp h
  rw [Timeline.takeNext, ht']
  exact .next ht'

theorem run {α : Type} {p : Work α} (hp : Work.Obeys c p) : t.Goes o c (t.run o p).2 := by
  have hact : t.Goes o c (drive o p t).2 := .act hp
  rw [Timeline.run]
  generalize drive o p t = result at hact
  obtain ⟨_ | _ | _, t'⟩ := result <;> exact hact

/-- Time passes to an instant, and nothing else changes. -/
theorem pass_to {n : Nat} (hle : t.instant ≤ n) (hdue : ∀ e ∈ t.events.map Event.due, n ≤ e)
    (hs : c.drift t.outside t.outside) : t.Goes o c { t with instant := n } :=
  .pass hle (fun e he => hdue e.due (List.mem_map_of_mem he)) hs

end Goes

theorem not_le_of_getElem? {α : Type} {l : List α} {i : Nat} {a : α} (h : l[i]? = some a) :
    ¬ l.length ≤ i := Nat.not_le.mpr (List.getElem?_eq_some_iff.mp h).1

theorem mem_place {e e' : Event} {es : List Event} : e' ∈ place e es ↔ e' = e ∨ e' ∈ es := by
  induction es with
  | nil => simp [place]
  | cons e₀ es ih =>
      unfold place
      split
      · simp
      · simp only [List.mem_cons, ih]
        exact or_left_comm

theorem mem_wakeAt {t : Timeline σ} {due : Nat} {w : Wake} {e : Event} :
    e ∈ (t.wakeAt due w).events ↔ e = ⟨due, w⟩ ∨ e ∈ t.events := mem_place

theorem mem_addShot {t : Timeline σ} {delay : Duration} {p : Permit} {c : Chore} {e : Event}
    (he : e ∈ (t.addShot delay p c).events) : e ∈ t.events ∨ e.wake = .shot t.shots.length := by
  rw [addShot] at he
  split at he
  · exact .inl he
  · rcases mem_wakeAt.mp he with rfl | he
    · exact .inr rfl
    · exact .inl he

theorem mem_addTicker {t : Timeline σ} {period : Duration} {p : Permit} {c : Chore} {e : Event}
    (he : e ∈ (t.addTicker period p c).events) : e ∈ t.events ∨ e.wake = .ticker t.tickers.length := by
  rw [addTicker] at he
  split at he
  · exact .inl he
  · rcases mem_wakeAt.mp he with rfl | he
    · exact .inr rfl
    · exact .inl he

/-- What an activity does to a timeline whose timers are not fired by hand. Nothing that waits is
forgotten, and no permit becomes good again. Of the timers that were there, those that sleep stop when
they lose their permits. -/
structure Acts (t t' : Timeline σ) : Prop where
  instant : t'.instant = t.instant
  isManual : t'.isManual = false
  events : ∀ e ∈ t.events, e ∈ t'.events
  later : ∀ e ∈ t'.events, e ∈ t.events ∨ t.instant ≤ e.due
  permits : ∀ p, t'.permits p = true → t.permits p = true
  shots : ∀ (i : Nat) s, t.shots[i]? = some s →
    t'.shots[i]? = some s ∧ (t.permits s.permit = true →
        t'.permits s.permit = true ∨ s.due ≤ t.instant) ∨
      t.instant < s.due ∧ t'.permits s.permit = false ∧ t'.shots[i]? = some s.stop
  tickers : ∀ (k : Nat) r, t.tickers[k]? = some r →
    t'.tickers[k]? = some r ∧ (t.permits r.permit = true → t'.permits r.permit = true ∨
        ∀ deadline, r.phase = .waiting deadline → deadline ≤ t.instant) ∨
      ∃ deadline, r.phase = .waiting deadline ∧ t.instant < deadline ∧
        t'.permits r.permit = false ∧ t'.tickers[k]? = some r.stop
  /-- A timer that is new is looked at, and a ticker waits for a deadline to come. -/
  newShots : ∀ (i : Nat) s, t'.shots[i]? = some s → t.shots.length ≤ i →
    s.isOver = true ∨ t.instant ≤ s.due ∧ ⟨t.instant, .shot i⟩ ∈ t'.events
  newTickers : ∀ (k : Nat) r, t'.tickers[k]? = some r → t.tickers.length ≤ k →
    r.phase = .ended ∨ ∃ deadline, r.phase = .waiting deadline ∧ t.instant < deadline ∧
      ⟨t.instant, .ticker k⟩ ∈ t'.events

namespace Acts

variable {t t' t'' : Timeline σ}

theorem lost (h : Acts t t') {p : Permit} (hp : t.permits p = false) : t'.permits p = false :=
  Bool.eq_false_iff.mpr fun hp' => Bool.false_ne_true (hp.symm.trans (h.permits p hp'))

theorem trans (h : Acts t t') (h' : Acts t' t'') : Acts t t'' where
  instant := h'.instant.trans h.instant
  isManual := h'.isManual
  events e he := h'.events e (h.events e he)
  later e he := (h'.later e he).elim (h.later e) fun hdue => .inr (h.instant ▸ hdue)
  permits p hp := h.permits p (h'.permits p hp)
  shots i s hs := by
    rcases h.shots i s hs with ⟨hs', hkept⟩ | ⟨hsleeps, hlost, hs'⟩
    · rcases h'.shots i s hs' with ⟨hs'', hkept'⟩ | ⟨hsleeps, hlost, hs''⟩
      · exact .inl ⟨hs'', fun hp => (hkept hp).elim (fun hp' => h.instant ▸ hkept' hp') .inr⟩
      · exact .inr ⟨h.instant ▸ hsleeps, hlost, hs''⟩
    · refine .inr ⟨hsleeps, h'.lost hlost, ?_⟩
      rcases h'.shots i _ hs' with ⟨hs'', -⟩ | ⟨-, -, hs''⟩ <;> exact hs''
  tickers k r hr := by
    rcases h.tickers k r hr with ⟨hr', hkept⟩ | ⟨deadline, hphase, hsleeps, hlost, hr'⟩
    · rcases h'.tickers k r hr' with ⟨hr'', hkept'⟩ | ⟨deadline, hphase, hsleeps, hlost, hr''⟩
      · exact .inl ⟨hr'', fun hp => (hkept hp).elim (fun hp' => h.instant ▸ hkept' hp') .inr⟩
      · exact .inr ⟨deadline, hphase, h.instant ▸ hsleeps, hlost, hr''⟩
    · refine .inr ⟨deadline, hphase, hsleeps, h'.lost hlost, ?_⟩
      rcases h'.tickers k _ hr' with ⟨hr'', -⟩ | ⟨-, -, -, -, hr''⟩ <;> exact hr''
  newShots i s hs hi := by
    by_cases hlt : i < t'.shots.length
    · have hs' : t'.shots[i]? = some t'.shots[i] := List.getElem?_eq_getElem hlt
      have hnew := h.newShots i _ hs' hi
      rcases h'.shots i _ hs' with ⟨hsame, -⟩ | ⟨-, -, hstop⟩
      · rw [Option.some.inj (hsame.symm.trans hs)] at hnew
        exact hnew.imp_right fun ⟨hdue, hlook⟩ => ⟨hdue, h'.events _ hlook⟩
      · rw [← Option.some.inj (hstop.symm.trans hs)]
        exact .inl rfl
    · exact h.instant ▸ h'.newShots i s hs (Nat.not_lt.mp hlt)
  newTickers k r hr hk := by
    by_cases hlt : k < t'.tickers.length
    · have hr' : t'.tickers[k]? = some t'.tickers[k] := List.getElem?_eq_getElem hlt
      have hnew := h.newTickers k _ hr' hk
      rcases h'.tickers k _ hr' with ⟨hsame, -⟩ | ⟨-, -, -, -, hstop⟩
      · rw [Option.some.inj (hsame.symm.trans hr)] at hnew
        exact hnew.imp_right fun ⟨deadline, hphase, hdue, hlook⟩ =>
          ⟨deadline, hphase, hdue, h'.events _ hlook⟩
      · rw [← Option.some.inj (hstop.symm.trans hr)]
        exact .inl rfl
    · exact h.instant ▸ h'.newTickers k r hr (Nat.not_lt.mp hlt)

/-- Timers and events are added, and all else stays. -/
theorem of_added (hinstant : t'.instant = t.instant) (hmanual : t'.isManual = false)
    (hpermits : ∀ p, t'.permits p = t.permits p)
    (hevents : ∀ e, e ∈ t.events → e ∈ t'.events)
    (hlater : ∀ e, e ∈ t'.events → e ∈ t.events ∨ t.instant ≤ e.due)
    (hshots : ∀ (i : Nat) s, t.shots[i]? = some s → t'.shots[i]? = some s)
    (htickers : ∀ (k : Nat) r, t.tickers[k]? = some r → t'.tickers[k]? = some r)
    (hnewShots : ∀ (i : Nat) s, t'.shots[i]? = some s → t.shots.length ≤ i →
      s.isOver = true ∨ t.instant ≤ s.due ∧ ⟨t.instant, .shot i⟩ ∈ t'.events)
    (hnewTickers : ∀ (k : Nat) r, t'.tickers[k]? = some r → t.tickers.length ≤ k →
      r.phase = .ended ∨ ∃ deadline, r.phase = .waiting deadline ∧ t.instant < deadline ∧
        ⟨t.instant, .ticker k⟩ ∈ t'.events) : Acts t t' where
  instant := hinstant
  isManual := hmanual
  events := hevents
  later := hlater
  permits p hp := hpermits p ▸ hp
  shots i s hs := .inl ⟨hshots i s hs, fun hp => .inl ((hpermits _).trans hp)⟩
  tickers k r hr := .inl ⟨htickers k r hr, fun hp => .inl ((hpermits _).trans hp)⟩
  newShots := hnewShots
  newTickers := hnewTickers

section Request

variable (hm : t.isManual = false)

include hm

theorem of_same (hinstant : t'.instant = t.instant) (hmanual : t'.isManual = t.isManual)
    (hpermits : ∀ p, t'.permits p = t.permits p)
    (hevents : ∀ e, e ∈ t.events → e ∈ t'.events)
    (hlater : ∀ e, e ∈ t'.events → e ∈ t.events ∨ t.instant ≤ e.due)
    (hshots : t'.shots = t.shots) (htickers : t'.tickers = t.tickers) : Acts t t' :=
  of_added hinstant (hmanual.trans hm) hpermits hevents hlater (fun _ _ hs => hshots ▸ hs)
    (fun _ _ hr => htickers ▸ hr)
    (fun _ _ hs hi => absurd hi (not_le_of_getElem? (hshots ▸ hs)))
    fun _ _ hr hk => absurd hk (not_le_of_getElem? (htickers ▸ hr))

theorem refl : Acts t t :=
  of_same hm rfl rfl (fun _ => rfl) (fun _ he => he) (fun _ he => .inl he) rfl rfl

theorem wakeAt {due : Nat} (hdue : t.instant ≤ due) (w : Wake) : Acts t (t.wakeAt due w) :=
  of_same hm rfl rfl (fun _ => rfl) (fun _ he => mem_wakeAt.mpr (.inr he))
    (fun _ he => (mem_wakeAt.mp he).elim (fun heq => .inr (heq ▸ hdue)) .inl) rfl rfl

theorem withOutside (s : σ) : Acts t (t.withOutside s) :=
  of_same hm rfl rfl (fun _ => rfl) (fun _ he => he) (fun _ he => .inl he) rfl rfl

theorem addAnswer (caller : Nat) (result : Option (Except Unavailable Agent)) :
    Acts t (t.addAnswer caller result) :=
  of_same hm rfl rfl (fun _ => rfl) (fun _ he => he) (fun _ he => .inl he) rfl rfl

theorem addShot (delay : Duration) (p : Permit) (c : Chore) : Acts t (t.addShot delay p c) := by
  rw [addShot_eq hm]
  refine of_added rfl hm (fun _ => rfl) (fun _ he => mem_wakeAt.mpr (.inr he))
    (fun _ he => (mem_wakeAt.mp he).elim (fun heq => .inr (heq ▸ Nat.le_refl _)) .inl)
    (fun _ _ hs => getElem?_push hs _) (fun _ _ hr => hr) (fun i s hs hi => ?_)
    fun _ _ hr hk => absurd hk (not_le_of_getElem? hr)
  rcases getElem?_push_cases hs with hs | ⟨rfl, rfl⟩
  · exact absurd hi (not_le_of_getElem? hs)
  · exact .inr ⟨Nat.le_add_right .., mem_wakeAt.mpr (.inl rfl)⟩

theorem addTicker (period : Duration) (p : Permit) (c : Chore) : Acts t (t.addTicker period p c) := by
  rw [addTicker_eq hm]
  refine of_added rfl hm (fun _ => rfl) (fun _ he => mem_wakeAt.mpr (.inr he))
    (fun _ he => (mem_wakeAt.mp he).elim (fun heq => .inr (heq ▸ Nat.le_refl _)) .inl)
    (fun _ _ hs => hs) (fun _ _ hr => getElem?_push hr _)
    (fun _ _ hs hi => absurd hi (not_le_of_getElem? hs)) fun k r hr hk => ?_
  rcases getElem?_push_cases hr with hr | ⟨rfl, rfl⟩
  · exact absurd hk (not_le_of_getElem? hr)
  · cases hzero : period.isZero with
    | true => exact .inl (by simp [Ticker.at, hzero])
    | false =>
        refine .inr ⟨t.instant + period.toNanos, by simp [Ticker.at, hzero], ?_,
          mem_wakeAt.mpr (.inl rfl)⟩
        exact Nat.lt_add_of_pos_right (Duration.toNanos_pos hzero)

theorem openRegistry : Acts t t.openRegistry.2 := by
  refine of_same hm rfl rfl (fun p => ?_) (fun _ he => he) (fun _ he => .inl he) rfl rfl
  rcases Nat.lt_trichotomy p.registry t.registries.length with hlt | heq | hgt
  · rw [Timeline.permits, Timeline.permits, registry_openRegistry hlt]
  · simp [Timeline.permits, registry, Timeline.openRegistry, heq]
  · have hnone : t.registries[p.registry]? = none := List.getElem?_eq_none (Nat.le_of_lt hgt)
    have hnone' : (t.registries ++ [Registry.empty])[p.registry]? = none :=
      List.getElem?_eq_none (Nat.le_trans (by simp) hgt)
    simp [Timeline.permits, registry, Timeline.openRegistry, hnone, hnone']

omit hm in
theorem permits_setRegistry {n : Nat} {r : Registry}
    (hr : ∀ serial, r.permits serial = true → (t.registry n).permits serial = true) (p : Permit)
    (hp : (t.setRegistry n r).permits p = true) : t.permits p = true := by
  by_cases hn : n = p.registry
  · subst hn
    by_cases hlt : p.registry < t.registries.length
    · rw [Timeline.permits, registry_setRegistry hlt] at hp
      exact hr _ hp
    · have hnone : t.registries[p.registry]? = none :=
        List.getElem?_eq_none (Nat.not_lt.mp hlt)
      simp [Timeline.permits, registry, hnone, Registry.permits, Registry.empty]
  · rwa [Timeline.permits, registry_setRegistry_of_ne t hn] at hp

/-- A registry in which no permit becomes good again takes the place of another. -/
theorem setRegistry {n : Nat} {r : Registry}
    (hr : ∀ serial, r.permits serial = true → (t.registry n).permits serial = true) :
    Acts t (t.setRegistry n r) where
  instant := rfl
  isManual := hm
  events _ he := he
  later _ he := .inl he
  permits := permits_setRegistry hr
  shots i s hs := by
    rcases shot_lapse_cases { t with registries := t.registries.set n r }
      (fun p => !t.isManual && t.permits p && !(t.setRegistry n r).permits p) hs with
      ⟨hsame, hkept⟩ | ⟨hlost, hsleeps, hstop⟩
    · refine .inl ⟨hsame, fun hp => ?_⟩
      cases hp' : (t.setRegistry n r).permits s.permit with
      | true => exact .inl rfl
      | false => exact .inr (hkept (by simp [hm, hp, hp']))
    · simp only [Bool.and_eq_true, Bool.not_eq_true'] at hlost
      exact .inr ⟨hsleeps, hlost.2, hstop⟩
  tickers k ticker hk := by
    rcases ticker_lapse_cases { t with registries := t.registries.set n r }
      (fun p => !t.isManual && t.permits p && !(t.setRegistry n r).permits p) hk with
      ⟨hsame, hkept⟩ | ⟨hlost, deadline, hphase, hsleeps, hstop⟩
    · refine .inl ⟨hsame, fun hp => ?_⟩
      cases hp' : (t.setRegistry n r).permits ticker.permit with
      | true => exact .inl rfl
      | false => exact .inr (hkept (by simp [hm, hp, hp']))
    · simp only [Bool.and_eq_true, Bool.not_eq_true'] at hlost
      exact .inr ⟨deadline, hphase, hsleeps, hlost.2, hstop⟩
  newShots i s hs hi := by
    have hlt := (List.getElem?_eq_some_iff.mp hs).1
    rw [length_shots_setRegistry] at hlt
    exact absurd hlt (Nat.not_lt.mpr hi)
  newTickers k r' hr' hk := by
    have hlt := (List.getElem?_eq_some_iff.mp hr').1
    rw [length_tickers_setRegistry] at hlt
    exact absurd hlt (Nat.not_lt.mpr hk)

theorem perform (o : Outside σ) (r : Work.Request) : Acts t (t.perform o r).timeline := by
  cases r with
  | store | exchange | attempt | consult | ring => exact withOutside hm _
  | now | sleep | enrolled => exact refl hm
  | launch => exact wakeAt hm (Nat.le_refl _) _
  | after delay p c => exact addShot hm delay p c
  | every period p c => exact addTicker hm period p c
  | openRegistry => exact openRegistry hm
  | issue | clear => exact setRegistry hm fun _ hp => hp
  | enroll n d => exact setRegistry hm fun _ => Registry.permits_of_enroll
  | strike n d => exact setRegistry hm fun _ => Registry.permits_of_strike
  | shut n => exact setRegistry hm fun serial hp => by simp at hp

theorem drive (o : Outside σ) {α : Type} (p : Work α) : Acts t (Timeline.drive o p t).2 :=
  (drive_keeps o (fun t t' => t.isManual = false → Acts t t') (fun _ hm => refl hm)
    (fun _ _ _ h h' hm => (h hm).trans (h' (h hm).isManual)) (fun _ => True)
    (fun r _ _ hm => perform hm o r) (Program.keeps_true p) t).1 hm

/-- An activity that is no tick is gone on with. -/
theorem resume (o : Outside σ) {j : Job} (hj : j.isTick = false) : Acts t (t.resume o j) := by
  cases j with
  | tick => cases hj
  | chore p =>
      have ha := drive hm o p
      rw [Timeline.resume]
      generalize Timeline.drive o p t = result at ha ⊢
      obtain ⟨_ | _ | ⟨span, rest⟩, t'⟩ := result
      · exact ha
      · exact ha
      · exact ha.trans (wakeAt ha.isManual (Nat.le_add_right ..) _)
  | call caller p =>
      have ha := drive hm o p
      rw [Timeline.resume]
      generalize Timeline.drive o p t = result at ha ⊢
      obtain ⟨_ | _ | ⟨span, rest⟩, t'⟩ := result
      · exact ha.trans (addAnswer ha.isManual ..)
      · exact ha.trans (addAnswer ha.isManual ..)
      · exact ha.trans (wakeAt ha.isManual (Nat.le_add_right ..) _)

end Request

end Acts

/-- A timeline whose tickers are those of another, each of them as its fate has it, and new ones that
wait for a deadline to come. -/
structure Fares (o : Outside σ) (t t' : Timeline σ) : Prop where
  instant : t'.instant = t.instant
  permits : ∀ p, t'.permits p = true → t.permits p = true
  tickers : ∀ (k : Nat) r, t.tickers[k]? = some r → ∃ r', t'.tickers[k]? = some r' ∧
    r.Fate (t'.permits r.permit) (o.insists (.ticker k) t'.instant t'.outside) t'.instant r'
  newTickers : ∀ (k : Nat) r, t'.tickers[k]? = some r → t.tickers.length ≤ k →
    r.phase = .ended ∨ ∃ deadline, r.phase = .waiting deadline ∧ t'.instant < deadline

namespace Fares

variable {o : Outside σ} {c : Conduct σ} {t t' : Timeline σ}

theorem of_acts (ha : Acts t t') : Fares o t t' where
  instant := ha.instant
  permits := ha.permits
  tickers k r hr := by
    rcases ha.tickers k r hr with ⟨hsame, -⟩ | ⟨-, -, -, hlost, hstop⟩
    · exact ⟨r, hsame, .same⟩
    · exact ⟨r.stop, hstop, .stopped hlost⟩
  newTickers k r hr hk := (ha.newTickers k r hr hk).imp_right fun ⟨deadline, hphase, hlt, _⟩ =>
    ⟨deadline, hphase, ha.instant ▸ hlt⟩

/-- A ticker is changed as its fate has it, and the others stay. -/
theorem setTicker {k : Nat} {r r' : Ticker} (hr : t.tickers[k]? = some r)
    (hfate : r.Fate (t.permits r.permit) (o.insists (.ticker k) t.instant t.outside) t.instant r') :
    Fares o t (t.setTicker k r') where
  instant := rfl
  permits _ hp := hp
  tickers k' r₀ hr₀ := by
    by_cases hk : k = k'
    · subst hk
      cases Option.some.inj (hr.symm.trans hr₀)
      exact ⟨r', List.getElem?_set_self (List.getElem?_eq_some_iff.mp hr).1, hfate⟩
    · exact ⟨r₀, (List.getElem?_set_ne hk).trans hr₀, .same⟩
  newTickers k' r₀ hr₀ hk' := by
    have hlt := (List.getElem?_eq_some_iff.mp hr₀).1
    rw [Timeline.setTicker, List.length_set] at hlt
    exact absurd hlt (Nat.not_lt.mpr hk')

theorem wakeAt (h : Fares o t t') (due : Nat) (w : Wake) : Fares o t (t'.wakeAt due w) :=
  ⟨h.instant, h.permits, h.tickers, h.newTickers⟩

/-- After an activity its tick ends. -/
theorem finishTick (ha : Acts t t') (k : Nat) : Fares o t (t'.finishTick k) := by
  rw [Timeline.finishTick]
  split
  next => exact of_acts ha
  next r hr =>
    suffices hset : Fares o t (t'.setTicker k r.finish) from hset.wakeAt _ _
    refine ⟨ha.instant, ha.permits, fun k' r₀ hr₀ => ?_, fun k' r₀ hr₀ hk' => ?_⟩
    · by_cases hk : k = k'
      · subst hk
        have hlt := (List.getElem?_eq_some_iff.mp hr).1
        refine ⟨r.finish, List.getElem?_set_self hlt, ?_⟩
        rcases ha.tickers k r₀ hr₀ with ⟨hsame, -⟩ | ⟨-, -, -, hlost, hstop⟩
        · cases Option.some.inj (hsame.symm.trans hr)
          by_cases hbusy : ∃ next, r.phase = .busy next
          · obtain ⟨next, hphase⟩ := hbusy
            exact .finished hphase
          · rw [r.finish_eq_self fun next hphase => hbusy ⟨next, hphase⟩]
            exact .same
        · cases Option.some.inj (hstop.symm.trans hr)
          exact .stopped hlost
      · obtain ⟨r', hr', hfate⟩ := (of_acts (o := o) ha).tickers k' r₀ hr₀
        exact ⟨r', (List.getElem?_set_ne hk).trans hr', hfate⟩
    · by_cases hk : k = k'
      · subst hk
        have hlt := (List.getElem?_eq_some_iff.mp hr).1
        cases (List.getElem?_set_self hlt).symm.trans hr₀
        rcases ha.newTickers k r hr hk' with hended | ⟨deadline, hphase, hlt, -⟩
        · rw [r.finish_eq_self fun next hphase => by cases hended.symm.trans hphase]
          exact .inl hended
        · rw [r.finish_eq_self fun next hphase' => by cases hphase.symm.trans hphase']
          exact .inr ⟨deadline, hphase, show t'.instant < deadline from ha.instant ▸ hlt⟩
      · exact (of_acts (o := o) ha).newTickers k' r₀ ((List.getElem?_set_ne hk).symm.trans hr₀) hk'

variable (hm : t.isManual = false)

include hm

theorem resume (j : Job) : Fares o t (t.resume o j) := by
  cases j with
  | chore | call => exact of_acts (.resume hm o rfl)
  | tick k p =>
      have ha := Acts.drive hm o p
      rw [Timeline.resume]
      generalize Timeline.drive o p t = result at ha ⊢
      obtain ⟨_ | _ | ⟨span, rest⟩, t'⟩ := result
      · exact finishTick ha k
      · exact finishTick ha k
      · exact (of_acts ha).wakeAt _ _

theorem lookAtShot (i : Nat) : Fares o t (t.lookAtShot o i) := by
  have hsame : Fares o t t := of_acts (.refl hm)
  rw [Timeline.lookAtShot]
  split
  next => exact hsame
  next s hs =>
    split
    next => exact hsame
    next =>
      split
      next => exact ⟨rfl, hsame.permits, hsame.tickers, hsame.newTickers⟩
      next =>
        split
        next =>
          have hfired : Fares o (t.setShot i s.stop) (t.fire o i s) :=
            resume (t := t.setShot i s.stop) hm _
          exact ⟨hfired.instant, hfired.permits, hfired.tickers, hfired.newTickers⟩
        next => exact hsame.wakeAt _ _

theorem lookAtTicker (k : Nat) : Fares o t (t.lookAtTicker o k) := by
  rw [Timeline.lookAtTicker]
  split
  next => exact of_acts (.refl hm)
  next r hr =>
    split
    next deadline hphase =>
      split
      next hheeds =>
        simp only [heeds, Bool.and_eq_true, Bool.not_eq_true'] at hheeds
        exact setTicker hr (.stopped hheeds.1)
      next hheeds =>
        split
        next hready =>
          have hdue : deadline ≤ t.instant := by simpa [Ticker.isReady, hphase] using hready
          refine (setTicker hr (.begun hphase hdue ?_)).wakeAt _ _
          simpa [heeds, hready, Decidable.or_iff_not_imp_left] using hheeds
        next => exact (of_acts (.refl hm)).wakeAt _ _
    next => exact of_acts (.refl hm)

theorem wake (w : Wake) : Fares o t (t.wake o w) := by
  cases w with
  | job j => exact resume hm j
  | shot i => exact lookAtShot hm i
  | ticker k => exact lookAtTicker hm k

end Fares

/-- Either no time passes, and tickers fare, or nothing else happens and no event is missed. -/
theorem Goes.fares {o : Outside σ} {c : Conduct σ} {t t' : Timeline σ} (hm : t.isManual = false)
    (hstep : t.Goes o c t') : Fares o t t' ∨ ∃ n s, t' = { t with outside := s, instant := n } ∧
      t.instant ≤ n ∧ ∀ e ∈ t.events, n ≤ e.due := by
  cases hstep with
  | next h =>
      obtain ⟨e, es, hevents, hdue, rfl⟩ := exists_of_step? h
      rw [Nat.max_eq_left hdue]
      have hw : Fares o _ _ := .wake (t := { t with events := es }) hm e.wake
      exact .inl ⟨hw.instant, hw.permits, hw.tickers, hw.newTickers⟩
  | act => exact .inl (.of_acts (.drive hm o _))
  | join => exact .inl (.of_acts (.wakeAt hm (Nat.le_refl _) _))
  | @pass n s hle hdue => exact .inr ⟨n, s, rfl, hle, hdue⟩

/-- A permit that is good was good before. -/
theorem Goes.permits {o : Outside σ} {c : Conduct σ} {t t' : Timeline σ} (hm : t.isManual = false)
    (hstep : t.Goes o c t') {p : Permit} (hp : t'.permits p = true) : t.permits p = true := by
  rcases hstep.fares hm with hfares | ⟨n, s, rfl, -, -⟩
  · exact hfares.permits p hp
  · exact hp

theorem Acts.shot {t t' : Timeline σ} (ha : Acts t t') {i : Nat} {s : OneShot}
    (hs : t.shots[i]? = some s) : t'.shots[i]? = some s ∨ t'.permits s.permit = false :=
  (ha.shots i s hs).imp And.left fun hlost => hlost.2.1

/-- A shot stays as it is until it is looked at, or loses its permit. -/
theorem shot_wake (o : Outside σ) {t : Timeline σ} (hm : t.isManual = false) {i : Nat} {s : OneShot}
    (hs : t.shots[i]? = some s) {w : Wake} (hw : w ≠ .shot i) :
    (t.wake o w).shots[i]? = some s ∨ (t.wake o w).permits s.permit = false := by
  cases w with
  | job j =>
      cases j with
      | chore p => exact (Acts.resume (j := .chore p) hm o rfl).shot hs
      | call caller p => exact (Acts.resume (j := .call caller p) hm o rfl).shot hs
      | tick k p =>
          have hkept := (Acts.drive hm o p).shot hs
          rw [wake, resume]
          generalize drive o p t = result at hkept ⊢
          obtain ⟨_ | _ | ⟨span, rest⟩, t'⟩ := result
          · simpa using hkept
          · simpa using hkept
          · exact hkept
  | shot i' =>
      have hne : i' ≠ i := fun heq => hw (congrArg Wake.shot heq)
      have hother (s' : OneShot) : (t.setShot i' s').shots[i]? = some s :=
        (List.getElem?_set_ne hne).trans hs
      rw [wake, lookAtShot]
      split
      next => exact .inl hs
      next s' hs' =>
        split
        next => exact .inl hs
        next =>
          split
          next => exact .inl (hother _)
          next =>
            split
            next =>
              have ha : Acts (t.setShot i' s'.stop) (t.fire o i' s') :=
                .resume (t := t.setShot i' s'.stop) hm o rfl
              exact ha.shot (hother _)
            next => exact .inl hs
  | ticker k =>
      rw [wake, lookAtTicker]
      split
      next => exact .inl hs
      next =>
        split
        next =>
          split
          next => exact .inl hs
          next => split <;> exact .inl hs
        next => exact .inl hs

theorem Goes.shot {o : Outside σ} {c : Conduct σ} {t t' : Timeline σ} (hm : t.isManual = false)
    {i : Nat} {s : OneShot} (hs : t.shots[i]? = some s) (hstep : t.Goes o c t') :
    t'.shots[i]? = some s ∨ t'.permits s.permit = false ∨ ∃ n es,
      t.events = ⟨n, .shot i⟩ :: es ∧ t' = lookAtShot o { t with events := es } i := by
  cases hstep with
  | next h =>
      obtain ⟨⟨n, w⟩, es, hevents, hdue, rfl⟩ := exists_of_step? h
      rw [Nat.max_eq_left hdue]
      by_cases hw : w = .shot i
      · subst hw
        exact .inr (.inr ⟨n, es, hevents, rfl⟩)
      · exact (shot_wake o (t := { t with events := es }) hm hs hw).imp_right .inl
  | act _ => exact ((Acts.drive hm o _).shot hs).imp_right .inl
  | join | pass => exact .inl hs

def Begins (k : Nat) (t t' : Timeline σ) : Prop :=
  ∃ r deadline r' next, t.tickers[k]? = some r ∧ r.phase = .waiting deadline ∧
    t'.tickers[k]? = some r' ∧ r'.phase = .busy next

theorem begins_of_phases {k : Nat} (deadline next : Nat) {t t' : Timeline σ}
    (h : t.tickers[k]?.map Ticker.phase = some (.waiting deadline))
    (h' : t'.tickers[k]?.map Ticker.phase = some (.busy next)) : Begins k t t' := by
  obtain ⟨r, hr, hphase⟩ := Option.map_eq_some_iff.mp h
  obtain ⟨r', hr', hphase'⟩ := Option.map_eq_some_iff.mp h'
  exact ⟨r, deadline, r', next, hr, hphase, hr', hphase'⟩

end Timeline

end Upkeep
