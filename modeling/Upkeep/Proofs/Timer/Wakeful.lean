import Upkeep.Proofs.Timer.Life

/-!
Timelines on which nothing that waits is forgotten: whatever a timer waits for is among the events,
no later than it is due, and at once when its permit is withdrawn. So time cannot pass a timer by.
-/

namespace Upkeep

/-- What a timer can wait for: to be looked at, or that its tick ends. -/
inductive Slot where
  | shot (index : Nat)
  | look (index : Nat)
  | tick (index : Nat)

def Wake.slot? : Wake → Option Slot
  | .job (.tick k _) => some (.tick k)
  | .job _ => none
  | .shot i => some (.shot i)
  | .ticker k => some (.look k)

namespace Timeline

variable {σ : Type} {t t' : Timeline σ}

def InTime (t : Timeline σ) (p : Permit) (due : Nat) (n : Nat) : Prop :=
  n ≤ t.instant ∨ n ≤ due ∧ t.permits p = true

def Awaits (t : Timeline σ) : Slot → Prop
  | .shot i => ∀ s, t.shots[i]? = some s → s.isOver = false →
      ∃ n, ⟨n, .shot i⟩ ∈ t.events ∧ t.InTime s.permit s.due n
  | .look k => ∀ r deadline, t.tickers[k]? = some r → r.phase = .waiting deadline →
      ∃ n, ⟨n, .ticker k⟩ ∈ t.events ∧ t.InTime r.permit deadline n
  | .tick k => ∀ r next, t.tickers[k]? = some r → r.phase = .busy next →
      ∃ n p, ⟨n, .job (.tick k p)⟩ ∈ t.events

/-- All that is waited for is among the events, except in some slots, and none of it is late. -/
structure Wakeful (but : Option Slot) (t : Timeline σ) : Prop where
  isManual : t.isManual = false
  due : ∀ e ∈ t.events, t.instant ≤ e.due
  awaits : ∀ slot, but ≠ some slot → t.Awaits slot

theorem wakeful_start (s : σ) : Wakeful none (start s false) where
  isManual := rfl
  due _ he := nomatch he
  awaits slot _ := by
    cases slot with
    | shot => exact fun _ hs => nomatch hs
    | look | tick => exact fun _ _ hr => nomatch hr

theorem Acts.inTime (ha : Acts t t') {p : Permit} {due n : Nat} (h : t.InTime p due n)
    (hkept : t.permits p = true → t'.permits p = true ∨ due ≤ t.instant) : t'.InTime p due n := by
  rw [InTime, ha.instant]
  rcases h with h | ⟨hn, hp⟩
  · exact .inl h
  · exact (hkept hp).elim (fun hp' => .inr ⟨hn, hp'⟩) fun hdue => .inl (Nat.le_trans hn hdue)

theorem Awaits.acts {slot : Slot} (h : t.Awaits slot) (ha : Acts t t') : t'.Awaits slot := by
  cases slot with
  | shot i =>
      intro s hs hfresh
      by_cases hlt : i < t.shots.length
      · have hs₀ : t.shots[i]? = some t.shots[i] := List.getElem?_eq_getElem hlt
        rcases ha.shots i _ hs₀ with ⟨hsame, hkept⟩ | ⟨-, -, hstop⟩
        · cases Option.some.inj (hsame.symm.trans hs)
          obtain ⟨n, hn, hin⟩ := h _ hs₀ hfresh
          exact ⟨n, ha.events _ hn, ha.inTime hin hkept⟩
        · cases Option.some.inj (hstop.symm.trans hs)
          cases hfresh
      · rcases ha.newShots i s hs (Nat.not_lt.mp hlt) with hover | ⟨-, hlook⟩
        · exact nomatch hover.symm.trans hfresh
        · exact ⟨_, hlook, .inl (Nat.le_of_eq ha.instant.symm)⟩
  | look k =>
      intro r deadline hr hphase
      by_cases hlt : k < t.tickers.length
      · have hr₀ : t.tickers[k]? = some t.tickers[k] := List.getElem?_eq_getElem hlt
        rcases ha.tickers k _ hr₀ with ⟨hsame, hkept⟩ | ⟨-, -, -, -, hstop⟩
        · cases Option.some.inj (hsame.symm.trans hr)
          obtain ⟨n, hn, hin⟩ := h _ _ hr₀ hphase
          exact ⟨n, ha.events _ hn, ha.inTime hin fun hp => (hkept hp).imp_right (· _ hphase)⟩
        · cases Option.some.inj (hstop.symm.trans hr)
          cases hphase
      · rcases ha.newTickers k r hr (Nat.not_lt.mp hlt) with hended | ⟨-, -, -, hlook⟩
        · exact nomatch hended.symm.trans hphase
        · exact ⟨_, hlook, .inl (Nat.le_of_eq ha.instant.symm)⟩
  | tick k =>
      intro r next hr hphase
      by_cases hlt : k < t.tickers.length
      · have hr₀ : t.tickers[k]? = some t.tickers[k] := List.getElem?_eq_getElem hlt
        rcases ha.tickers k _ hr₀ with ⟨hsame, -⟩ | ⟨-, -, -, -, hstop⟩
        · cases Option.some.inj (hsame.symm.trans hr)
          obtain ⟨n, p, hn⟩ := h _ _ hr₀ hphase
          exact ⟨n, p, ha.events _ hn⟩
        · cases Option.some.inj (hstop.symm.trans hr)
          cases hphase
      · rcases ha.newTickers k r hr (Nat.not_lt.mp hlt) with hended | ⟨_, hwaiting, -⟩
        · exact nomatch hended.symm.trans hphase
        · cases hwaiting.symm.trans hphase

namespace Wakeful

variable {but : Option Slot}

theorem acts (h : Wakeful but t) (ha : Acts t t') : Wakeful but t' where
  isManual := ha.isManual
  due e he := by
    rw [ha.instant]
    exact (ha.later e he).elim (h.due e) id
  awaits slot hslot := (h.awaits slot hslot).acts ha

/-- Once what is missing is there nothing is. -/
theorem whole {slot : Slot} (h : Wakeful (some slot) t) (hslot : t.Awaits slot) :
    Wakeful none t where
  isManual := h.isManual
  due := h.due
  awaits slot' _ := by
    by_cases heq : some slot = some slot'
    · cases heq
      exact hslot
    · exact h.awaits slot' heq

theorem awaits_all (h : Wakeful none t) (slot : Slot) : t.Awaits slot :=
  h.awaits slot nofun

/-- Only that for which an event is misses it when it is taken. -/
theorem pop (h : Wakeful none t) {e : Event} {es : List Event} (hevents : t.events = e :: es) :
    Wakeful e.wake.slot? { t with events := es } where
  isManual := h.isManual
  due e' he' := h.due e' (hevents ▸ List.mem_cons_of_mem _ he')
  awaits slot hslot := by
    have hrest {e' : Event} (he' : e' ∈ t.events) (hwake : e'.wake.slot? = some slot) : e' ∈ es := by
      rw [hevents] at he'
      rcases List.mem_cons.mp he' with rfl | he'
      · exact absurd hwake hslot
      · exact he'
    have haw := h.awaits_all slot
    cases slot with
    | shot i =>
        intro s hs hfresh
        obtain ⟨n, hn, hin⟩ := haw s hs hfresh
        exact ⟨n, hrest hn rfl, hin⟩
    | look k =>
        intro r deadline hr hphase
        obtain ⟨n, hn, hin⟩ := haw r deadline hr hphase
        exact ⟨n, hrest hn rfl, hin⟩
    | tick k =>
        intro r next hr hphase
        obtain ⟨n, p, hn⟩ := haw r next hr hphase
        exact ⟨n, p, hrest hn rfl⟩

/-- A timer stops that may have missed its event. -/
theorem stopShot {i : Nat} (h : Wakeful (some (.shot i)) t) (s : OneShot) :
    Wakeful none (t.setShot i s.stop) where
  isManual := h.isManual
  due := h.due
  awaits slot _ := by
    cases slot with
    | shot i' =>
        intro s' hs' hfresh
        by_cases hi : i = i'
        · subst hi
          have hlt := (List.getElem?_eq_some_iff.mp hs').1
          rw [Timeline.setShot, List.length_set] at hlt
          rw [Timeline.setShot, List.getElem?_set_self hlt] at hs'
          cases hs'
          cases hfresh
        · rw [Timeline.setShot, List.getElem?_set_ne hi] at hs'
          exact h.awaits (.shot i') (by simpa using hi) s' hs' hfresh
    | look k => exact h.awaits (.look k) nofun
    | tick k => exact h.awaits (.tick k) nofun

/-- A ticker that may have missed its event is changed, and what it now waits for is there. -/
theorem setTicker {k : Nat} (h : Wakeful but t)
    (hbut : ∀ slot, but = some slot → slot = .look k ∨ slot = .tick k) {r : Ticker}
    (hlook : ∀ deadline, r.phase = .waiting deadline →
      ∃ n, ⟨n, .ticker k⟩ ∈ t.events ∧ t.InTime r.permit deadline n)
    (htick : ∀ next, r.phase = .busy next → ∃ n p, ⟨n, .job (.tick k p)⟩ ∈ t.events) :
    Wakeful none (t.setTicker k r) where
  isManual := h.isManual
  due := h.due
  awaits slot _ := by
    have hself {r' : Ticker} (hr' : (t.setTicker k r).tickers[k]? = some r') : r' = r := by
      have hlt := (List.getElem?_eq_some_iff.mp hr').1
      rw [Timeline.setTicker, List.length_set] at hlt
      rw [Timeline.setTicker, List.getElem?_set_self hlt] at hr'
      exact (Option.some.inj hr').symm
    have hother {k' : Nat} (hk : k ≠ k') : (t.setTicker k r).tickers[k']? = t.tickers[k']? :=
      List.getElem?_set_ne hk
    have hkept (slot : Slot) (hl : slot ≠ .look k) (ht : slot ≠ .tick k) : t.Awaits slot :=
      h.awaits slot fun heq => (hbut slot heq).elim hl ht
    cases slot with
    | shot i => exact hkept (.shot i) (by simp) (by simp)
    | look k' =>
        intro r' deadline hr' hphase
        by_cases hk : k = k'
        · subst hk
          rw [hself hr'] at hphase ⊢
          exact hlook deadline hphase
        · exact hkept (.look k') (by simpa using Ne.symm hk) (by simp) r' deadline
            (hother hk ▸ hr') hphase
    | tick k' =>
        intro r' next hr' hphase
        by_cases hk : k = k'
        · subst hk
          rw [hself hr'] at hphase
          exact htick next hphase
        · exact hkept (.tick k') (by simp) (by simpa using Ne.symm hk) r' next
            (hother hk ▸ hr') hphase

variable (o : Outside σ)

theorem lookAtShot {i : Nat} (h : Wakeful (some (.shot i)) t) : Wakeful none (t.lookAtShot o i) := by
  rw [Timeline.lookAtShot]
  split
  next hnone => exact h.whole fun _ hs => by cases hnone.symm.trans hs
  next s hs =>
    split
    next hover =>
      refine h.whole fun s' hs' hfresh => ?_
      cases Option.some.inj (hs.symm.trans hs')
      cases hover.symm.trans hfresh
    next =>
      split
      next => exact h.stopShot s
      next hheeds =>
        split
        next => exact (h.stopShot s).acts (.resume (t := t.setShot i s.stop) h.isManual o rfl)
        next hearly =>
          have hlt : t.instant < s.due := Nat.not_le.mp hearly
          refine (h.acts (.wakeAt h.isManual (Nat.le_of_lt hlt) _)).whole fun s' hs' _ => ?_
          cases Option.some.inj (hs.symm.trans hs')
          have hgood : t.permits s.permit = true := by simpa [heeds, hearly] using hheeds
          exact ⟨_, mem_wakeAt.mpr (.inl rfl), .inr ⟨Nat.le_refl _, hgood⟩⟩

theorem lookAtTicker {k : Nat} (h : Wakeful (some (.look k)) t) :
    Wakeful none (t.lookAtTicker o k) := by
  have hbut : ∀ slot, some (Slot.look k) = some slot → slot = .look k ∨ slot = .tick k :=
    fun slot hslot => .inl (Option.some.inj hslot).symm
  rw [Timeline.lookAtTicker]
  split
  next hnone => exact h.whole fun _ _ hr => by cases hnone.symm.trans hr
  next r hr =>
    split
    next deadline hphase =>
      split
      next =>
        exact h.setTicker hbut (fun _ hwaiting => by cases hwaiting) fun _ hbusy => by cases hbusy
      next hheeds =>
        split
        next hready =>
          have hspawned := h.acts (.wakeAt h.isManual (Nat.le_refl _)
            (.job (.tick k (o.perform r.chore))))
          refine hspawned.setTicker hbut (fun _ hwaiting => ?_)
            fun _ _ => ⟨_, _, mem_wakeAt.mpr (.inl rfl)⟩
          rw [r.begin_eq hphase] at hwaiting
          cases hwaiting
        next hready =>
          have hearly : t.instant < deadline := by simpa [Ticker.isReady, hphase] using hready
          refine (h.acts (.wakeAt h.isManual (Nat.le_of_lt hearly) _)).whole fun r' _ hr' hphase' => ?_
          cases Option.some.inj (hr.symm.trans hr')
          cases hphase.symm.trans hphase'
          have hgood : t.permits r.permit = true := by simpa [heeds, hready] using hheeds
          exact ⟨_, mem_wakeAt.mpr (.inl rfl), .inr ⟨Nat.le_refl _, hgood⟩⟩
    next hnot =>
      refine h.whole fun r' deadline hr' hphase => ?_
      cases Option.some.inj (hr.symm.trans hr')
      exact absurd hphase (hnot deadline)

theorem finishTick {k : Nat} (h : Wakeful (some (.tick k)) t) : Wakeful none (t.finishTick k) := by
  rw [Timeline.finishTick]
  split
  next hnone => exact h.whole fun _ _ hr => by cases hnone.symm.trans hr
  next r hr =>
    have hlooked := h.acts (.wakeAt h.isManual (Nat.le_refl _) (.ticker k))
    refine hlooked.setTicker (fun slot hslot => .inr (Option.some.inj hslot).symm) (fun _ _ => ?_)
      fun next hbusy => absurd hbusy (r.phase_finish_ne next)
    exact ⟨_, mem_wakeAt.mpr (.inl rfl), .inl (Nat.le_refl _)⟩

theorem resume {j : Job} (h : Wakeful (Wake.job j).slot? t) : Wakeful none (t.resume o j) := by
  cases j with
  | chore p =>
      have hall : Wakeful none t := h
      exact hall.acts (.resume h.isManual o rfl)
  | call caller p =>
      have hall : Wakeful none t := h
      exact hall.acts (.resume h.isManual o rfl)
  | tick k p =>
      have hdriven := h.acts (.drive h.isManual o p)
      rw [Timeline.resume]
      generalize Timeline.drive o p t = result at hdriven ⊢
      obtain ⟨_ | _ | ⟨span, rest⟩, t'⟩ := result
      · exact hdriven.finishTick
      · exact hdriven.finishTick
      · exact (hdriven.acts (.wakeAt hdriven.isManual (Nat.le_add_right ..) _)).whole
          fun _ _ _ _ => ⟨_, _, mem_wakeAt.mpr (.inl rfl)⟩

theorem wake {w : Wake} (h : Wakeful w.slot? t) : Wakeful none (t.wake o w) := by
  cases w with
  | job j => exact h.resume o
  | shot i => exact h.lookAtShot o
  | ticker k => exact h.lookAtTicker o

variable {o} {c : Conduct σ}

/-- Nothing that waits is forgotten, whatever happens. -/
theorem goes (h : Wakeful none t) (hstep : t.Goes o c t') : Wakeful none t' := by
  cases hstep with
  | next hnext =>
      obtain ⟨e, es, hevents, hdue, rfl⟩ := exists_of_step? hnext
      rw [Nat.max_eq_left hdue]
      exact (h.pop hevents).wake o
  | act _ => exact h.acts (.drive h.isManual o _)
  | join _ _ => exact h.acts (.wakeAt h.isManual (Nat.le_refl _) _)
  | @pass n s hle hdue _ =>
      have hintime {p : Permit} {due n' : Nat} (hin : t.InTime p due n') :
          InTime { t with outside := s, instant := n } p due n' :=
        hin.imp_left fun hn => Nat.le_trans hn hle
      refine ⟨h.isManual, hdue, fun slot _ => ?_⟩
      have haw := h.awaits_all slot
      cases slot with
      | shot i =>
          intro s' hs hfresh
          obtain ⟨n', hn', hin⟩ := haw s' hs hfresh
          exact ⟨n', hn', hintime hin⟩
      | look k =>
          intro r deadline hr hphase
          obtain ⟨n', hn', hin⟩ := haw r deadline hr hphase
          exact ⟨n', hn', hintime hin⟩
      | tick k => exact haw

theorem life (h : Wakeful none t) (hlife : Relation.ReflTransGen (Goes o c) t t') :
    Wakeful none t' := by
  induction hlife with
  | refl => exact h
  | tail _ hstep ih => exact ih.goes hstep

end Wakeful

end Timeline

end Upkeep
