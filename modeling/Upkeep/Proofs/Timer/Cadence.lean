import Upkeep.Proofs.Timer.Withdrawn

/-!
When the ticks of a recurring timer begin. The first begins one period after the timer was set up;
each of the others begins when the one before it is over and its deadline has come, whichever is
later. A deadline is one period after a tick began, or less by as much as that tick was late.
-/

namespace Upkeep

theorem nextDeadline_le {period deadline begun : Nat} (h : deadline ≤ begun) :
    nextDeadline period deadline begun ≤ begun + period := by
  unfold nextDeadline
  split <;> omega

theorem le_nextDeadline (period deadline begun : Nat) :
    begun + period ≤ nextDeadline period deadline begun + tickSlack := by
  unfold nextDeadline
  split <;> omega

namespace Timeline

variable {σ : Type} {o : Outside σ} {c : Conduct σ} {t t' t'' : Timeline σ} {k : Nat}

def Ends (k : Nat) (t t' : Timeline σ) : Prop :=
  ∃ r next r' deadline, t.tickers[k]? = some r ∧ r.phase = .busy next ∧
    t'.tickers[k]? = some r' ∧ r'.phase = .waiting deadline

theorem ends_of_phases {k : Nat} (next deadline : Nat) {t t' : Timeline σ}
    (h : t.tickers[k]?.map Ticker.phase = some (.busy next))
    (h' : t'.tickers[k]?.map Ticker.phase = some (.waiting deadline)) : Ends k t t' := by
  obtain ⟨r, hr, hphase⟩ := Option.map_eq_some_iff.mp h
  obtain ⟨r', hr', hphase'⟩ := Option.map_eq_some_iff.mp h'
  exact ⟨r, next, r', deadline, hr, hphase, hr', hphase'⟩

/-- How a timeline goes on, with the instants at which ticks of a ticker begin on it and end. -/
inductive Ticks (o : Outside σ) (c : Conduct σ) (k : Nat) (t : Timeline σ) :
    List Nat → List Nat → Timeline σ → Prop
  | refl : Ticks o c k t [] [] t
  | idle {begun ended : List Nat} {t' t'' : Timeline σ} (h : Ticks o c k t begun ended t')
      (hstep : t'.Goes o c t'') (hbegins : ¬ Begins k t' t'') (hends : ¬ Ends k t' t'') :
      Ticks o c k t begun ended t''
  | begins {begun ended : List Nat} {t' t'' : Timeline σ} (h : Ticks o c k t begun ended t')
      (hstep : t'.Goes o c t'') (hbegins : Begins k t' t'') :
      Ticks o c k t (begun ++ [t''.instant]) ended t''
  | ends {begun ended : List Nat} {t' t'' : Timeline σ} (h : Ticks o c k t begun ended t')
      (hstep : t'.Goes o c t'') (hends : Ends k t' t'') :
      Ticks o c k t begun (ended ++ [t''.instant]) t''

section Setup

/-- A ticker that is new waits for one period, unless it has none or its permit is lost. -/
def SetsUp (t t' : Timeline σ) : Prop :=
  ∀ (k : Nat) r, t'.tickers[k]? = some r → t.tickers.length ≤ k → t'.permits r.permit = true →
    r.period.isZero = false → r.phase = .waiting (t'.instant + r.period.toNanos)

theorem SetsUp.of_length (h : t'.tickers.length = t.tickers.length) : SetsUp t t' :=
  fun _ _ hr hk => absurd (h ▸ hk) (not_le_of_getElem? hr)

theorem SetsUp.trans (h : SetsUp t t') (ha : Acts t' t'') (h' : SetsUp t' t'') :
    SetsUp t t'' := by
  intro k r hr hk hgood hperiod
  by_cases hlt : k < t'.tickers.length
  · have hr' : t'.tickers[k]? = some t'.tickers[k] := List.getElem?_eq_getElem hlt
    rcases ha.tickers k _ hr' with ⟨hsame, -⟩ | ⟨-, -, -, hlost, hstop⟩
    · cases Option.some.inj (hsame.symm.trans hr)
      rw [ha.instant]
      exact h k _ hr' hk (ha.permits _ hgood) hperiod
    · cases Option.some.inj (hstop.symm.trans hr)
      exact absurd hgood (by simpa [Ticker.stop] using hlost)
  · exact h' k r hr (Nat.not_lt.mp hlt) hgood hperiod

theorem SetsUp.perform (o : Outside σ) (r : Work.Request) (t : Timeline σ) :
    SetsUp t (t.perform o r).timeline := by
  cases r with
  | every period p chore =>
      intro k r hr hk _ hperiod
      rw [show (t.perform o (.every period p chore)).timeline = t.addTicker period p chore from rfl,
        tickers_addTicker] at hr
      rw [instant_perform]
      rcases getElem?_push_cases hr with hold | ⟨-, rfl⟩
      · exact absurd hk (not_le_of_getElem? hold)
      · simp only [Ticker.at] at hperiod ⊢
        simp [hperiod]
  | after => exact .of_length (congrArg _ (tickers_addShot ..))
  | issue | enroll | strike | shut | clear => exact .of_length (length_tickers_setRegistry ..)
  | _ => exact .of_length rfl

theorem SetsUp.finishTick (h : SetsUp t t') (k : Nat) : SetsUp t (t'.finishTick k) := by
  rw [Timeline.finishTick]
  split
  next => exact h
  next r₀ hr₀ =>
    intro k' r hr hk hgood hperiod
    by_cases hkk : k = k'
    · subst hkk
      have hlt := (List.getElem?_eq_some_iff.mp hr₀).1
      cases (List.getElem?_set_self hlt).symm.trans hr
      have hphase := h k r₀ hr₀ hk (r₀.permit_finish ▸ hgood) (r₀.period_finish ▸ hperiod)
      rw [r₀.finish_eq_self fun next hbusy => by cases hphase.symm.trans hbusy]
      exact hphase
    · exact h k' r ((List.getElem?_set_ne hkk).symm.trans hr) hk hgood hperiod

variable (hm : t.isManual = false)

include hm

theorem SetsUp.drive (o : Outside σ) {α : Type} (p : Work α) : SetsUp t (drive o p t).2 :=
  ((drive_keeps o (fun t t' => t.isManual = false → Acts t t' ∧ SetsUp t t')
    (fun _ hm => ⟨.refl hm, .of_length rfl⟩)
    (fun _ _ _ h h' hm =>
      let ⟨ha, hs⟩ := h hm
      let ⟨ha', hs'⟩ := h' ha.isManual
      ⟨ha.trans ha', hs.trans ha' hs'⟩)
    (fun _ => True) (fun r t _ hm => ⟨.perform hm o r, .perform o r t⟩) (Program.keeps_true p)
    t).1 hm).2

theorem SetsUp.resume (o : Outside σ) (j : Job) : SetsUp t (t.resume o j) := by
  cases j with
  | chore p | call caller p =>
      have hs := drive hm o p
      rw [Timeline.resume]
      generalize Timeline.drive o p t = result at hs ⊢
      obtain ⟨_ | _ | ⟨span, rest⟩, t'⟩ := result <;> exact hs
  | tick k p =>
      have hs := drive hm o p
      rw [Timeline.resume]
      generalize Timeline.drive o p t = result at hs ⊢
      obtain ⟨_ | _ | ⟨span, rest⟩, t'⟩ := result
      · exact hs.finishTick k
      · exact hs.finishTick k
      · exact hs

theorem SetsUp.wake (o : Outside σ) (w : Wake) : SetsUp t (t.wake o w) := by
  cases w with
  | job j => exact resume hm o j
  | shot i =>
      rw [Timeline.wake, lookAtShot]
      split
      next => exact .of_length rfl
      next s hs =>
        split
        next => exact .of_length rfl
        next =>
          split
          next => exact .of_length rfl
          next =>
            split
            next => exact resume (t := t.setShot i s.stop) hm o _
            next => exact .of_length rfl
  | ticker k =>
      rw [Timeline.wake, lookAtTicker]
      split
      next => exact .of_length rfl
      next =>
        split
        next =>
          split
          next => exact .of_length (List.length_set ..)
          next => split <;> exact .of_length (by simp [spawn, wakeAt, setTicker])
        next => exact .of_length rfl

theorem SetsUp.goes (hstep : t.Goes o c t') : SetsUp t t' := by
  cases hstep with
  | next hnext =>
      obtain ⟨e, es, -, -, rfl⟩ := exists_of_step? hnext
      exact wake (t := { t with events := es, instant := max t.instant e.due }) hm o e.wake
  | act => exact drive hm o _
  | join | pass => exact .of_length rfl

end Setup

/-- What a step makes of a ticker whose permit is good after it. Time does not pass its deadline by. -/
inductive Turn (k : Nat) (r : Ticker) (t t' : Timeline σ) : Prop
  | stays (hr : t'.tickers[k]? = some r) (hle : t.instant ≤ t'.instant)
      (hin : ∀ deadline, r.phase = .waiting deadline → t'.instant ≤ max deadline t.instant)
  | begins {deadline : Nat} (hphase : r.phase = .waiting deadline) (hready : deadline ≤ t'.instant)
      (hinstant : t'.instant = t.instant) (hr : t'.tickers[k]? = some
        { r with phase := .busy (nextDeadline r.period.toNanos deadline t'.instant) })
  | ends {next : Nat} (hphase : r.phase = .busy next) (hinstant : t'.instant = t.instant)
      (hr : t'.tickers[k]? = some { r with phase := .waiting next })

theorem Goes.turn (hw : Wakeful none t) (hstep : t.Goes o c t') {r : Ticker}
    (hr : t.tickers[k]? = some r) (hgood : t'.permits r.permit = true) : Turn k r t t' := by
  rcases hstep.fares hw.isManual with hfares | ⟨n, s, rfl, hle, hmissed⟩
  · obtain ⟨r', hr', hfate⟩ := hfares.tickers k r hr
    cases hfate with
    | same =>
        refine .stays hr' (Nat.le_of_eq hfares.instant.symm) fun _ _ => ?_
        exact hfares.instant ▸ Nat.le_max_right ..
    | stopped hlost => exact absurd hgood (by simp [hlost])
    | begun hphase hready => exact .begins hphase hready hfares.instant (r.begin_eq hphase _ ▸ hr')
    | finished hphase => exact .ends hphase hfares.instant (r.finish_eq hphase ▸ hr')
  · refine .stays hr hle fun deadline hphase => ?_
    obtain ⟨n', hn', hin⟩ := hw.awaits_all (.look k) r deadline hr hphase
    refine Nat.le_trans (hmissed _ hn') ?_
    exact hin.elim (fun h => Nat.le_trans h (Nat.le_max_right ..))
      fun h => Nat.le_trans h.1 (Nat.le_max_left ..)

section Turn

variable {r : Ticker} (h : Turn k r t t') (hr : t.tickers[k]? = some r)

include h hr

theorem Turn.of_still (hbegins : ¬ Begins k t t') (hends : ¬ Ends k t t') :
    t'.tickers[k]? = some r ∧ t.instant ≤ t'.instant ∧
      ∀ deadline, r.phase = .waiting deadline → t'.instant ≤ max deadline t.instant := by
  cases h with
  | stays hr' hle hin => exact ⟨hr', hle, hin⟩
  | begins hphase _ _ hr' => exact absurd ⟨_, _, _, _, hr, hphase, hr', rfl⟩ hbegins
  | ends hphase _ hr' => exact absurd ⟨_, _, _, _, hr, hphase, hr', rfl⟩ hends

theorem Turn.of_begins (hbegins : Begins k t t') : ∃ deadline, r.phase = .waiting deadline ∧
    deadline ≤ t'.instant ∧ t'.instant = t.instant ∧ t'.tickers[k]? = some
      { r with phase := .busy (nextDeadline r.period.toNanos deadline t'.instant) } := by
  obtain ⟨r₀, deadline, r', next, hr₀, hphase, hr', hbusy⟩ := hbegins
  cases Option.some.inj (hr.symm.trans hr₀)
  cases h with
  | stays hsame =>
      cases Option.some.inj (hsame.symm.trans hr')
      cases hphase.symm.trans hbusy
  | begins hphase' hready hinstant hr'' => exact ⟨_, hphase', hready, hinstant, hr''⟩
  | ends hbusy' => cases hphase.symm.trans hbusy'

theorem Turn.of_ends (hends : Ends k t t') : ∃ next, r.phase = .busy next ∧
    t'.instant = t.instant ∧ t'.tickers[k]? = some { r with phase := .waiting next } := by
  obtain ⟨r₀, next, r', deadline, hr₀, hbusy, hr', hphase⟩ := hends
  cases Option.some.inj (hr.symm.trans hr₀)
  cases h with
  | stays hsame =>
      cases Option.some.inj (hsame.symm.trans hr')
      cases hphase.symm.trans hbusy
  | begins hphase' => cases hbusy.symm.trans hphase'
  | ends hbusy' hinstant hr'' => exact ⟨_, hbusy', hinstant, hr''⟩

end Turn

theorem Ticks.life {begun ended : List Nat} (h : Ticks o c k t begun ended t') :
    Relation.ReflTransGen (Goes o c) t t' := by
  induction h with
  | refl => exact .refl
  | idle _ hstep _ _ ih | begins _ hstep _ ih | ends _ hstep _ ih => exact ih.tail hstep

end Timeline

structure Follows (period begun ended begun' : Nat) : Prop where
  lasts : begun ≤ ended
  ended_le : ended ≤ begun'
  spaced : begun + period ≤ begun' + tickSlack
  le_max : begun' ≤ begun + max period (ended - begun)

/-- Ticks of a ticker, by the instants at which they begin and end. -/
structure Cadence (start period : Nat) (begun ended : List Nat) : Prop where
  first : ∀ b, begun[0]? = some b → b = start + period
  follows : ∀ (n : Nat) b b', begun[n]? = some b → begun[n + 1]? = some b' →
    ∃ e, ended[n]? = some e ∧ Follows period b e b'

/-- No tick that could have begun before an instant is still to begin. -/
structure Prompt (start period instant : Nat) (begun ended : List Nat) : Prop where
  first : start + period < instant → begun ≠ []
  next : ∀ (n : Nat) b e, begun[n]? = some b → ended[n]? = some e →
    b + max period (e - b) < instant → n + 1 < begun.length

namespace Cadence

variable {start period b e b' : Nat} {begun ended : List Nat}

theorem nil : Cadence start period [] [] := ⟨nofun, nofun⟩

theorem single : Cadence start period [start + period] [] where
  first _ hb := (Option.some.inj hb).symm
  follows _ _ _ _ hb' := nomatch hb'

theorem ends (h : Cadence start period begun ended) : Cadence start period begun (ended ++ [e]) where
  first := h.first
  follows n b b' hb hb' := by
    obtain ⟨e', he', hfollows⟩ := h.follows n b b' hb hb'
    exact ⟨e', getElem?_push he' e, hfollows⟩

theorem begins (h : Cadence start period (begun ++ [b]) (ended ++ [e]))
    (hlength : ended.length = begun.length) (hfollows : Follows period b e b') :
    Cadence start period (begun ++ [b] ++ [b']) (ended ++ [e]) where
  first x hx := by
    rcases getElem?_push_cases hx with hx | ⟨hzero, -⟩
    · exact h.first x hx
    · simp at hzero
  follows n x x' hx hx' := by
    rcases getElem?_push_cases hx' with hx' | ⟨hn, rfl⟩
    · rcases getElem?_push_cases hx with hx | ⟨hn, -⟩
      · exact h.follows n x x' hx hx'
      · exact absurd (Nat.le_succ_of_le (Nat.le_of_eq hn.symm)) (Timeline.not_le_of_getElem? hx')
    · have hn : n = begun.length := by simpa using hn
      subst hn
      have hx : x = b := by simpa using hx.symm
      subst hx
      exact ⟨e, by simp [← hlength], hfollows⟩

end Cadence

namespace Ticker

/-- Where a ticker stands, by its phase, with the instants at which its ticks began and ended. -/
inductive Stage (start period instant : Nat) : Phase → List Nat → List Nat → Prop
  | first (hin : instant ≤ start + period) : Stage start period instant (.waiting (start + period)) [] []
  | busy {begun ended : List Nat} {b next : Nat} (hlength : ended.length = begun.length)
      (hle : b ≤ instant) (hspaced : b + period ≤ next + tickSlack) (hnext : next ≤ b + period) :
      Stage start period instant (.busy next) (begun ++ [b]) ended
  | waiting {begun ended : List Nat} {b e next : Nat} (hlength : ended.length = begun.length)
      (hlasts : b ≤ e) (hle : e ≤ instant) (hin : instant ≤ max next e)
      (hspaced : b + period ≤ next + tickSlack) (hnext : next ≤ b + period) :
      Stage start period instant (.waiting next) (begun ++ [b]) (ended ++ [e])

namespace Stage

variable {start period instant instant' : Nat} {phase : Phase} {begun ended : List Nat}

theorem stays (h : Stage start period instant phase begun ended) (hle : instant ≤ instant')
    (hin : ∀ deadline, phase = .waiting deadline → instant' ≤ max deadline instant) :
    Stage start period instant' phase begun ended := by
  cases h with
  | first hin' =>
      have := hin _ rfl
      exact .first (by omega)
  | busy hlength hle' hspaced hnext =>
      exact .busy hlength (Nat.le_trans hle' hle) hspaced hnext
  | waiting hlength hlasts hle' hin' hspaced hnext =>
      have := hin _ rfl
      exact .waiting hlength hlasts (Nat.le_trans hle' hle) (by omega) hspaced hnext

theorem ends {next : Nat} (h : Stage start period instant (.busy next) begun ended) :
    Stage start period instant (.waiting next) begun (ended ++ [instant]) := by
  cases h with
  | busy hlength hle hspaced hnext =>
      exact .waiting hlength hle (Nat.le_refl _) (Nat.le_max_right ..) hspaced hnext

/-- A tick begins; that it does so in time is known from where the ticker stood. -/
theorem begins {deadline : Nat} (h : Stage start period instant (.waiting deadline) begun ended)
    (hready : deadline ≤ instant) (hc : Cadence start period begun ended) :
    Stage start period instant (.busy (nextDeadline period deadline instant)) (begun ++ [instant])
        ended ∧ Cadence start period (begun ++ [instant]) ended := by
  have hspaced := le_nextDeadline period deadline instant
  have hnext : nextDeadline period deadline instant ≤ instant + period := nextDeadline_le hready
  cases h with
  | first hin =>
      have hinstant : instant = start + period := Nat.le_antisymm hin hready
      subst hinstant
      exact ⟨.busy rfl (Nat.le_refl _) hspaced hnext, .single⟩
  | waiting hlength hlasts hle hin hspaced' hnext' =>
      refine ⟨.busy (by simp [hlength]) (Nat.le_refl _) hspaced hnext, hc.begins hlength ?_⟩
      exact ⟨hlasts, hle, by omega, by omega⟩

theorem prompt (h : Stage start period instant phase begun ended) :
    Prompt start period instant begun ended := by
  cases h with
  | first hin => exact ⟨fun hlt => absurd hin (Nat.not_le.mpr hlt), fun _ _ _ hb => nomatch hb⟩
  | busy hlength =>
      refine ⟨fun _ => by simp, fun n b e _ he _ => ?_⟩
      have hlt := (List.getElem?_eq_some_iff.mp he).1
      simpa [← hlength] using hlt
  | @waiting begun ended b e next hlength hlasts hle hin hspaced hnext =>
      refine ⟨fun _ => by simp, fun n b' e' hb he hlt => ?_⟩
      rcases getElem?_push_cases he with he | ⟨rfl, rfl⟩
      · have hlt := (List.getElem?_eq_some_iff.mp he).1
        simpa [← hlength] using hlt
      · have hb : b = b' := by simpa [hlength] using hb
        omega

end Stage

end Ticker

namespace Timeline

variable {σ : Type} {o : Outside σ} {t t₁ t' : Timeline σ} {k : Nat}

/-- A step on which no tick of a ticker begins or ends. -/
theorem Ticks.still {c : Conduct σ} {begun ended : List Nat} {t'' : Timeline σ}
    (h : Ticks o c k t begun ended t') (hstep : t'.Goes o c t'')
    (hsame : t''.tickers[k]?.map Ticker.phase = t'.tickers[k]?.map Ticker.phase) :
    Ticks o c k t begun ended t'' := by
  refine .idle h hstep ?_ ?_
  all_goals
    rintro ⟨r, x, r', x', hr, hphase, hr', hphase'⟩
    rw [hr, hr', Option.map_some, Option.map_some, hphase, hphase'] at hsame
    cases hsame

/-- The ticks of a ticker keep their cadence as long as its permit is good, whatever becomes of them
and whatever else happens. -/
theorem Ticks.cadence {s : σ} {r : Ticker} {begun ended : List Nat}
    (hreach : Relation.ReflTransGen (Goes o .free) (Timeline.start s false) t)
    (hstep : t.Goes o .free t₁) (hnew : t.tickers.length ≤ k) (hr : t₁.tickers[k]? = some r)
    (hperiod : 0 < r.period.toNanos) (hticks : Ticks o .free k t₁ begun ended t')
    (hgood : t'.permits r.permit = true) :
    Cadence t₁.instant r.period.toNanos begun ended ∧
      Prompt t₁.instant r.period.toNanos t'.instant begun ended := by
  have hw : Wakeful none t := (wakeful_start s).life hreach
  have hlater {begun ended : List Nat} {u : Timeline σ} (h : Ticks o .free k t₁ begun ended u) :
      Wakeful none u := (hw.goes hstep).life h.life
  suffices hstage : Cadence t₁.instant r.period.toNanos begun ended ∧
      ∃ phase, t'.tickers[k]? = some { r with phase := phase } ∧
        Ticker.Stage t₁.instant r.period.toNanos t'.instant phase begun ended by
    obtain ⟨hc, phase, -, hstage⟩ := hstage
    exact ⟨hc, hstage.prompt⟩
  induction hticks with
  | refl =>
      have hphase := SetsUp.goes hw.isManual hstep k r hr hnew hgood
        (Duration.isZero_of_pos hperiod)
      refine ⟨.nil, r.phase, hr, ?_⟩
      rw [hphase]
      exact .first (Nat.le_add_right ..)
  | idle h hstep' hbegins hends ih =>
      obtain ⟨hc, phase, hr', hstage⟩ := ih (hstep'.permits (hlater h).isManual hgood)
      obtain ⟨hr'', hle, hin⟩ := (hstep'.turn (hlater h) hr' hgood).of_still hr' hbegins hends
      exact ⟨hc, phase, hr'', hstage.stays hle hin⟩
  | begins h hstep' hbegins ih =>
      obtain ⟨hc, phase, hr', hstage⟩ := ih (hstep'.permits (hlater h).isManual hgood)
      obtain ⟨deadline, rfl, hready, hinstant, hr''⟩ :=
        (hstep'.turn (hlater h) hr' hgood).of_begins hr' hbegins
      obtain ⟨hstage', hc'⟩ := (hinstant ▸ hstage).begins hready hc
      exact ⟨hc', _, hr'', hstage'⟩
  | ends h hstep' hends ih =>
      obtain ⟨hc, phase, hr', hstage⟩ := ih (hstep'.permits (hlater h).isManual hgood)
      obtain ⟨next, rfl, hinstant, hr''⟩ := (hstep'.turn (hlater h) hr' hgood).of_ends hr' hends
      exact ⟨hc.ends, _, hr'', (hinstant ▸ hstage).ends⟩

end Timeline

def Outside.dying : Outside Unit :=
  { Outside.slow with consult := fun _ s => (⟨.ofMillis 2500, none⟩, s) }

namespace Timeline

/-- With a period of one second the second tick begins when the first one dies. -/
theorem Ticks.cadence_dying :
    let o := Outside.dying
    let r : Ticker := .at 0 (.ofSeconds 1) ⟨0, 0⟩ (.refresh ⟨"did:a:b", by decide⟩)
    let t₁ := ((start () false).run o (Work.ask (.every r.period r.permit r.chore))).2
    let begun := [1000000000, 3500000000]
    ∃ t', Ticks o .free 0 t₁ begun [3500000000] t' ∧ t'.permits r.permit = true ∧
      Cadence 0 1000000000 begun [3500000000] ∧
      Prompt 0 1000000000 3500000000 begun [3500000000] := by
  intro o r t₁ begun
  let due : Timeline Unit := { t₁.takeNext o with instant := 1000000000 }
  let lapsed : Timeline Unit := { (due.takeNext o).takeNext o with instant := 3500000000 }
  have hwaits : Ticks o .free 0 t₁ [] [] due :=
    (Ticks.refl.still (.takeNext (by decide +kernel)) (by decide +kernel)).still
      (.pass_to (by decide +kernel) (by decide +kernel) trivial) rfl
  have hruns : Ticks o .free 0 t₁ [1000000000] [] lapsed := by
    have hbegun : [] ++ [(due.takeNext o).instant] = [1000000000] := by decide +kernel
    have hfirst : Begins 0 due (due.takeNext o) :=
      begins_of_phases 1000000000 2000000000 (by decide +kernel) (by decide +kernel)
    exact ((hbegun ▸ hwaits.begins (.takeNext (by decide +kernel)) hfirst).still
      (.takeNext (by decide +kernel)) (by decide +kernel)).still
        (.pass_to (by decide +kernel) (by decide +kernel) trivial) rfl
  have hdies : Ticks o .free 0 t₁ [1000000000] [3500000000] (lapsed.takeNext o) := by
    have hended : [] ++ [(lapsed.takeNext o).instant] = [3500000000] := by decide +kernel
    have hends : Ends 0 lapsed (lapsed.takeNext o) :=
      ends_of_phases 2000000000 2000000000 (by decide +kernel) (by decide +kernel)
    exact hended ▸ hruns.ends (.takeNext (by decide +kernel)) hends
  have hagain : Ticks o .free 0 t₁ begun [3500000000] ((lapsed.takeNext o).takeNext o) := by
    have hbegun : [1000000000] ++ [((lapsed.takeNext o).takeNext o).instant] = begun := by
      decide +kernel
    have hsecond : Begins 0 (lapsed.takeNext o) ((lapsed.takeNext o).takeNext o) :=
      begins_of_phases 2000000000 4500000000 (by decide +kernel) (by decide +kernel)
    exact hbegun ▸ hdies.begins (.takeNext (by decide +kernel)) hsecond
  have hgood : ((lapsed.takeNext o).takeNext o).permits r.permit = true := by decide +kernel
  have hrun : (start () false).run o (Work.ask (.every r.period r.permit r.chore)) =
      (some (), (start () false).addTicker r.period r.permit r.chore) :=
    run_eq_some.mpr ((drive_atOnce o rfl).trans (drive_done o ..))
  have hr : t₁.tickers[0]? = some r := by
    simp only [t₁, hrun, tickers_addTicker]
    rfl
  have hperiod : r.period.toNanos = 1000000000 := by decide +kernel
  have hcadence := Ticks.cadence .refl (.run (Work.obeys_free _)) (Nat.le_refl 0) hr
    (hperiod ▸ Nat.succ_pos _) hagain hgood
  have hinstant : t₁.instant = 0 := by decide +kernel
  have hnow : ((lapsed.takeNext o).takeNext o).instant = 3500000000 := by decide +kernel
  rw [hinstant, hnow, hperiod] at hcadence
  exact ⟨_, hagain, hgood, hcadence⟩

end Timeline

end Upkeep
