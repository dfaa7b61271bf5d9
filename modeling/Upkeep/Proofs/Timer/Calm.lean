import Upkeep.Proofs.Timer.Sparing

/-!
Timelines on which nothing but one timer touches the session of one identifier. All else spares it,
whatever it does; so it stays, and the timer's own next event stays where it is.
-/

namespace Upkeep

inductive Own where
  | shot (index : Nat) (shot : OneShot)
  | ticker (index : Nat) (ticker : Ticker)

namespace Own

def IsShot (own : Option Own) (index : Nat) : Prop := ∃ s, own = some (.shot index s)

def IsTicker (own : Option Own) (index : Nat) : Prop := ∃ k, own = some (.ticker index k)

@[simp] theorem isShot_shot {j i : Nat} {s : OneShot} : IsShot (some (.shot j s)) i ↔ j = i := by
  simp [IsShot]

@[simp] theorem not_isShot_ticker {j i : Nat} {k : Ticker} : ¬ IsShot (some (.ticker j k)) i := by
  simp [IsShot]

@[simp] theorem isTicker_ticker {j i : Nat} {k : Ticker} :
    IsTicker (some (.ticker j k)) i ↔ j = i := by
  simp [IsTicker]

@[simp] theorem not_isTicker_shot {j i : Nat} {s : OneShot} : ¬ IsTicker (some (.shot j s)) i := by
  simp [IsTicker]

@[simp] theorem not_isShot_none {i : Nat} : ¬ IsShot none i := by simp [IsShot]

@[simp] theorem not_isTicker_none {i : Nat} : ¬ IsTicker none i := by simp [IsTicker]

def permit : Own → Permit
  | .shot _ s => s.permit
  | .ticker _ k => k.permit

def IsOn (shots : List OneShot) (tickers : List Ticker) : Own → Prop
  | .shot index s => shots[index]? = some s
  | .ticker index k => tickers[index]? = some k

end Own

/-- Whether all of a list is as `ok` says, except what stands at places of one's own. -/
def Others {α : Type} (ok : α → Prop) (isOwn : Nat → Prop) (l : List α) : Prop :=
  ∀ (i : Nat) a, l[i]? = some a → ¬ isOwn i → ok a

namespace Others

variable {α : Type} {ok : α → Prop} {isOwn isOwn' : Nat → Prop} {l : List α} {a : α} {i : Nat}

/-- One that is as it should be, or has a place of one's own, takes a place in the list. -/
theorem set (h : Others ok isOwn l) (hown : ∀ j, i ≠ j → ¬ isOwn' j → ¬ isOwn j)
    (ha : ¬ isOwn' i → ok a) : Others ok isOwn' (l.set i a) := by
  intro j b hb hj
  by_cases hij : i = j
  · subst hij
    have hi := (List.getElem?_eq_some_iff.mp hb).1
    rw [List.length_set] at hi
    rw [List.getElem?_set_self hi] at hb
    exact Option.some.inj hb ▸ ha hj
  · rw [List.getElem?_set_ne hij] at hb
    exact h j b hb (hown j hij hj)

/-- The list goes on with one that is as it should be, or has a place of one's own. -/
theorem append (h : Others ok isOwn l) (hown : ∀ i < l.length, ¬ isOwn' i → ¬ isOwn i)
    (ha : ¬ isOwn' l.length → ok a) : Others ok isOwn' (l ++ [a]) := by
  intro j b hb hj
  rcases getElem?_push_cases hb with hb | ⟨rfl, rfl⟩
  · exact h j b hb (hown j (List.getElem?_eq_some_iff.mp hb).1 hj)
  · exact ha hj

theorem map (h : Others ok isOwn l) {f : α → α} (hf : ∀ a, ok a → ok (f a)) :
    Others ok isOwn (l.map f) := by
  intro j b hb hj
  rw [List.getElem?_map, Option.map_eq_some_iff] at hb
  obtain ⟨a, ha, rfl⟩ := hb
  exact hf a (h j a ha hj)

theorem mono (h : Others ok isOwn l) (hown : ∀ i, ¬ isOwn' i → ¬ isOwn i) : Others ok isOwn' l :=
  fun i a ha hi => h i a ha (hown i hi)

end Others

namespace Timeline

variable {σ : Type}

/-- What may come up without touching the charge: a sparing activity, or a timer that is not its
own. -/
def Leaves (registry : Nat) (d : Did) (own : Option Own) (t : Timeline σ) : Wake → Prop
  | .job (.chore p) => Work.Spares registry d p
  | .job (.tick k p) => Work.Spares registry d p ∧ k < t.tickers.length ∧ ¬ Own.IsTicker own k
  | .job (.call _ p) => Work.Spares registry d p
  | .shot i => i < t.shots.length ∧ ¬ Own.IsShot own i
  | .ticker k => k < t.tickers.length ∧ ¬ Own.IsTicker own k

def IsHeld (registry : Nat) (d : Did) (t : Timeline σ) (p : Permit) : Prop :=
  p.registry = registry ∧ (t.registry registry).entered.get? d = some p.serial ∧
    t.permits p = true

/-- Nothing but `own` and its events `mine` touches the session of an identifier. -/
structure Calm (registry : Nat) (d : Did) (own : Option Own) (mine : List Event) (t : Timeline σ) :
    Prop where
  isManual : t.isManual = false
  events : ∃ rest, t.events.Perm (mine ++ rest) ∧ ∀ e ∈ rest, Leaves registry d own t e.wake
  due : ∀ e ∈ t.events, t.instant ≤ e.due
  shots : Others (fun s => s.isOver = true ∨ s.chore.Spares d) (Own.IsShot own) t.shots
  tickers : Others (fun k => k.chore.Spares d) (Own.IsTicker own) t.tickers
  room : registry < t.registries.length
  sound : (t.registry registry).Sound
  isOn : ∀ x ∈ own, x.IsOn t.shots t.tickers
  isHeld : ∀ x ∈ own, t.IsHeld registry d x.permit

theorem place_perm (e : Event) (es : List Event) : (place e es).Perm (e :: es) := by
  induction es with
  | nil => exact .refl _
  | cons e' es ih =>
      unfold place
      split
      · exact .refl _
      · exact (ih.cons e').trans (.swap ..)

variable {registry : Nat} {d : Did} {own : Option Own} {mine : List Event} {t t' : Timeline σ}

/-- What leaves the charge to one timer leaves it to another that came after all of them. -/
theorem Leaves.handOn {own' : Option Own} {w : Wake} (h : Leaves registry d own t w)
    (hshots : ∀ i < t.shots.length, ¬ Own.IsShot own i →
      i < t'.shots.length ∧ ¬ Own.IsShot own' i)
    (htickers : ∀ k < t.tickers.length, ¬ Own.IsTicker own k →
      k < t'.tickers.length ∧ ¬ Own.IsTicker own' k) : Leaves registry d own' t' w := by
  cases w with
  | job j =>
      cases j with
      | chore p | call _ p => exact h
      | tick k p => exact ⟨h.1, htickers k h.2.1 h.2.2⟩
  | shot i => exact hshots i h.1 h.2
  | ticker k => exact htickers k h.1 h.2

theorem Leaves.mono {w : Wake} (h : Leaves registry d own t w)
    (hshots : t.shots.length ≤ t'.shots.length) (htickers : t.tickers.length ≤ t'.tickers.length) :
    Leaves registry d own t' w :=
  h.handOn (fun _ hi hown => ⟨Nat.lt_of_lt_of_le hi hshots, hown⟩)
    fun _ hk hown => ⟨Nat.lt_of_lt_of_le hk htickers, hown⟩

theorem setRegistry_enter (t : Timeline σ) (n : Nat) (d : Did) :
    t.setRegistry n ((t.registry n).enter d) =
      { t with registries := t.registries.set n ((t.registry n).enter d) } :=
  setRegistry_eq fun _ hp => hp

theorem calm_start (s : σ) (d : Did) : Calm 0 d none [] (start s false).openRegistry.2 where
  isManual := rfl
  events := ⟨[], .refl _, fun _ he => nomatch he⟩
  due _ he := nomatch he
  shots _ _ hs := nomatch hs
  tickers _ _ hs := nomatch hs
  room := Nat.one_pos
  sound := Registry.sound_empty
  isOn _ hx := nomatch hx
  isHeld _ hx := nomatch hx

namespace Calm

variable (h : Calm registry d own mine t)

include h

theorem withOutside (s : σ) : Calm registry d own mine (t.withOutside s) := { h with }

theorem addAnswer (caller : Nat) (result : Option (Except Unavailable Agent)) :
    Calm registry d own mine (t.addAnswer caller result) := { h with }

theorem wakeMine {due : Nat} (hdue : t.instant ≤ due) (w : Wake) :
    Calm registry d own (⟨due, w⟩ :: mine) (t.wakeAt due w) :=
  { h with
    events := by
      obtain ⟨rest, hrest, hleaves⟩ := h.events
      exact ⟨rest, (place_perm _ _).trans (hrest.cons _), hleaves⟩
    due := by
      intro e he
      rcases List.mem_cons.mp ((place_perm _ _).subset he) with rfl | he
      · exact hdue
      · exact h.due e he }

omit h in
/-- An event that leaves the charge alone need not be the timer's own. -/
theorem disown {e : Event} (h : Calm registry d own (e :: mine) t)
    (he : Leaves registry d own t e.wake) : Calm registry d own mine t := by
  obtain ⟨rest, hrest, hleaves⟩ := h.events
  refine { h with events := ⟨e :: rest, hrest.trans List.perm_middle.symm, fun e' he' => ?_⟩ }
  rcases List.mem_cons.mp he' with rfl | he'
  · exact he
  · exact hleaves e' he'

theorem wakeAt {due : Nat} {w : Wake} (hdue : t.instant ≤ due) (hw : Leaves registry d own t w) :
    Calm registry d own mine (t.wakeAt due w) :=
  (h.wakeMine hdue w).disown (hw.mono (Nat.le_refl _) (Nat.le_refl _))

theorem withTimers {shots : List OneShot} {tickers : List Ticker}
    (hshots : Others (fun s => s.isOver = true ∨ s.chore.Spares d) (Own.IsShot own) shots)
    (htickers : Others (fun k => k.chore.Spares d) (Own.IsTicker own) tickers)
    (hlength : t.shots.length ≤ shots.length) (hlength' : t.tickers.length ≤ tickers.length)
    (hon : ∀ x ∈ own, x.IsOn shots tickers) :
    Calm registry d own mine { t with shots := shots, tickers := tickers } :=
  { h with
    events := by
      obtain ⟨rest, hrest, hleaves⟩ := h.events
      exact ⟨rest, hrest, fun e he => (hleaves e he).mono hlength hlength'⟩
    shots := hshots
    tickers := htickers
    isOn := hon }

theorem appendShot {s : OneShot} (hs : s.chore.Spares d) :
    Calm registry d own mine { t with shots := t.shots ++ [s] } := by
  refine h.withTimers (h.shots.append (fun _ _ hi => hi) fun _ => .inr hs) h.tickers (by simp)
    (Nat.le_refl _) fun x hx => ?_
  have hon := h.isOn x hx
  cases x with
  | shot => exact getElem?_push hon s
  | ticker => exact hon

theorem appendTicker {k : Ticker} (hk : k.chore.Spares d) :
    Calm registry d own mine { t with tickers := t.tickers ++ [k] } := by
  refine h.withTimers h.shots (h.tickers.append (fun _ _ hi => hi) fun _ => hk) (Nat.le_refl _)
    (by simp) fun x hx => ?_
  have hon := h.isOn x hx
  cases x with
  | shot => exact hon
  | ticker => exact getElem?_push hon k

theorem setShot {i : Nat} (hi : ¬ Own.IsShot own i) {s : OneShot}
    (hs : s.isOver = true ∨ s.chore.Spares d) :
    Calm registry d own mine (t.setShot i s) := by
  refine h.withTimers (h.shots.set (fun _ _ hj => hj) fun _ => hs) h.tickers (by simp) (Nat.le_refl _) fun x hx => ?_
  have hon := h.isOn x hx
  cases x with
  | shot j s' =>
      have hne : i ≠ j := by
        rintro rfl
        exact hi ⟨s', hx⟩
      exact (List.getElem?_set_ne hne).trans hon
  | ticker => exact hon

theorem setTicker {i : Nat} (hi : ¬ Own.IsTicker own i) {k : Ticker} (hk : k.chore.Spares d) :
    Calm registry d own mine (t.setTicker i k) := by
  refine h.withTimers h.shots (h.tickers.set (fun _ _ hj => hj) fun _ => hk) (Nat.le_refl _) (by simp) fun x hx => ?_
  have hon := h.isOn x hx
  cases x with
  | shot => exact hon
  | ticker j k' =>
      have hne : i ≠ j := by
        rintro rfl
        exact hi ⟨k', hx⟩
      exact (List.getElem?_set_ne hne).trans hon

/-- The permits of others are lost. -/
theorem lapse {isLost : Permit → Bool} (hown : ∀ x ∈ own, isLost x.permit = false) :
    Calm registry d own mine (t.lapse isLost) := by
  refine h.withTimers (h.shots.map fun s hs => ?_) (h.tickers.map fun k hk => ?_) (by simp) (by simp)
    fun x hx => ?_
  · split
    · exact hs.imp (OneShot.isOver_lapse · _) (by simpa using ·)
    · exact hs
  · split
    · simpa using hk
    · exact hk
  · have hon := h.isOn x hx
    have hkept := hown x hx
    cases x with
    | shot i s =>
        have hs : t.shots[i]? = some s := hon
        simp [Own.IsOn, hs, show isLost s.permit = false from hkept]
    | ticker k ticker =>
        have hk : t.tickers[k]? = some ticker := hon
        simp [Own.IsOn, hk, show isLost ticker.permit = false from hkept]

/-- Registries change in a way that concerns others only. -/
theorem withRegistries {rs : List Registry} (hroom : registry < rs.length)
    (hsound : ({ t with registries := rs }.registry registry).Sound)
    (hkept : (t.registry registry).Retains d ({ t with registries := rs }.registry registry)) :
    Calm registry d own mine { t with registries := rs } :=
  { h with
    room := hroom
    sound := hsound
    isHeld := by
      intro x hx
      obtain ⟨hregistry, hentered, hpermits⟩ := h.isHeld x hx
      rw [permits, hregistry] at hpermits
      obtain ⟨hentered, hpermits⟩ := hkept _ hentered hpermits
      exact ⟨hregistry, hentered, by rwa [permits, hregistry]⟩ }

theorem setRegistry {n : Nat} {r : Registry} (hsound : n = registry → r.Sound)
    (hkept : n = registry → (t.registry n).Retains d r) :
    Calm registry d own mine (t.setRegistry n r) := by
  have hroom : registry < (t.registries.set n r).length := by simpa using h.room
  have hafter : Calm registry d own mine { t with registries := t.registries.set n r } := by
    by_cases hn : n = registry
    · subst hn
      have hr : (t.setRegistry n r).registry n = r := registry_setRegistry h.room r
      exact h.withRegistries hroom (hr.symm ▸ hsound rfl) (hr.symm ▸ hkept rfl)
    · have hr : (t.setRegistry n r).registry registry = t.registry registry :=
        registry_setRegistry_of_ne t hn r
      exact h.withRegistries hroom (hr.symm ▸ h.sound) (hr.symm ▸ Registry.Retains.refl _ d)
  unfold Timeline.setRegistry
  refine hafter.lapse fun x hx => ?_
  have hgood := (hafter.isHeld x hx).2.2
  simp [hgood]

theorem openRegistry : Calm registry d own mine t.openRegistry.2 := by
  have hr : t.openRegistry.2.registry registry = t.registry registry := registry_openRegistry h.room
  exact h.withRegistries (by simp [Nat.lt_succ_of_lt h.room]) (hr.symm ▸ h.sound)
    (hr.symm ▸ Registry.Retains.refl _ d)

theorem not_isShot {i : Nat} (hi : t.shots.length ≤ i) : ¬ Own.IsShot own i := by
  rintro ⟨s, hs⟩
  exact absurd (List.getElem?_eq_some_iff.mp (h.isOn _ hs)).1 (Nat.not_lt.mpr hi)

theorem not_isTicker {k : Nat} (hk : t.tickers.length ≤ k) : ¬ Own.IsTicker own k := by
  rintro ⟨s, hs⟩
  exact absurd (List.getElem?_eq_some_iff.mp (h.isOn _ hs)).1 (Nat.not_lt.mpr hk)

theorem addShot {c : Chore} (hc : c.Spares d) (delay : Duration) (p : Permit) :
    Calm registry d own mine (t.addShot delay p c) := by
  rw [addShot_eq h.isManual]
  refine (h.appendShot hc).wakeAt (Nat.le_refl _) ⟨?_, h.not_isShot (Nat.le_refl _)⟩
  simp

theorem addTicker {c : Chore} (hc : c.Spares d) (period : Duration) (p : Permit) :
    Calm registry d own mine (t.addTicker period p c) := by
  rw [addTicker_eq h.isManual]
  refine (h.appendTicker hc).wakeAt (Nat.le_refl _) ⟨?_, h.not_isTicker (Nat.le_refl _)⟩
  simp

theorem finishTick {k : Nat} (hk : ¬ Own.IsTicker own k) :
    Calm registry d own mine (t.finishTick k) := by
  rw [Timeline.finishTick]
  split
  next => exact h
  next ticker hticker =>
    have hspares : ticker.finish.chore.Spares d := by simpa using h.tickers k ticker hticker hk
    have hset := h.setTicker hk hspares
    refine hset.wakeAt (Nat.le_refl _) ⟨?_, hk⟩
    simpa [Timeline.setTicker] using (List.getElem?_eq_some_iff.mp hticker).1

end Calm

namespace Calm

theorem pass (h : Calm registry d own mine t) {n : Nat} (hn : ∀ e ∈ t.events, n ≤ e.due) (s : σ) :
    Calm registry d own mine { t with outside := s, instant := n } := { h with due := hn }

theorem setOwn {k : Nat} {ticker ticker' : Ticker}
    (h : Calm registry d (some (.ticker k ticker)) mine t)
    (hpermit : ticker'.permit = ticker.permit) :
    Calm registry d (some (.ticker k ticker')) mine (t.setTicker k ticker') := by
  have hk : k < t.tickers.length := (List.getElem?_eq_some_iff.mp (h.isOn _ rfl)).1
  have hheld : t.IsHeld registry d ticker.permit := h.isHeld _ rfl
  refine { h with events := ?_, shots := h.shots.mono (by simp), tickers := ?_, isOn := ?_,
                  isHeld := ?_ }
  · obtain ⟨rest, hrest, hleaves⟩ := h.events
    exact ⟨rest, hrest, fun e he => (hleaves e he).handOn (fun i hi _ => ⟨hi, by simp⟩)
      fun j hj hnot => ⟨by simpa [Timeline.setTicker] using hj, by simpa using hnot⟩⟩
  · exact h.tickers.set (fun j hj _ => by simpa using hj) fun hnot => absurd ⟨_, rfl⟩ hnot
  · rintro x ⟨⟩
    exact List.getElem?_set_self hk
  · rintro x ⟨⟩
    rwa [← hpermit] at hheld

/-- A timer that fires once hands over to a ticker with its permit. -/
theorem launch {i : Nat} {s : OneShot} (h : Calm registry d (some (.shot i s)) mine t)
    {ticker : Ticker} (hpermit : ticker.permit = s.permit) :
    Calm registry d (some (.ticker t.tickers.length ticker)) mine
      { t with shots := t.shots.set i s.stop
               tickers := t.tickers ++ [ticker] } := by
  have hheld : t.IsHeld registry d s.permit := h.isHeld _ rfl
  refine { h with events := ?_, shots := ?_, tickers := ?_, isOn := ?_, isHeld := ?_ }
  · obtain ⟨rest, hrest, hleaves⟩ := h.events
    refine ⟨rest, hrest, fun e he => (hleaves e he).handOn (fun j hj _ => ⟨by simpa using hj, by simp⟩)
      fun j hj _ => ⟨Nat.lt_of_lt_of_le hj (by simp), ?_⟩⟩
    simpa using Nat.ne_of_gt hj
  · exact h.shots.set (fun j hj _ => by simpa using hj) fun _ => .inl rfl
  · exact h.tickers.append (fun j hj _ => by simp) fun hnot => absurd ⟨_, rfl⟩ hnot
  · rintro x ⟨⟩
    exact List.getElem?_concat_length
  · rintro x ⟨⟩
    rwa [← hpermit] at hheld

theorem enter (h : Calm registry d none mine t) (hopen : (t.registry registry).isShut = false)
    {s : OneShot} (hs : s.permit = ⟨registry, (t.registry registry).issued⟩) :
    Calm registry d (some (.shot t.shots.length s)) mine
      { t with registries := t.registries.set registry ((t.registry registry).enter d)
               shots := t.shots ++ [s] } := by
  have hr := registry_setRegistry h.room ((t.registry registry).enter d)
  refine { h with events := ?_, shots := ?_, tickers := h.tickers.mono (by simp), room := ?_,
                  sound := ?_, isOn := ?_, isHeld := ?_ }
  · obtain ⟨rest, hrest, hleaves⟩ := h.events
    refine ⟨rest, hrest, fun e he => (hleaves e he).handOn (fun j hj _ => ⟨?_, ?_⟩)
      fun j hj _ => ⟨hj, by simp⟩⟩
    · exact Nat.lt_of_lt_of_le hj (by simp)
    · simpa using Nat.ne_of_gt hj
  · exact h.shots.append (fun j hj _ => by simp) fun hnot => absurd ⟨_, rfl⟩ hnot
  · simpa using h.room
  · exact hr.symm ▸ h.sound.enter
  · rintro x ⟨⟩
    exact List.getElem?_concat_length
  · rintro x ⟨⟩
    refine ⟨congrArg Permit.registry hs, ?_, ?_⟩
    · refine (congrArg (fun r : Registry => r.entered.get? d) hr).trans ?_
      rw [Own.permit, hs]
      exact Table.get?_insert_self ..
    · rw [Own.permit, hs]
      refine (congrArg (fun r : Registry => r.permits (t.registry registry).issued) hr).trans ?_
      rw [Registry.permits_enter]
      exact h.sound.permits_issued hopen

theorem spawn (h : Calm registry d own mine t) {j : Job} (hj : j.Spares registry d) :
    Calm registry d own mine (t.spawn j) :=
  h.wakeAt (Nat.le_refl _) (match j, hj with
    | .chore _, hj | .call .., hj => hj)

end Calm

/-- What sparing activities leave as it was: the time, and the row in which the session is. -/
structure Unmoved (o : Outside σ) (row : σ → Option Bytes) (honored : σ → Prop) (t t' : Timeline σ) :
    Prop where
  instant : t'.instant = t.instant
  row : row t'.outside = row t.outside
  now : o.now t'.outside = o.now t.outside
  honored : honored t'.outside → honored t.outside
  shots : t.shots.length ≤ t'.shots.length
  tickers : t.tickers.length ≤ t'.tickers.length

variable {o : Outside σ} {margin : UInt64} {row : σ → Option Bytes} {honored : σ → Prop}

namespace Unmoved

theorem refl (t : Timeline σ) : Unmoved o row honored t t :=
  ⟨rfl, rfl, rfl, id, Nat.le_refl _, Nat.le_refl _⟩

theorem trans {t t' t'' : Timeline σ} (h : Unmoved o row honored t t')
    (h' : Unmoved o row honored t' t'') : Unmoved o row honored t t'' :=
  ⟨h'.instant.trans h.instant, h'.row.trans h.row, h'.now.trans h.now, h.honored ∘ h'.honored,
    Nat.le_trans h.shots h'.shots, Nat.le_trans h.tickers h'.tickers⟩

theorem inside {t t' : Timeline σ} (hinstant : t'.instant = t.instant)
    (houtside : t'.outside = t.outside) (hshots : t.shots.length ≤ t'.shots.length)
    (htickers : t.tickers.length ≤ t'.tickers.length) : Unmoved o row honored t t' :=
  ⟨hinstant, by rw [houtside], by rw [houtside], fun h => houtside ▸ h, hshots, htickers⟩

theorem wakeAt (due : Nat) (w : Wake) : Unmoved o row honored t (t.wakeAt due w) :=
  .inside rfl rfl (Nat.le_refl _) (Nat.le_refl _)

theorem addAnswer (caller : Nat) (result : Option (Except Unavailable Agent)) :
    Unmoved o row honored t (t.addAnswer caller result) :=
  .inside rfl rfl (Nat.le_refl _) (Nat.le_refl _)

theorem setShot (i : Nat) (s : OneShot) : Unmoved o row honored t (t.setShot i s) :=
  .inside rfl rfl (by simp [Timeline.setShot]) (Nat.le_refl _)

theorem setTicker (k : Nat) (ticker : Ticker) : Unmoved o row honored t (t.setTicker k ticker) :=
  .inside rfl rfl (Nat.le_refl _) (by simp [Timeline.setTicker])

theorem finishTick (k : Nat) : Unmoved o row honored t (t.finishTick k) := by
  rw [Timeline.finishTick]
  split
  · exact .refl t
  · exact (setTicker ..).trans (wakeAt ..)

end Unmoved

theorem Unmoved.perform (ho : o.Tends d margin row honored) {r : Work.Request}
    (hr : r.Spares registry d) (t : Timeline σ) : Unmoved o row honored t (perform o r t).timeline where
  instant := instant_perform o r t
  row := ho.row_eq r t hr.not_changes
  now := ho.now_eq r t
  honored := ho.honored_before r t
  shots := length_shots_perform o r t
  tickers := length_tickers_perform o r t

section Drive

variable (ho : o.Tends d margin row honored)
  (hchores : ∀ c, c.Spares d → Work.Spares registry d (o.perform c))

include hchores

/-- Nothing that is sparing comes between a timer and its charge. -/
theorem Calm.perform (h : Calm registry d own mine t) {r : Work.Request}
    (hr : r.Spares registry d) : Calm registry d own mine (perform o r t).timeline := by
  cases r with
  | store | exchange | attempt | consult | ring => exact h.withOutside _
  | now | sleep | enrolled => exact h
  | launch c => exact h.wakeAt (Nat.le_refl _) (hchores c hr)
  | after delay p c => exact h.addShot hr delay p
  | every period p c => exact h.addTicker hr period p
  | openRegistry => exact h.openRegistry
  | issue n =>
      exact h.setRegistry (fun hn => (hn ▸ h.sound).issue) fun _ => Registry.retains_issue _ d
  | enroll n d' =>
      exact h.setRegistry (fun hn => (hn ▸ h.sound).enroll) fun _ => Registry.retains_enroll _ d d'
  | strike n d' =>
      exact h.setRegistry (fun hn => (hn ▸ h.sound).strike)
        fun hn => (hn ▸ h.sound : (t.registry n).Sound).retains_strike (hr hn)
  | shut n | clear n => exact h.setRegistry (fun hn => absurd hn hr) fun hn => absurd hn hr

include ho

/-- A sparing activity is driven; what is left of it when it has to wait is sparing. -/
theorem Calm.drive {α : Type} {p : Work α} (hp : Work.Spares registry d p)
    (h : Calm registry d own mine t) :
    Calm registry d own mine (drive o p t).2 ∧ Unmoved o row honored t (drive o p t).2 ∧
      ∀ span rest, (drive o p t).1 = .asleep span rest → Work.Spares registry d rest := by
  obtain ⟨⟨hcalm, hunmoved⟩, hrest⟩ := drive_keeps o
    (fun t t' => (Calm registry d own mine t → Calm registry d own mine t') ∧
      Unmoved o row honored t t')
    (fun t => ⟨id, .refl t⟩) (fun _ _ _ h h' => ⟨h'.1 ∘ h.1, h.2.trans h'.2⟩)
    (Work.Request.Spares registry d)
    (fun _ t hr => ⟨fun h => h.perform hchores hr, Unmoved.perform ho hr t⟩) hp t
  exact ⟨hcalm h, hunmoved, hrest⟩

theorem Calm.resume (h : Calm registry d own mine t) {j : Job}
    (hj : Leaves registry d own t (.job j)) :
    Calm registry d own mine (t.resume o j) ∧ Unmoved o row honored t (t.resume o j) := by
  cases j with
  | chore p =>
      obtain ⟨hcalm, hun, hrest⟩ := h.drive ho hchores (p := p) hj
      rw [Timeline.resume]
      generalize Timeline.drive o p t = result at hcalm hun hrest ⊢
      obtain ⟨_ | _ | ⟨span, rest⟩, t'⟩ := result
      · exact ⟨hcalm, hun⟩
      · exact ⟨hcalm, hun⟩
      · exact ⟨hcalm.wakeAt (Nat.le_add_right ..) (hrest span rest rfl), hun.trans (.wakeAt ..)⟩
  | tick k p =>
      obtain ⟨hcalm, hun, hrest⟩ := h.drive ho hchores (p := p) hj.1
      rw [Timeline.resume]
      generalize Timeline.drive o p t = result at hcalm hun hrest ⊢
      obtain ⟨_ | _ | ⟨span, rest⟩, t'⟩ := result
      · exact ⟨hcalm.finishTick hj.2.2, hun.trans (.finishTick ..)⟩
      · exact ⟨hcalm.finishTick hj.2.2, hun.trans (.finishTick ..)⟩
      · have hk : k < t'.tickers.length := Nat.lt_of_lt_of_le hj.2.1 hun.tickers
        exact ⟨hcalm.wakeAt (Nat.le_add_right ..) ⟨hrest span rest rfl, hk, hj.2.2⟩,
          hun.trans (.wakeAt ..)⟩
  | call caller p =>
      obtain ⟨hcalm, hun, hrest⟩ := h.drive ho hchores (p := p) hj
      rw [Timeline.resume]
      generalize Timeline.drive o p t = result at hcalm hun hrest ⊢
      obtain ⟨_ | _ | ⟨span, rest⟩, t'⟩ := result
      · exact ⟨hcalm.addAnswer .., hun.trans (.addAnswer ..)⟩
      · exact ⟨hcalm.addAnswer .., hun.trans (.addAnswer ..)⟩
      · exact ⟨hcalm.wakeAt (Nat.le_add_right ..) (hrest span rest rfl), hun.trans (.wakeAt ..)⟩

theorem Calm.lookAtShot (h : Calm registry d own mine t) {i : Nat} (hlt : i < t.shots.length)
    (hi : ¬ Own.IsShot own i) :
    Calm registry d own mine (t.lookAtShot o i) ∧ Unmoved o row honored t (t.lookAtShot o i) := by
  have hs : t.shots[i]? = some t.shots[i] := List.getElem?_eq_getElem hlt
  rw [Timeline.lookAtShot, hs]
  dsimp only
  have hset := h.setShot hi (s := t.shots[i].stop) (.inl rfl)
  split
  next => exact ⟨h, .refl t⟩
  next hfresh =>
    have hspares := (h.shots i _ hs hi).resolve_left hfresh
    split
    next => exact ⟨hset, .setShot ..⟩
    next =>
      split
      next =>
        obtain ⟨hcalm, hun⟩ := hset.resume ho hchores (j := .chore _) (hchores _ hspares)
        exact ⟨hcalm, (Unmoved.setShot ..).trans hun⟩
      next hdue => exact ⟨h.wakeAt (Nat.le_of_not_le hdue) ⟨hlt, hi⟩, .wakeAt ..⟩

omit ho in
theorem Calm.lookAtTicker (h : Calm registry d own mine t) {k : Nat} (hlt : k < t.tickers.length)
    (hk : ¬ Own.IsTicker own k) :
    Calm registry d own mine (t.lookAtTicker o k) ∧
      Unmoved o row honored t (t.lookAtTicker o k) := by
  have hs : t.tickers[k]? = some t.tickers[k] := List.getElem?_eq_getElem hlt
  have hspares : t.tickers[k].chore.Spares d := h.tickers k _ hs hk
  rw [Timeline.lookAtTicker, hs]
  dsimp only
  split
  next deadline hphase =>
    split
    next => exact ⟨h.setTicker hk hspares, .setTicker ..⟩
    next =>
      split
      next =>
        have hset := h.setTicker (k := t.tickers[k].begin t.instant) hk (by simpa using hspares)
        refine ⟨hset.wakeAt (Nat.le_refl _) ⟨hchores _ hspares, ?_, hk⟩,
          (Unmoved.setTicker ..).trans (.wakeAt ..)⟩
        simpa [Timeline.setTicker] using hlt
      next hready =>
        have hdue : t.instant ≤ deadline := by
          rw [Ticker.isReady, hphase] at hready
          exact Nat.le_of_not_le fun hle => hready (decide_eq_true hle)
        exact ⟨h.wakeAt hdue ⟨hlt, hk⟩, .wakeAt ..⟩
  next => exact ⟨h, .refl t⟩

/-- What comes up leaves the charge to its timer. -/
theorem Calm.wake (h : Calm registry d own mine t) {w : Wake} (hw : Leaves registry d own t w) :
    Calm registry d own mine (t.wake o w) ∧ Unmoved o row honored t (t.wake o w) := by
  cases w with
  | job j => exact h.resume ho hchores hw
  | shot i => exact h.lookAtShot ho hchores hw.1 hw.2
  | ticker k => exact h.lookAtTicker hchores hw.1 hw.2

end Drive

/-- What comes up next is the timer's own event, or it leaves the charge alone. -/
theorem Calm.pop {e m : Event} {es : List Event} (h : Calm registry d own [m] t)
    (he : t.events = e :: es) :
    e = m ∧ Calm registry d own [] { t with events := es } ∨
      Leaves registry d own t e.wake ∧ Calm registry d own [m] { t with events := es } := by
  obtain ⟨rest, hperm, hleaves⟩ := h.events
  have hframe {mine : List Event}
      (hmine : ∃ rest, es.Perm (mine ++ rest) ∧ ∀ e ∈ rest, Leaves registry d own t e.wake) :
      Calm registry d own mine { t with events := es } :=
    { h with events := hmine, due := fun e' he' => h.due e' (he ▸ List.mem_cons_of_mem _ he') }
  rw [he] at hperm
  rcases List.mem_cons.mp (hperm.subset List.mem_cons_self) with rfl | hmem
  · exact .inl ⟨rfl, hframe ⟨rest, hperm.cons_inv, hleaves⟩⟩
  · obtain ⟨before, after, rfl⟩ := List.append_of_mem hmem
    refine .inr ⟨hleaves e hmem, hframe ⟨before ++ after, ?_, fun e' he' => hleaves e' ?_⟩⟩
    · have hmiddle : ([m] ++ (before ++ e :: after)).Perm (e :: m :: (before ++ after)) :=
        (List.perm_middle.cons m).trans (.swap ..)
      exact (hperm.trans hmiddle).cons_inv
    · rcases List.mem_append.mp he' with hb | ha
      · exact List.mem_append_left _ hb
      · exact List.mem_append_right _ (List.mem_cons_of_mem _ ha)

end Timeline

end Upkeep
