import Upkeep.Proofs.Timer.Clients

/-!
Timers under calls side by side. A timer that was started for an identifier and whose permit is good
is the one that the registry holds for it, so that no identifier is kept up twice. What a
cancellation or a shutdown has withdrawn stays withdrawn.
-/

namespace Upkeep

namespace Handle

variable {σ : Type}

def Client.IsNear (h : Handle) (c : Client) : Prop :=
  (∃ b, c.rest = .done b) ∨ (∃ d delay serial, c.rest = h.handOver d delay serial) ∨
    c.rest = h.clearing

namespace Scene

variable (o : Outside σ) {h : Handle} {s : Scene σ} {i : Nat}

def Precedes (s : Scene σ) (m m' : Mark) : Prop := [m, m'].Sublist s.log

/-- The stage of a client depends on its own marks, and on what no turn undoes. -/
theorem Stage.frame {s' : Scene σ} {c : Client} (hs : Stage h s i c)
    (hentered : ∀ d serial, .entered i d serial ∈ s'.log ↔ .entered i d serial ∈ s.log)
    (hanswered : ∀ b, .answered i b ∈ s'.log ↔ .answered i b ∈ s.log)
    (hshut : (s.registry h).isShut = true → (s'.registry h).isShut = true)
    (hempty : (s.registry h).isShut = true → (s.registry h).entered = [] →
      (s'.registry h).entered = []) : Stage h s' i c := by
  cases hs with
  | fresh call hno hna =>
      exact .fresh call (by simpa [hentered] using hno) (by simpa [hanswered] using hna)
  | holding delay hin hna =>
      exact .holding delay ((hentered ..).mpr hin) (by simpa [hanswered] using hna)
  | tracked delay hin ha =>
      exact .tracked delay ((hentered ..).mpr hin) (by simpa [hanswered] using ha)
  | refused d delay hno ha =>
      exact .refused d delay (by simpa [hentered] using hno) (by simpa [hanswered] using ha)
  | cancelled d a ha => exact .cancelled d a (by simpa [hanswered] using ha)
  | shutting hs hna => exact .shutting (hshut hs) (by simpa [hanswered] using hna)
  | ended hs hnil ha => exact .ended (hshut hs) (hempty hs hnil) (by simpa [hanswered] using ha)

theorem Stage.rest_eq {c : Client} (hs : Stage h s i c) {b : Bool} (ha : .answered i b ∈ s.log) :
    c.rest = .done b := by
  cases hs with
  | fresh _ _ hna | holding _ _ hna | shutting _ hna => exact absurd ha (hna b)
  | tracked _ _ ha' | refused _ _ _ ha' | cancelled _ _ ha' | ended _ _ ha' => rw [(ha' b).mp ha]

theorem Stage.answered {c : Client} (hs : Stage h s i c) {b : Bool} (hc : c.rest = .done b) :
    .answered i b ∈ s.log := by
  cases hs with
  | fresh call => cases call <;> exact nomatch hc
  | holding | shutting => exact nomatch hc
  | tracked _ _ ha | refused _ _ _ ha | cancelled _ _ ha | ended _ _ ha =>
      cases hc
      exact (ha _).mpr rfl

structure Orderly (h : Handle) (s : Scene σ) : Prop where
  room : h.registry < s.timeline.registries.length
  stage : ∀ i c, s.clients[i]? = some c → Stage h s i c
  known : ∀ m ∈ s.log, m.client < s.clients.length
  author : ∀ i d serial, .entered i d serial ∈ s.log →
    ∃ delay rest, s.clients[i]? = some ⟨.track d delay, rest⟩
  issued : ∀ i d serial, .entered i d serial ∈ s.log → serial < (s.registry h).issued
  /-- A serial belongs to one client and one identifier. -/
  owner : ∀ i d i' d' serial, .entered i d serial ∈ s.log → .entered i' d' serial ∈ s.log →
    i = i' ∧ d = d'
  held : ∀ i d serial, .entered i d serial ∈ s.log → (s.registry h).permits serial = true →
    (s.registry h).entered.get? d = some serial
  /-- Each timer comes from a client that has entered its identifier and has nothing more to do. -/
  started : ∀ shot ∈ s.timeline.shots, shot.permit.registry = h.registry →
    ∃ i d delay, .entered i d shot.permit.serial ∈ s.log ∧
      shot.chore = h.chain d shot.permit.serial ∧
      s.clients[i]? = some ⟨.track d delay, .done true⟩
  apart : s.timeline.shots.Pairwise fun a b =>
    a.permit.registry = h.registry → b.permit.registry = h.registry →
      a.permit.serial ≠ b.permit.serial
  /-- After a cancellation no permit of the identifier is good until it is entered again. -/
  withdrawn : ∀ i d a, s.clients[i]? = some ⟨.cancel d, a⟩ → .answered i true ∈ s.log →
    (∀ j serial, ¬ s.Precedes (.answered i true) (.entered j d serial)) →
    ∀ j serial, .entered j d serial ∈ s.log → (s.registry h).permits serial = false
  /-- A client that begins to track after a shutdown has nothing in hand. -/
  late : ∀ i j b d delay a rest, s.clients[i]? = some ⟨.shutDown, a⟩ →
    s.Precedes (.answered i b) (.began j) → s.clients[j]? = some ⟨.track d delay, rest⟩ →
    rest = h.track d delay ∨ rest = .done false

theorem Orderly.ended (hs : Orderly h s) {k : Nat} {a : Work Bool} {b : Bool}
    (hk : s.clients[k]? = some ⟨.shutDown, a⟩) (ha : .answered k b ∈ s.log) :
    (s.registry h).isShut = true ∧ (s.registry h).entered = [] := by
  generalize hc : (⟨.shutDown, a⟩ : Client) = c at hk
  cases hs.stage k c hk with
  | fresh _ _ hna | holding _ _ hna | shutting _ hna => exact absurd ha (hna b)
  | tracked | refused | cancelled => exact nomatch congrArg Client.call hc
  | ended hshut hempty => exact ⟨hshut, hempty⟩

namespace Effect

variable {s' : Scene σ}

/-- A turn adds marks of its client only, which has begun before. -/
theorem log_eq (e : Effect h i s s') : ∃ new, s'.log = s.log ++ new ∧
    (∀ m ∈ new, m.client = i ∧ i < s.clients.length) ∧ ∀ j, .began j ∉ new := by
  cases e with
  | idle | shut => exact ⟨[], (List.append_nil _).symm, (fun m hm => nomatch hm), by simp⟩
  | enter hc | refuse hc | handOver hc | strike hc | miss hc | clear hc =>
      refine ⟨_, rfl, fun m hm => ?_, by simp⟩
      rw [List.mem_singleton.mp hm]
      exact ⟨rfl, (List.getElem?_eq_some_iff.mp hc).1⟩

theorem clients_of_ne (e : Effect h i s s') {j : Nat} (hj : j ≠ i) :
    s'.clients[j]? = s.clients[j]? := by
  cases e <;> first
    | rfl
    | exact List.getElem?_set_ne hj.symm

theorem length_clients (e : Effect h i s s') : s'.clients.length = s.clients.length := by
  cases e <;> simp

theorem room (e : Effect h i s s') (hs : h.registry < s.timeline.registries.length) :
    h.registry < s'.timeline.registries.length := by
  cases e <;> simpa using hs

theorem mem_log_iff (e : Effect h i s s') {m : Mark} (hm : m.client ≠ i) :
    m ∈ s'.log ↔ m ∈ s.log := by
  obtain ⟨new, hlog, hnew, -⟩ := e.log_eq
  rw [hlog, List.mem_append]
  exact ⟨fun hor => hor.resolve_right fun hin => hm (hnew m hin).1, Or.inl⟩

theorem isShut (e : Effect h i s s') (hroom : h.registry < s.timeline.registries.length)
    (hs : (s.registry h).isShut = true) : (s'.registry h).isShut = true := by
  cases e with
  | idle | refuse | miss => exact hs
  | enter _ _ hopen => exact nomatch hopen.symm.trans hs
  | handOver => exact (congrArg Registry.isShut (Timeline.registry_addShot ..)).trans hs
  | strike | shut | clear =>
      rw [registry, Timeline.registry_setRegistry hroom]
      first | exact hs | rfl

theorem permits_before (e : Effect h i s s') (hroom : h.registry < s.timeline.registries.length)
    {serial : Nat} (hs : (s'.registry h).permits serial = true) :
    (s.registry h).permits serial = true := by
  cases e with
  | idle | refuse | miss => exact hs
  | handOver =>
      rw [registry, Timeline.registry_addShot] at hs
      exact hs
  | enter | clear =>
      rw [registry, Timeline.registry_setRegistry hroom] at hs
      exact hs
  | strike =>
      rw [registry, Timeline.registry_setRegistry hroom, Registry.permits_leave] at hs
      exact (Bool.and_eq_true_iff.mp hs).1
  | shut =>
      rw [registry, Timeline.registry_setRegistry hroom, Registry.permits_shut] at hs
      exact absurd hs Bool.false_ne_true

/-- A registry that was cleared after it was shut stays empty. -/
theorem entered_nil (e : Effect h i s s') (hroom : h.registry < s.timeline.registries.length)
    (hs : (s.registry h).isShut = true) (hnil : (s.registry h).entered = []) :
    (s'.registry h).entered = [] := by
  cases e with
  | idle | refuse | miss => exact hnil
  | enter _ _ hopen => exact nomatch hopen.symm.trans hs
  | handOver => exact (congrArg Registry.entered (Timeline.registry_addShot ..)).trans hnil
  | strike =>
      rw [registry, Timeline.registry_setRegistry hroom, Registry.leave, hnil]
      rfl
  | shut =>
      rw [registry, Timeline.registry_setRegistry hroom]
      exact hnil
  | clear =>
      rw [registry, Timeline.registry_setRegistry hroom]
      rfl

theorem stage_other (e : Effect h i s s') (hroom : h.registry < s.timeline.registries.length) {j : Nat}
    (hj : j ≠ i) {c : Client} (hs : Stage h s j c) : Stage h s' j c :=
  hs.frame (fun _ _ => e.mem_log_iff hj) (fun _ => e.mem_log_iff hj) (e.isShut hroom)
    (e.entered_nil hroom)

theorem stage_self (e : Effect h i s s') (hroom : h.registry < s.timeline.registries.length)
    (hs : ∀ c, s.clients[i]? = some c → Stage h s i c) {c : Client}
    (hc' : s'.clients[i]? = some c) : Stage h s' i c := by
  have hself {c₀ c₁ : Client} (hc : s.clients[i]? = some c₀)
      (hc' : (s.clients.set i c₁)[i]? = some c) : c = c₁ := by
    rw [List.getElem?_set_self (List.getElem?_eq_some_iff.mp hc).1] at hc'
    exact (Option.some.inj hc').symm
  cases e with
  | idle => exact hs c hc'
  | enter hc hna =>
      rw [hself hc hc']
      exact .holding _ (by simp) (by simpa using hna)
  | refuse hc hno hna =>
      rw [hself hc hc']
      exact .refused _ _ (by simpa using hno) (by simp [hna])
  | handOver hc hin hna =>
      rw [hself hc hc']
      exact .tracked _ (List.mem_append_left _ hin) (by simp [hna])
  | strike hc hna | miss hc hna =>
      rw [hself hc hc']
      exact .cancelled _ _ (by simp [hna])
  | shut hc hna =>
      rw [hself hc hc']
      refine .shutting ?_ hna
      rw [registry, Timeline.registry_setRegistry hroom]
      rfl
  | clear hc hshut hna =>
      rw [hself hc hc']
      refine .ended ?_ ?_ (by simp [hna]) <;> rw [registry, Timeline.registry_setRegistry hroom]
      · exact hshut
      · rfl

theorem get?_entered (e : Effect h i s s') (hroom : h.registry < s.timeline.registries.length)
    {d : Did} {serial : Nat} (hd : (s.registry h).entered.get? d = some serial)
    (hs : (s'.registry h).permits serial = true) :
    (s'.registry h).entered.get? d = some serial := by
  cases e with
  | idle | refuse | miss => exact hd
  | handOver =>
      rw [registry, Timeline.registry_addShot]
      exact hd
  | @enter d' _ _ _ _ hnew =>
      have hne : d ≠ d' := by
        rintro rfl
        exact Option.some_ne_none _ (hd.symm.trans hnew)
      rw [registry, Timeline.registry_setRegistry hroom]
      exact (Table.get?_insert_of_ne _ _ hne).trans hd
  | @strike d' serial' _ _ hin =>
      rw [registry, Timeline.registry_setRegistry hroom] at hs ⊢
      have hne : d ≠ d' := by
        rintro rfl
        rw [Option.some.inj (hd.symm.trans hin)] at hs
        simp at hs
      exact (Table.get?_erase_of_ne _ hne).trans hd
  | shut =>
      rw [registry, Timeline.registry_setRegistry hroom, Registry.permits_shut] at hs
      exact absurd hs Bool.false_ne_true
  | clear _ hshut =>
      rw [registry, Timeline.registry_setRegistry hroom, Registry.permits_clear,
        Registry.not_permits_of_isShut hshut] at hs
      exact absurd hs Bool.false_ne_true

theorem issued_le (e : Effect h i s s') (hroom : h.registry < s.timeline.registries.length) :
    (s.registry h).issued ≤ (s'.registry h).issued := by
  cases e with
  | idle | refuse | miss => exact Nat.le_refl _
  | handOver => exact Nat.le_of_eq (congrArg Registry.issued (Timeline.registry_addShot ..)).symm
  | enter =>
      rw [registry, registry, Timeline.registry_setRegistry hroom]
      exact Nat.le_succ _
  | strike | shut | clear =>
      rw [registry, registry, Timeline.registry_setRegistry hroom]
      exact Nat.le_refl _

/-- A turn changes what a client has still to do, not what it is doing. -/
theorem call_eq (e : Effect h i s s') {j : Nat} {call : Call} {rest : Work Bool}
    (hc' : s'.clients[j]? = some ⟨call, rest⟩) : ∃ rest', s.clients[j]? = some ⟨call, rest'⟩ := by
  by_cases hj : j = i
  · subst hj
    cases e with
    | idle => exact ⟨rest, hc'⟩
    | enter hc | refuse hc | handOver hc | strike hc | miss hc | shut hc | clear hc =>
        rw [List.getElem?_set_self (List.getElem?_eq_some_iff.mp hc).1] at hc'
        cases Option.some.inj hc'
        exact ⟨_, hc⟩
  · exact ⟨rest, (e.clients_of_ne hj).symm.trans hc'⟩

theorem call_after (e : Effect h i s s') {j : Nat} {call : Call} {rest : Work Bool}
    (hc : s.clients[j]? = some ⟨call, rest⟩) : ∃ rest', s'.clients[j]? = some ⟨call, rest'⟩ := by
  have hj : j < s'.clients.length := e.length_clients ▸ (List.getElem?_eq_some_iff.mp hc).1
  obtain ⟨rest₀, hc₀⟩ := e.call_eq (List.getElem?_eq_getElem hj)
  cases Option.some.inj (hc₀.symm.trans hc)
  exact ⟨_, List.getElem?_eq_getElem hj⟩

/-- A turn enters nobody, or one identifier with the next serial. -/
theorem entered_cases (e : Effect h i s s') (hroom : h.registry < s.timeline.registries.length) :
    (∀ j d serial, .entered j d serial ∈ s'.log ↔ .entered j d serial ∈ s.log) ∨
    ∃ d delay, s.clients[i]? = some ⟨.track d delay, h.track d delay⟩ ∧
      s'.log = s.log ++ [.entered i d (s.registry h).issued] ∧
      (s'.registry h).issued = (s.registry h).issued + 1 ∧
      (s'.registry h).entered.get? d = some (s.registry h).issued := by
  cases e with
  | @enter d delay hc _ _ hnew =>
      refine .inr ⟨d, delay, hc, rfl, ?_, ?_⟩ <;> rw [registry, Timeline.registry_setRegistry hroom]
      · rfl
      · exact Table.get?_insert_self ..
  | _ => exact .inl fun j d serial => by simp

theorem author (e : Effect h i s s') (hs : Orderly h s) {j : Nat} {d : Did} {serial : Nat}
    (hin : .entered j d serial ∈ s'.log) :
    ∃ delay rest, s'.clients[j]? = some ⟨.track d delay, rest⟩ := by
  have hold {delay : Duration} {rest : Work Bool}
      (hc : s.clients[j]? = some ⟨.track d delay, rest⟩) :
      ∃ delay rest, s'.clients[j]? = some ⟨.track d delay, rest⟩ := ⟨delay, e.call_after hc⟩
  rcases e.entered_cases hs.room with hsame | ⟨d', delay, hc, hlog, -⟩
  · obtain ⟨delay, rest, hc⟩ := hs.author _ _ _ ((hsame ..).mp hin)
    exact hold hc
  · rw [hlog, List.mem_append, List.mem_singleton] at hin
    rcases hin with hin | heq
    · obtain ⟨delay, rest, hc⟩ := hs.author _ _ _ hin
      exact hold hc
    · cases heq
      exact hold hc

theorem issued (e : Effect h i s s') (hs : Orderly h s) {j : Nat} {d : Did} {serial : Nat}
    (hin : .entered j d serial ∈ s'.log) : serial < (s'.registry h).issued := by
  rcases e.entered_cases hs.room with hsame | ⟨d', delay, -, hlog, hissued, -⟩
  · exact Nat.lt_of_lt_of_le (hs.issued _ _ _ ((hsame ..).mp hin)) (e.issued_le hs.room)
  · rw [hlog, List.mem_append, List.mem_singleton] at hin
    rcases hin with hin | heq
    · exact Nat.lt_of_lt_of_le (hs.issued _ _ _ hin) (e.issued_le hs.room)
    · cases heq
      omega

theorem owner (e : Effect h i s s') (hs : Orderly h s) {j j' : Nat} {d d' : Did} {serial : Nat}
    (hin : .entered j d serial ∈ s'.log) (hin' : .entered j' d' serial ∈ s'.log) :
    j = j' ∧ d = d' := by
  rcases e.entered_cases hs.room with hsame | ⟨d₀, delay, -, hlog, -⟩
  · exact hs.owner _ _ _ _ _ ((hsame ..).mp hin) ((hsame ..).mp hin')
  · rw [hlog, List.mem_append, List.mem_singleton] at hin hin'
    rcases hin with hin | heq <;> rcases hin' with hin' | heq'
    · exact hs.owner _ _ _ _ _ hin hin'
    · cases heq'
      exact absurd (hs.issued _ _ _ hin) (Nat.lt_irrefl _)
    · cases heq
      exact absurd (hs.issued _ _ _ hin') (Nat.lt_irrefl _)
    · cases heq
      cases heq'
      exact ⟨rfl, rfl⟩

theorem held (e : Effect h i s s') (hs : Orderly h s) {j : Nat} {d : Did} {serial : Nat}
    (hin : .entered j d serial ∈ s'.log) (hp : (s'.registry h).permits serial = true) :
    (s'.registry h).entered.get? d = some serial := by
  have hold (hin : .entered j d serial ∈ s.log) :=
    e.get?_entered hs.room (hs.held _ _ _ hin (e.permits_before hs.room hp)) hp
  rcases e.entered_cases hs.room with hsame | ⟨d', delay, -, hlog, -, hget⟩
  · exact hold ((hsame ..).mp hin)
  · rw [hlog, List.mem_append, List.mem_singleton] at hin
    rcases hin with hin | heq
    · exact hold hin
    · cases heq
      exact hget

theorem clients_done (e : Effect h i s s') {j : Nat} {call : Call} {b : Bool}
    (hc : s.clients[j]? = some ⟨call, .done b⟩) : s'.clients[j]? = some ⟨call, .done b⟩ := by
  by_cases hj : j = i
  · subst hj
    cases e with
    | idle => exact hc
    | enter hc' | refuse hc' | handOver hc' | strike hc' | miss hc' | shut hc' | clear hc' =>
        exact nomatch congrArg Client.rest (Option.some.inj (hc'.symm.trans hc))
  · exact (e.clients_of_ne hj).trans hc

/-- A turn starts no timer, or that of a client which has its identifier in hand. -/
theorem shots_cases (e : Effect h i s s') :
    (∃ f : OneShot → OneShot, (∀ x, (f x).permit = x.permit ∧ (f x).chore = x.chore) ∧
      s'.timeline.shots = s.timeline.shots.map f) ∨
    ∃ d delay serial shot, .entered i d serial ∈ s.log ∧
      s.clients[i]? = some ⟨.track d delay, h.handOver d delay serial⟩ ∧
      s'.clients[i]? = some ⟨.track d delay, .done true⟩ ∧
      shot.permit = ⟨h.registry, serial⟩ ∧ shot.chore = h.chain d serial ∧
      s'.timeline.shots = s.timeline.shots ++ [shot] := by
  cases e with
  | @handOver d delay serial hc hin =>
      exact .inr ⟨d, delay, serial, _, hin, hc,
        List.getElem?_set_self (List.getElem?_eq_some_iff.mp hc).1, rfl, rfl,
        Timeline.shots_addShot ..⟩
  | idle | refuse | miss => exact .inl ⟨id, fun _ => ⟨rfl, rfl⟩, (List.map_id _).symm⟩
  | enter | strike | shut | clear => exact .inl (Timeline.shots_lapse ..)

theorem started (e : Effect h i s s') (hs : Orderly h s) {shot : OneShot}
    (hshot : shot ∈ s'.timeline.shots) (hr : shot.permit.registry = h.registry) :
    ∃ i d delay, .entered i d shot.permit.serial ∈ s'.log ∧
      shot.chore = h.chain d shot.permit.serial ∧
      s'.clients[i]? = some ⟨.track d delay, .done true⟩ := by
  obtain ⟨new, hlog, -⟩ := e.log_eq
  have hold {shot : OneShot} (hshot : shot ∈ s.timeline.shots)
      (hr : shot.permit.registry = h.registry) : ∃ i d delay,
      .entered i d shot.permit.serial ∈ s'.log ∧ shot.chore = h.chain d shot.permit.serial ∧
        s'.clients[i]? = some ⟨.track d delay, .done true⟩ := by
    obtain ⟨j, d, delay, hin, hchore, hc⟩ := hs.started shot hshot hr
    exact ⟨j, d, delay, hlog ▸ List.mem_append_left _ hin, hchore, e.clients_done hc⟩
  rcases e.shots_cases with ⟨f, hf, hsame⟩ | ⟨d, delay, serial, new, hin, -, hc, hpermit, hchore, hshots⟩
  · obtain ⟨x, hx, rfl⟩ := List.mem_map.mp (hsame ▸ hshot)
    rw [(hf x).1] at hr ⊢
    rw [(hf x).2]
    exact hold hx hr
  · rw [hshots, List.mem_append, List.mem_singleton] at hshot
    rcases hshot with hshot | rfl
    · exact hold hshot hr
    · rw [hpermit]
      exact ⟨i, d, delay, hlog ▸ List.mem_append_left _ hin, hchore, hc⟩

theorem apart (e : Effect h i s s') (hs : Orderly h s) :
    s'.timeline.shots.Pairwise fun a b =>
      a.permit.registry = h.registry → b.permit.registry = h.registry →
        a.permit.serial ≠ b.permit.serial := by
  rcases e.shots_cases with ⟨f, hf, hsame⟩ | ⟨d, delay, serial, new, hin, hc, -, hpermit, -, hshots⟩
  · rw [hsame, List.pairwise_map]
    simpa only [(hf _).1] using hs.apart
  · rw [hshots, List.pairwise_append]
    refine ⟨hs.apart, List.pairwise_singleton .., fun a ha b hb hra _ hserial => ?_⟩
    rw [List.mem_singleton.mp hb, hpermit] at hserial
    -- the serials differ because the client of an older timer is done, and this one was not
    obtain ⟨j, d', delay', hin', -, hc'⟩ := hs.started a ha hra
    obtain ⟨rfl, -⟩ := hs.owner _ _ _ _ _ (hserial ▸ hin') hin
    exact nomatch congrArg Client.rest (Option.some.inj (hc.symm.trans hc'))

/-- The answer that an identifier was there to be struck out is old, or comes from this turn. -/
theorem answered_cancel (e : Effect h i s s') {j : Nat} {d : Did} {rest : Work Bool}
    (hc' : s'.clients[j]? = some ⟨.cancel d, rest⟩) (hin : .answered j true ∈ s'.log) :
    .answered j true ∈ s.log ∨ ∃ serial, (s.registry h).entered.get? d = some serial ∧
      s'.timeline = s.timeline.setRegistry h.registry ((s.registry h).leave d serial) ∧
      s'.log = s.log ++ [.answered j true] := by
  by_cases hj : j = i
  · subst hj
    obtain ⟨rest', hc⟩ := e.call_eq hc'
    cases e with
    | idle | shut => exact .inl hin
    | @strike d' serial hc₀ _ hd =>
        cases congrArg Client.call (Option.some.inj (hc₀.symm.trans hc))
        exact .inr ⟨serial, hd, rfl, rfl⟩
    | miss | enter | refuse => exact .inl (by simpa using hin)
    | handOver hc₀ | clear hc₀ => exact nomatch congrArg Client.call (Option.some.inj (hc₀.symm.trans hc))
  · exact .inl ((e.mem_log_iff (m := .answered j true) hj).mp hin)

theorem precedes (e : Effect h i s s') {m m' : Mark} (hp : s.Precedes m m') : s'.Precedes m m' := by
  obtain ⟨new, hlog, -⟩ := e.log_eq
  exact hp.trans (hlog ▸ List.sublist_append_left ..)

theorem withdrawn (e : Effect h i s s') (hs : Orderly h s) {k : Nat} {d : Did} {rest : Work Bool}
    (hc : s'.clients[k]? = some ⟨.cancel d, rest⟩) (ha : .answered k true ∈ s'.log)
    (hnot : ∀ j serial, ¬ s'.Precedes (.answered k true) (.entered j d serial)) {j serial : Nat}
    (hin : .entered j d serial ∈ s'.log) : (s'.registry h).permits serial = false := by
  rw [← Bool.not_eq_true]
  intro hp
  have hp₀ := e.permits_before hs.room hp
  rcases e.answered_cancel hc ha with ha | ⟨serial', hd, ht, hlog⟩
  · have hin₀ : .entered j d serial ∈ s.log := by
      rcases e.entered_cases hs.room with hsame | ⟨d', delay, -, hlog, -⟩
      · exact (hsame ..).mp hin
      · rw [hlog, List.mem_append] at hin
        refine hin.resolve_right fun hnew => hnot j serial ?_
        rw [Precedes, hlog, List.mem_singleton.mp hnew]
        exact (List.singleton_sublist.mpr ha).append (List.Sublist.refl _)
    obtain ⟨rest', hc⟩ := e.call_eq hc
    have hgone := hs.withdrawn k d rest' hc ha (fun j serial hp => hnot j serial (e.precedes hp)) j
      serial hin₀
    exact nomatch hgone.symm.trans hp₀
  · -- the permit that was good is the one that the registry held, which this turn withdraws
    have hin₀ : .entered j d serial ∈ s.log := by simpa [hlog] using hin
    rw [Option.some.inj ((hs.held _ _ _ hin₀ hp₀).symm.trans hd), registry, ht,
      Timeline.registry_setRegistry hs.room] at hp
    simp at hp

theorem late (e : Effect h i s s') (hs : Orderly h s) {k j : Nat} {b : Bool} {d : Did}
    {delay : Duration} {a rest : Work Bool} (hk : s'.clients[k]? = some ⟨.shutDown, a⟩)
    (hp : s'.Precedes (.answered k b) (.began j)) (hc : s'.clients[j]? = some ⟨.track d delay, rest⟩) :
    rest = h.track d delay ∨ rest = .done false := by
  obtain ⟨new, hlog, -, hnew⟩ := e.log_eq
  rw [Precedes, hlog] at hp
  have hp₀ : s.Precedes (.answered k b) (.began j) := pair_sublist_left hp (hnew j)
  obtain ⟨a₀, hk₀⟩ := e.call_eq hk
  by_cases hj : j = i
  · subst hj
    obtain ⟨rest₀, hc₀⟩ := e.call_eq hc
    rcases hs.late _ _ _ _ _ _ _ hk₀ hp₀ hc₀ with rfl | rfl
    · cases e with
      | idle => exact .inl (congrArg Client.rest (Option.some.inj (hc.symm.trans hc₀)))
      | enter _ _ hopen =>
          -- nobody can enter any more, as the shutdown is over
          have ha : .answered k b ∈ s.log := hp₀.subset List.mem_cons_self
          exact nomatch hopen.symm.trans (hs.ended hk₀ ha).1
      | refuse =>
          rw [List.getElem?_set_self (List.getElem?_eq_some_iff.mp hc₀).1] at hc
          exact .inr (congrArg Client.rest (Option.some.inj hc)).symm
      | handOver hc' | strike hc' | miss hc' | shut hc' | clear hc' =>
          exact nomatch Option.some.inj (hc'.symm.trans hc₀)
    · exact .inr (congrArg Client.rest (Option.some.inj (hc.symm.trans (e.clients_done hc₀))))
  · exact hs.late _ _ _ _ _ _ _ hk₀ hp₀ ((e.clients_of_ne hj).symm.trans hc)

theorem orderly (e : Effect h i s s') (hs : Orderly h s) : Orderly h s' where
  room := e.room hs.room
  stage j c hc := by
    by_cases hj : j = i
    · subst hj
      exact e.stage_self hs.room (hs.stage j) hc
    · exact e.stage_other hs.room hj (hs.stage j c ((e.clients_of_ne hj).symm.trans hc))
  known m hm := by
    obtain ⟨new, hlog, hnew, -⟩ := e.log_eq
    rw [e.length_clients]
    rw [hlog, List.mem_append] at hm
    rcases hm with hm | hm
    · exact hs.known m hm
    · rw [(hnew m hm).1]
      exact (hnew m hm).2
  author _ _ _ := e.author hs
  issued _ _ _ := e.issued hs
  owner _ _ _ _ _ := e.owner hs
  held _ _ _ := e.held hs
  started _ := e.started hs
  apart := e.apart hs
  withdrawn _ _ _ hc ha hnot _ _ := e.withdrawn hs hc ha hnot
  late _ _ _ _ _ _ _ := e.late hs

end Effect

section Start

variable (call : Call)

theorem entered_start (j : Nat) (d : Did) (serial : Nat) :
    .entered j d serial ∈ (s.move o h (.start call)).log ↔ .entered j d serial ∈ s.log := by
  simp [move]

theorem answered_start (j : Nat) (b : Bool) :
    .answered j b ∈ (s.move o h (.start call)).log ↔ .answered j b ∈ s.log := by
  simp [move]

theorem clients_start_cases {j : Nat} {c : Client}
    (hc : (s.move o h (.start call)).clients[j]? = some c) :
    s.clients[j]? = some c ∨ j = s.clients.length ∧ c = ⟨call, call.activity h⟩ :=
  getElem?_push_cases hc

variable {call} in
theorem clients_start {j : Nat} {c : Client} (hc : s.clients[j]? = some c) :
    (s.move o h (.start call)).clients[j]? = some c :=
  getElem?_push hc _

theorem Orderly.not_mem_log (hs : Orderly h s) {m : Mark} (hm : m.client = s.clients.length) :
    m ∉ s.log := fun hin => Nat.lt_irrefl _ (hm ▸ hs.known m hin)

theorem Orderly.start (hs : Orderly h s) : Orderly h (s.move o h (.start call)) where
  room := hs.room
  stage j c hc := by
    rcases clients_start_cases o call hc with hc | ⟨rfl, rfl⟩
    · exact (hs.stage j c hc).frame (entered_start o call j) (answered_start o call j) id
        fun _ => id
    · exact .fresh call
        (fun d serial hin => hs.not_mem_log rfl ((entered_start o call _ d serial).mp hin))
        fun b hin => hs.not_mem_log rfl ((answered_start o call _ b).mp hin)
  known m hm := by
    rw [move, List.length_append, List.length_singleton]
    rcases List.mem_append.mp hm with hm | hm
    · exact Nat.lt_succ_of_lt (hs.known m hm)
    · rw [List.mem_singleton.mp hm]
      exact Nat.lt_succ_self _
  author j d serial hin := by
    obtain ⟨delay, rest, hc⟩ := hs.author j d serial ((entered_start ..).mp hin)
    exact ⟨delay, rest, clients_start o hc⟩
  issued j d serial hin := hs.issued j d serial ((entered_start ..).mp hin)
  owner j d j' d' serial hin hin' :=
    hs.owner j d j' d' serial ((entered_start ..).mp hin) ((entered_start ..).mp hin')
  held j d serial hin hp := hs.held j d serial ((entered_start ..).mp hin) hp
  started shot hshot hr := by
    obtain ⟨j, d, delay, hin, hchore, hc⟩ := hs.started shot hshot hr
    exact ⟨j, d, delay, (entered_start ..).mpr hin, hchore, clients_start o hc⟩
  apart := hs.apart
  withdrawn k d rest hc ha hnot j serial hin := by
    have ha₀ := (answered_start ..).mp ha
    rcases clients_start_cases o call hc with hc | ⟨rfl, -⟩
    · refine hs.withdrawn k d rest hc ha₀ (fun j serial hp => hnot j serial ?_) j serial
        ((entered_start ..).mp hin)
      exact hp.trans (List.sublist_append_left ..)
    · exact absurd ha₀ (hs.not_mem_log rfl)
  late k j b d delay a rest hk hp hc := by
    have ha : .answered k b ∈ s.log := (answered_start ..).mp (hp.subset List.mem_cons_self)
    rcases clients_start_cases o call hc with hc | ⟨rfl, heq⟩
    · rcases clients_start_cases o call hk with hk | ⟨rfl, -⟩
      · have hne : j ≠ s.clients.length := Nat.ne_of_lt (List.getElem?_eq_some_iff.mp hc).1
        exact hs.late k j b d delay a rest hk (pair_sublist_left hp (by simpa using hne)) hc
      · exact absurd ha (hs.not_mem_log rfl)
    · cases heq
      exact .inl rfl

end Start

theorem Orderly.turn (hs : Orderly h s) (i : Nat) : Orderly h (s.turn o h i) :=
  (effect_turn o hs.room (hs.stage i)).orderly hs

theorem Orderly.play (hs : Orderly h s) (moves : List Move) : Orderly h (s.play o h moves) := by
  induction moves generalizing s with
  | nil => exact hs
  | cons m moves ih =>
      cases m with
      | start call => exact ih (hs.start o call)
      | turn i => exact ih (hs.turn o i)

namespace Effect

variable {s' : Scene σ} {c : Client}

/-- After one turn of a client at most one is left. -/
theorem isNear (e : Effect h i s s') (hc : s.clients[i]? = some c) :
    ∃ c', s'.clients[i]? = some c' ∧ c'.IsNear h := by
  cases e with
  | idle hdone => exact ⟨c, hc, .inl (hdone c hc)⟩
  | enter | refuse | handOver | strike | miss | shut | clear =>
      refine ⟨_, List.getElem?_set_self (List.getElem?_eq_some_iff.mp hc).1, ?_⟩
      first
        | exact .inl ⟨_, rfl⟩
        | exact .inr (.inl ⟨_, _, _, rfl⟩)
        | exact .inr (.inr rfl)

/-- The last turn of a client ends it. -/
theorem isDone (e : Effect h i s s') (hc : s.clients[i]? = some c) (hnear : c.IsNear h) :
    ∃ call b, s'.clients[i]? = some ⟨call, .done b⟩ := by
  have hlt := (List.getElem?_eq_some_iff.mp hc).1
  cases e with
  | idle hdone =>
      obtain ⟨b, hb⟩ := hdone c hc
      exact ⟨c.call, b, hb ▸ hc⟩
  | refuse | handOver | strike | miss | clear => exact ⟨_, _, List.getElem?_set_self hlt⟩
  | enter hc₀ | shut hc₀ =>
      cases Option.some.inj (hc₀.symm.trans hc)
      rcases hnear with ⟨b, hb⟩ | ⟨d, delay, serial, hb⟩ | hb <;> exact nomatch hb

end Effect

/-- What the clients of a handle can rely on. -/
structure LiveTimers (o : Outside σ) (h : Handle) (s : Scene σ) : Prop where
  /-- A timer whose permit is good keeps up an identifier that is entered with this permit. -/
  held : ∀ shot ∈ s.timeline.shots, shot.permit.registry = h.registry →
    s.timeline.permits shot.permit = true →
      ∃ d, shot.chore = h.chain d shot.permit.serial ∧
        (s.registry h).entered.get? d = some shot.permit.serial
  /-- No identifier has two timers whose permits are good. -/
  single : ∀ (d : Did) (k k' : Nat) (shot shot' : OneShot),
    s.timeline.shots[k]? = some shot → s.timeline.shots[k']? = some shot' →
    shot.permit.registry = h.registry → shot'.permit.registry = h.registry →
    shot.chore = h.chain d shot.permit.serial → shot'.chore = h.chain d shot'.permit.serial →
    s.timeline.permits shot.permit = true → s.timeline.permits shot'.permit = true → k = k'
  /-- A client that tracks is answered yes just when it has entered its identifier. -/
  tracked : ∀ i d delay rest b, s.clients[i]? = some ⟨.track d delay, rest⟩ →
    .answered i b ∈ s.log → (b = true ↔ ∃ serial, .entered i d serial ∈ s.log)
  /-- Nobody else enters an identifier. -/
  entered : ∀ i d serial, .entered i d serial ∈ s.log →
    ∃ delay rest, s.clients[i]? = some ⟨.track d delay, rest⟩
  /-- An identifier that was cancelled and not entered again has no timer whose permit is good. -/
  cancelled : ∀ i d rest, s.clients[i]? = some ⟨.cancel d, rest⟩ → .answered i true ∈ s.log →
    (∀ j serial, ¬ s.Precedes (.answered i true) (.entered j d serial)) →
    ∀ shot ∈ s.timeline.shots, shot.permit.registry = h.registry →
      shot.chore = h.chain d shot.permit.serial → s.timeline.permits shot.permit = false
  /-- After a shutdown nobody is entered and no permit is good. -/
  shut : ∀ i rest b, s.clients[i]? = some ⟨.shutDown, rest⟩ → .answered i b ∈ s.log →
    (s.registry h).entered = [] ∧ ∀ serial, s.timeline.permits ⟨h.registry, serial⟩ = false
  /-- A client that begins to track after a shutdown is answered no. -/
  late : ∀ i j a b d delay rest rest', s.clients[i]? = some ⟨.shutDown, rest⟩ →
    s.Precedes (.answered i a) (.began j) → s.clients[j]? = some ⟨.track d delay, rest'⟩ →
    .answered j b ∈ s.log → b = false
  /-- Every client is answered by its second turn. -/
  answered : ∀ i < s.clients.length, ∃ b, .answered i b ∈ ((s.turn o h i).turn o h i).log

/-- A timer whose permit is good is the one that the registry holds. -/
theorem Orderly.get?_of_chain (hs : Orderly h s) {shot : OneShot} (hshot : shot ∈ s.timeline.shots)
    (hr : shot.permit.registry = h.registry) {d : Did}
    (hchore : shot.chore = h.chain d shot.permit.serial)
    (hp : (s.registry h).permits shot.permit.serial = true) :
    (s.registry h).entered.get? d = some shot.permit.serial := by
  obtain ⟨i, d', delay, hin, hchore', -⟩ := hs.started shot hshot hr
  cases hchore.symm.trans hchore'
  exact hs.held i d _ hin hp

theorem Orderly.eq_of_serial (hs : Orderly h s) {k k' : Nat} {shot shot' : OneShot}
    (hk : s.timeline.shots[k]? = some shot) (hk' : s.timeline.shots[k']? = some shot')
    (hr : shot.permit.registry = h.registry) (hr' : shot'.permit.registry = h.registry)
    (hserial : shot.permit.serial = shot'.permit.serial) : k = k' := by
  obtain ⟨hlt, rfl⟩ := List.getElem?_eq_some_iff.mp hk
  obtain ⟨hlt', rfl⟩ := List.getElem?_eq_some_iff.mp hk'
  have hapart := List.pairwise_iff_getElem.mp hs.apart
  rcases Nat.lt_trichotomy k k' with hlt₀ | heq | hlt₀
  · exact absurd hserial (hapart k k' hlt hlt' hlt₀ hr hr')
  · exact heq
  · exact absurd hserial.symm (hapart k' k hlt' hlt hlt₀ hr' hr)

theorem Orderly.toLive (hs : Orderly h s) : LiveTimers o h s where
  held shot hshot hr hp := by
    obtain ⟨i, d, delay, hin, hchore, -⟩ := hs.started shot hshot hr
    rw [Timeline.permits, hr] at hp
    exact ⟨d, hchore, hs.held i d _ hin hp⟩
  single d k k' shot shot' hk hk' hr hr' hchore hchore' hp hp' := by
    rw [Timeline.permits, hr] at hp
    rw [Timeline.permits, hr'] at hp'
    refine hs.eq_of_serial hk hk' hr hr' (Option.some.inj ?_)
    exact (hs.get?_of_chain (List.mem_of_getElem? hk) hr hchore hp).symm.trans
      (hs.get?_of_chain (List.mem_of_getElem? hk') hr' hchore' hp')
  tracked i d delay rest b hc ha := by
    generalize hcall : (⟨.track d delay, rest⟩ : Client) = c at hc
    cases hs.stage i c hc with
    | fresh _ _ hna | holding _ _ hna | shutting _ hna => exact absurd ha (hna b)
    | tracked _ hin ha' =>
        cases congrArg Client.call hcall
        exact iff_of_true ((ha' b).mp ha) ⟨_, hin⟩
    | refused _ _ hno ha' =>
        rw [(ha' b).mp ha]
        exact iff_of_false Bool.false_ne_true fun hin => hin.elim (hno d)
    | cancelled | ended => cases congrArg Client.call hcall
  entered := hs.author
  cancelled i d rest hc ha hnot shot hshot hr hchore := by
    obtain ⟨j, d', delay, hin, hchore', -⟩ := hs.started shot hshot hr
    cases hchore.symm.trans hchore'
    rw [Timeline.permits, hr]
    exact hs.withdrawn i d rest hc ha hnot j _ hin
  shut i rest b hc ha := by
    obtain ⟨hshut, hempty⟩ := hs.ended hc ha
    exact ⟨hempty, fun serial => Registry.not_permits_of_isShut hshut serial⟩
  late i j a b d delay rest rest' hi hp hj hb := by
    have hrest : rest' = .done b := (hs.stage j _ hj).rest_eq hb
    rcases hs.late i j a d delay rest rest' hi hp hj with htrack | hdone
    · cases htrack.symm.trans hrest
    · cases hrest.symm.trans hdone
      rfl
  answered i hi := by
    have hc := List.getElem?_eq_getElem hi
    obtain ⟨c, hc, hnear⟩ := (effect_turn o hs.room (hs.stage i)).isNear hc
    have hs' := hs.turn o i
    obtain ⟨call, b, hdone⟩ := (effect_turn o hs'.room (hs'.stage i)).isDone hc hnear
    exact ⟨b, ((hs'.turn o i).stage i _ hdone).answered rfl⟩

theorem run_open (period : Duration) (t : Timeline σ) :
    t.run o (Handle.open period) =
      (some ⟨t.registries.length, period⟩, { t with registries := t.registries ++ [.empty] }) := by
  have hdrive : Timeline.drive o (Handle.open period) t =
      Timeline.drive o (.done ⟨t.registries.length, period⟩)
        { t with registries := t.registries ++ [.empty] } := Timeline.drive_atOnce o rfl
  rw [Timeline.run, hdrive, Timeline.drive_done]

theorem orderly_open (period : Duration) (t : Timeline σ)
    (hfresh : ∀ shot ∈ t.shots, shot.permit.registry < t.registries.length) :
    Orderly ⟨t.registries.length, period⟩
      ⟨{ t with registries := t.registries ++ [.empty] }, [], []⟩ where
  room := by simp
  stage _ _ hc := nomatch hc
  known _ hm := nomatch hm
  author _ _ _ hin := nomatch hin
  issued _ _ _ hin := nomatch hin
  owner _ _ _ _ _ hin := nomatch hin
  held _ _ _ hin := nomatch hin
  started shot hshot hr := absurd hr (Nat.ne_of_lt (hfresh shot hshot))
  apart := by
    refine List.pairwise_iff_forall_sublist.mpr fun {a b} hab hra => ?_
    exact absurd hra (Nat.ne_of_lt (hfresh a (hab.subset List.mem_cons_self)))
  withdrawn _ _ _ hc := nomatch hc
  late _ _ _ _ _ _ _ hk := nomatch hk

/-- Whatever calls are made on a handle since it was opened, and in whatever order their turns come,
its clients can rely on their timers. -/
theorem liveTimers (period : Duration) {t₀ t : Timeline σ}
    (hfresh : ∀ shot ∈ t₀.shots, shot.permit.registry < t₀.registries.length)
    (hopen : t₀.run o (Handle.open period) = (some h, t)) (moves : List Move) :
    LiveTimers o h (play o h moves ⟨t, [], []⟩) := by
  cases (run_open o period t₀).symm.trans hopen
  exact ((orderly_open period t₀ hfresh).play o moves).toLive o

/-- An identifier is cancelled while the client that tracks it has not started its timer, and is
tracked again: of its two timers the second is good. -/
theorem liveTimers_tracked_again :
    let d : Did := ⟨"did:a:b", by decide⟩
    let h : Handle := ⟨0, .ofSeconds 600⟩
    let s := play Outside.barren h
      [.start (.track d .zero), .turn 0, .start (.cancel d), .turn 1, .start (.track d .zero),
        .turn 2, .turn 2, .turn 0]
      ⟨{ Timeline.start () false with registries := [.empty] }, [], []⟩
    (s.timeline.shots.map fun shot => s.timeline.permits shot.permit) = [true, false] ∧
      LiveTimers Outside.barren h s := by
  intro d h s
  have hopen : (Timeline.start () false).run Outside.barren (Handle.open (.ofSeconds 600)) =
      (some h, { Timeline.start () false with registries := [.empty] }) := run_open ..
  refine ⟨by decide, ?_⟩
  exact liveTimers Outside.barren (.ofSeconds 600) (List.forall_mem_nil _) hopen _

end Scene

end Handle

end Upkeep
