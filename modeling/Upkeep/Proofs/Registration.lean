import Upkeep.Admin.Router
import Upkeep.Proofs.Start

/-!
Upkeep that was asked for outlasts a restart. Whoever is tracked is marked: a marker is written before
its identifier is tracked, nobody takes markers away, and a start tracks exactly those it finds.
-/

namespace Upkeep

open Store Timeline

namespace Markers

variable {σ : Type} {o : Outside σ} {held : σ → Memory} {m : Markers} {d : Did} {t : Timeline σ}

inductive Registers (m : Markers) (d : Did) (rows : Memory) :
    Option (Except Failure Bool) → Memory → Prop
  | died : Registers m d rows none rows
  | failed (f : Failure) : Registers m d rows (some (.error f)) rows
  | again (h : m.key d ∈ rows.keys) : Registers m d rows (some (.ok false)) rows
  | anew (h : m.key d ∉ rows.keys) :
      Registers m d rows (some (.ok true)) (rows.insert (m.key d) (Utf8.encode d.text))

theorem run_register (ho : o.Stores held) : ∃ x s, t.run o (m.register d) = (x, t.withOutside s) ∧
    m.Registers d (held t.outside) x (held s) := by
  obtain ⟨hget, hfound⟩ := ho.get (m.key d) t.outside
  rcases hx : (o.store (.get (m.key d)) t.outside).1 with _ | _ | _ | value
  · exact ⟨_, _, run_call_dead (c := .get (m.key d)) _ hx, hget ▸ .died⟩
  · exact ⟨_, _, (run_call_error (c := .get (m.key d)) _ hx).trans (run_done _), hget ▸ .failed _⟩
  · have habsent : m.key d ∉ (held t.outside).keys := Table.get?_eq_none_iff.mp (hfound _ hx).symm
    let u := t.withOutside (o.store (.get (m.key d)) t.outside).2
    have hrun : t.run o (m.register d) = u.run o ((Work.put (m.key d) (Utf8.encode d.text)).onSuccess
        fun () => Work.ok true) := run_call_ok (c := .get (m.key d)) _ hx
    rw [hrun, ← hget]
    rw [← hget] at habsent
    rcases ho.put (m.key d) (Utf8.encode d.text) u.outside with ⟨hok, hput⟩ | ⟨hno, hput⟩
    · refine ⟨_, _, (run_call_ok (c := .put ..) _ hok).trans (run_done _), ?_⟩
      rw [hput]
      exact .anew habsent
    · rcases hx' : (o.store (.put (m.key d) (Utf8.encode d.text)) u.outside).1 with _ | _ | ⟨⟨⟩⟩
      · exact ⟨_, _, run_call_dead (c := .put ..) _ hx', hput ▸ .died⟩
      · exact ⟨_, _, (run_call_error (c := .put ..) _ hx').trans (run_done _), hput ▸ .failed _⟩
      · exact absurd hx' hno
  · have hpresent : m.key d ∈ (held t.outside).keys := by
      rw [Table.mem_keys_iff, ← hfound _ hx]
      rfl
    refine ⟨_, _, (run_call_ok (c := .get (m.key d)) _ hx).trans (run_done _), ?_⟩
    rw [hget]
    exact .again hpresent

namespace Registers

variable {rows rows' : Memory} {x : Option (Except Failure Bool)}

theorem ascending (h : m.Registers d rows x rows') (hasc : Table.Ascending rows) :
    Table.Ascending rows' := by
  cases h with
  | anew => exact Table.ascending_insert _ _ hasc
  | _ => exact hasc

theorem mem_keys (h : m.Registers d rows x rows') {key : String} (hkey : key ∈ rows.keys) :
    key ∈ rows'.keys := by
  cases h with
  | anew => exact Table.mem_keys_insert.mpr (.inr hkey)
  | _ => exact hkey

/-- Unless it answers, it changes nothing. -/
theorem eq_of_ne (h : m.Registers d rows x rows') (hx : ∀ registered, x ≠ some (.ok registered)) :
    rows' = rows := by
  cases h with
  | died | failed => rfl
  | again | anew => exact absurd rfl (hx _)

/-- Once it has answered there is a marker, and the answer says whether it is new. -/
theorem marked {registered : Bool} (h : m.Registers d rows (some (.ok registered)) rows') :
    m.key d ∈ rows'.keys ∧ (registered = true ↔ m.key d ∉ rows.keys) := by
  cases h with
  | again hold => exact ⟨hold, nofun, fun hnew => absurd hold hnew⟩
  | anew hnew => exact ⟨Table.mem_keys_insert.mpr (.inl rfl), fun _ => hnew, fun _ => rfl⟩

end Registers

end Markers

/-- The conduct of all who share a store and a handle with those who register: nobody takes markers
away, or tracks an identifier that is not registered. -/
def Conduct.leavesMarks {σ : Type} (m : Markers) (held : σ → Memory) (registry : Nat) : Conduct σ where
  rely _ _ := True
  safe
    | .store (.delete key) => ∀ d, key ≠ m.key d
    | .enroll n _ => n ≠ registry
    | _ => True
  drift s s' := Table.Ascending (held s') ∧ ∀ d, m.key d ∈ (held s).keys → m.key d ∈ (held s').keys

section Others

variable {σ ε : Type} {m : Markers} {held : σ → Memory} {registry : Nat}

/-- What a caretaker does for its chores is such. -/
theorem Caretaker.obeys_leavesMarks {k : Caretaker ε}
    (hprovider : ∀ d, Work.Obeys (Conduct.leavesMarks m held registry) (k.provider d))
    (chore : Chore) : Work.Obeys (Conduct.leavesMarks m held registry) (k.perform chore) := by
  refine k.obeys_perform (fun _ => trivial) (fun _ => trivial) (fun _ => trivial) (fun r hr => ?_)
    hprovider fun _ _ _ _ => trivial
  cases r with
  | store c =>
      cases c with
      | delete => exact hr.elim
      | _ => trivial
  | _ => exact hr.elim

/-- Whoever is tracked is marked, and so are certain others. -/
structure Timeline.Backed (m : Markers) (held : σ → Memory) (registry : Nat) (others : Did → Prop)
    (t : Timeline σ) : Prop where
  room : registry < t.registries.length
  ascending : Table.Ascending (held t.outside)
  tracked : ∀ d ∈ (t.registry registry).enrolled, m.key d ∈ (held t.outside).keys
  others : ∀ d, others d → m.key d ∈ (held t.outside).keys

namespace Timeline.Backed

variable {others : Did → Prop} {o : Outside σ} {t t' : Timeline σ}

theorem congr (h : Backed m held registry others t) (houtside : t'.outside = t.outside)
    (hregistries : t'.registries = t.registries) : Backed m held registry others t' := by
  refine ⟨hregistries ▸ h.room, houtside ▸ h.ascending, ?_, houtside ▸ h.others⟩
  rw [Timeline.registry, hregistries, houtside]
  exact h.tracked

/-- What surrounds a timeline changes, and no marker is lost. -/
theorem withOutside (h : Backed m held registry others t) {s : σ} (hasc : Table.Ascending (held s))
    (hmarks : ∀ d, m.key d ∈ (held t.outside).keys → m.key d ∈ (held s).keys) :
    Backed m held registry others (t.withOutside s) :=
  ⟨h.room, hasc, fun d hd => hmarks d (h.tracked d hd), fun d hd => hmarks d (h.others d hd)⟩

theorem withOutside_of_eq (h : Backed m held registry others t) {s : σ}
    (hs : held s = held t.outside) : Backed m held registry others (t.withOutside s) :=
  h.withOutside (hs ▸ h.ascending) fun _ hd => hs ▸ hd

/-- A registry changes, and whoever is new in it is marked. -/
theorem setRegistry (h : Backed m held registry others t) {n : Nat} {r : Registry}
    (hr : n = registry → ∀ d ∈ r.enrolled, d ∈ (t.registry n).enrolled ∨
      m.key d ∈ (held t.outside).keys) : Backed m held registry others (t.setRegistry n r) := by
  refine ⟨?_, h.ascending, fun d hd => ?_, h.others⟩
  · rw [length_setRegistry]
    exact h.room
  · by_cases hn : n = registry
    · subst hn
      rw [registry_setRegistry h.room] at hd
      exact (hr rfl d hd).elim (h.tracked d) id
    · rw [registry_setRegistry_of_ne t hn] at hd
      exact h.tracked d hd

theorem perform (ho : o.Stores held) (h : Backed m held registry others t) {r : Work.Request}
    (hr : (Conduct.leavesMarks m held registry).safe r) :
    Backed m held registry others (t.perform o r).timeline := by
  cases r with
  | store c =>
      refine h.withOutside (ho.ascending c h.ascending) fun d hd => ho.mem_keys ?_ h.ascending hd
      rintro rfl
      exact hr d rfl
  | exchange g => exact h.withOutside_of_eq (ho.exchange g _)
  | attempt d => exact h.withOutside_of_eq (ho.attempt d _ _)
  | consult d => exact h.withOutside_of_eq (ho.consult d _)
  | ring bell => exact h.withOutside_of_eq (ho.ring bell _)
  | after => exact h.congr (outside_addShot ..) (registries_addShot ..)
  | every => exact h.congr (outside_addTicker ..) (registries_addTicker ..)
  | openRegistry =>
      refine ⟨?_, h.ascending, ?_, h.others⟩
      · exact lt_length_openRegistry h.room
      · exact (registry_openRegistry h.room).symm ▸ h.tracked
  | issue n => exact h.setRegistry fun _ d hd => .inl hd
  | enroll n d => exact h.setRegistry fun hn => absurd hn hr
  | strike n d => exact h.setRegistry fun _ d' hd => .inl (Registry.mem_enrolled_of_strike hd)
  | shut n => exact h.setRegistry fun _ d hd => .inl hd
  | clear n => exact h.setRegistry fun _ d hd => by cases hd
  | _ => exact h.congr rfl rfl

theorem upholds (ho : o.Stores held)
    (hperform : ∀ chore, Work.Obeys (Conduct.leavesMarks m held registry) (o.perform chore)) :
    Upholds o (Conduct.leavesMarks m held registry) (Backed m held registry others) where
  congr h houtside hregistries _ := h.congr houtside hregistries
  perform _ _ h hr := h.perform ho hr
  rely _ _ _ _ _ _ := trivial
  drift _ _ s h hs := (h.withOutside (s := s) hs.1 hs.2).congr rfl rfl
  launch chore _ := hperform chore
  after _ _ chore _ := hperform chore
  every _ _ chore _ := hperform chore

end Timeline.Backed

end Others

namespace Handle

variable {σ : Type} {o : Outside σ} {h : Handle} {t : Timeline σ}

theorem run_isTracked (d : Did) :
    t.run o (h.isTracked d) = (some ((t.registry h.registry).enrolled.contains d), t) :=
  (run_ask (r := .enrolled _) rfl).trans (run_done _)

theorem track_answers (d : Did) (delay : Duration) :
    ∃ b t', t.run o (h.track d delay) = (some b, t') := by
  rcases run_track_cases (o := o) (h := h) (t := t) d delay with ⟨hrun, -⟩ | ⟨hrun, -⟩
  · exact ⟨_, _, hrun⟩
  · exact ⟨_, _, hrun⟩

theorem outside_track (d : Did) (delay : Duration) :
    (t.run o (h.track d delay)).2.outside = t.outside := by
  rcases run_track_cases (o := o) (h := h) (t := t) d delay with ⟨hrun, -⟩ | ⟨hrun, -⟩
  · rw [hrun]
  · rw [hrun, begun, outside_addShot]
    rfl

/-- A handle that is not shut tracks whom it is told to, and whom it tracked before. -/
theorem mem_enrolled_track (hroom : h.registry < t.registries.length) (d d' : Did) (delay : Duration) :
    d' ∈ ((t.run o (h.track d delay)).2.registry h.registry).enrolled ↔
      d' ∈ (t.registry h.registry).enrolled ∨ d' = d ∧ (t.registry h.registry).isShut = false := by
  rcases run_track_cases (o := o) (h := h) (t := t) d delay with ⟨hrun, hno⟩ | ⟨hrun, hopen, hnew⟩
  · rw [hrun]
    refine ⟨.inl, fun hor => hor.elim id ?_⟩
    rintro ⟨rfl, hopen⟩
    exact Table.mem_keys_iff.mpr (hno.resolve_left (Bool.eq_false_iff.mp hopen))
  · rw [hrun, begun, registry_addShot, registry_setRegistry hroom, hopen]
    simpa [Registry.enrolled, Registry.enter] using Table.mem_keys_insert.trans or_comm

end Handle

namespace Admin

def Response.registration (d : Did) (registered tracked : Bool) : Response :=
  .ofJson 200 <| .object
    [("did", .text d.text), ("registered", .bool registered), ("tracked", .bool tracked)]

theorem Response.registration_inj {d d' : Did} {registered registered' tracked tracked' : Bool}
    (h : registration d registered tracked = registration d' registered' tracked') :
    d = d' ∧ registered = registered' ∧ tracked = tracked' := by
  simp only [registration, ofJson, Response.mk.injEq, Body.json.injEq, Json.object.injEq,
    List.cons.injEq, Prod.mk.injEq, Json.text.injEq, Json.bool.injEq, true_and, and_true] at h
  exact ⟨Did.eq_of_text_eq h.1, h.2⟩

namespace Site

variable {σ ε : Type} {o : Outside σ} {held : σ → Memory} {s : Site ε} {segment : String} {d : Did}
  {t t' : Timeline σ} {x : Option Response}

def did? (segment : String) : Option Did :=
  (Utf8.decode (Percent.decode (Utf8.encode segment))).bind fun text => (Did.parse text).toOption

theorem register_of_none (h : did? segment = none) :
    ∃ r, s.register segment = .done r ∧ r.status = 400 := by
  rw [register]
  split
  next => exact ⟨_, rfl, rfl⟩
  next text htext =>
    split
    next e => exact ⟨_, rfl, rfl⟩
    next d hd =>
      rw [did?, htext, Option.bind_some, hd] at h
      cases h

theorem register_of_some (h : did? segment = some d) : s.register segment = s.registerDid d := by
  obtain ⟨text, htext, hd⟩ := Option.bind_eq_some_iff.mp h
  rw [register, htext]
  dsimp only
  cases hparse : Did.parse text with
  | error e =>
      rw [hparse] at hd
      cases hd
  | ok d' =>
      rw [hparse] at hd
      rw [Option.some.inj hd]

theorem run_registerDid : t.run o (s.registerDid d) =
    match t.run o (s.caretaker.markers.register d) with
    | (some (.ok registered), t₁) =>
      let t₂ := (t₁.run o (s.handle.track d .zero)).2
      (some (.registration d registered ((t₂.registry s.handle.registry).enrolled.contains d)), t₂)
    | (some (.error f), t₁) => (some (.ofCode .internal f.message), t₁)
    | (none, t₁) => (none, t₁) := by
  rw [registerDid, run_bind_eq]
  rcases t.run o (s.caretaker.markers.register d) with ⟨_ | _ | registered, t₁⟩
  · rfl
  · exact run_done _
  · dsimp only
    rw [run_bind_eq]
    obtain ⟨b, t₂, htrack⟩ := Handle.track_answers (o := o) (h := s.handle) (t := t₁) d .zero
    rw [htrack]
    dsimp only
    rw [run_bind_eq, Handle.run_isTracked]
    exact run_done _

/-- What a request to register comes to. -/
structure Registered (s : Site ε) (o : Outside σ) (held : σ → Memory) (segment : String)
    (t : Timeline σ) (x : Option Response) (t' : Timeline σ) : Prop where
  unreadable : did? segment = none → x.map Response.status = some 400 ∧ t' = t
  failed : ∀ d f, did? segment = some d →
    (t.run o (s.caretaker.markers.register d)).1 = some (.error f) →
      x.map Response.status = some 500 ∧ held t'.outside = held t.outside ∧
        t'.registries = t.registries
  answered : ∀ d registered, did? segment = some d →
    (t.run o (s.caretaker.markers.register d)).1 = some (.ok registered) →
      x.map Response.status = some 200
  served : ∀ r, x = some r → r.status = 200 → ∃ d registered tracked,
    did? segment = some d ∧ r = .registration d registered tracked ∧
      (registered = true ↔ s.caretaker.markers.key d ∉ (held t.outside).keys) ∧
      s.caretaker.markers.key d ∈ (held t'.outside).keys ∧
      (tracked = true ↔ d ∈ (t'.registry s.handle.registry).enrolled) ∧
      ((t.registry s.handle.registry).isShut = false → tracked = true)

theorem registered_run (ho : o.Stores held) (hroom : s.handle.registry < t.registries.length)
    (hrun : t.run o (s.register segment) = (x, t')) : s.Registered o held segment t x t' := by
  cases hd : did? segment with
  | none =>
      obtain ⟨r, hregister, hstatus⟩ := register_of_none (s := s) hd
      rw [hregister, run_done] at hrun
      obtain ⟨rfl, rfl⟩ := Prod.mk.inj hrun
      refine ⟨fun _ => ⟨congrArg some hstatus, rfl⟩, (fun _ _ hd' => nomatch hd.symm.trans hd'),
        (fun _ _ hd' => nomatch hd.symm.trans hd'), fun r' hr' h200 => ?_⟩
      rw [Option.some.inj hr', h200] at hstatus
      cases hstatus
  | some d =>
      obtain ⟨y, s₁, hmark, hregisters⟩ := Markers.run_register (m := s.caretaker.markers) (d := d)
        (t := t) ho
      rw [register_of_some hd, run_registerDid, hmark] at hrun
      refine ⟨(fun hd' => nomatch hd.symm.trans hd'), fun d' f hd' hfails => ?_,
        fun d' registered hd' hok => ?_, fun r hr h200 => ?_⟩
      · cases Option.some.inj (hd.symm.trans hd')
        rw [hmark] at hfails
        cases hfails
        obtain ⟨rfl, rfl⟩ := Prod.mk.inj hrun
        exact ⟨rfl, hregisters.eq_of_ne nofun, rfl⟩
      · cases Option.some.inj (hd.symm.trans hd')
        rw [hmark] at hok
        cases hok
        obtain ⟨rfl, rfl⟩ := Prod.mk.inj hrun
        rfl
      · subst hr
        rcases y with _ | f | registered
        · cases (Prod.mk.inj hrun).1
        · obtain ⟨hresponse, -⟩ := Prod.mk.inj hrun
          rw [← Option.some.inj hresponse] at h200
          cases h200
        · obtain ⟨hresponse, rfl⟩ := Prod.mk.inj hrun
          obtain ⟨hmarked, hnew⟩ := hregisters.marked
          have henrolled := Handle.mem_enrolled_track (o := o) (h := s.handle)
            (t := t.withOutside s₁) hroom d d .zero
          refine ⟨d, registered, _, hd, (Option.some.inj hresponse).symm, hnew, ?_,
            List.contains_iff_mem, fun hopen => ?_⟩
          · rw [Handle.outside_track]
            exact hmarked
          · exact List.contains_iff_mem.mpr (henrolled.mpr (.inr ⟨rfl, hopen⟩))

/-- How a timeline goes on while requests to register come in, identifiers are cancelled and the
handle is shut down, and others do what they do. -/
inductive Moves (s : Site ε) (o : Outside σ) (held : σ → Memory) : Timeline σ → Timeline σ → Prop
  | register (t : Timeline σ) (segment : String) : Moves s o held t (t.run o (s.register segment)).2
  | cancel (t : Timeline σ) (d : Did) : Moves s o held t (t.run o (s.handle.cancel d)).2
  | shutDown (t : Timeline σ) : Moves s o held t (t.run o s.handle.shutDown).2
  | others {t t' : Timeline σ}
      (h : t.Goes o (.leavesMarks s.caretaker.markers held s.handle.registry) t') : Moves s o held t t'

/-- What waits to be done takes no markers away, and whoever is tracked is marked. -/
def Keeps (s : Site ε) (o : Outside σ) (held : σ → Memory) (marked : Did → Prop) (t : Timeline σ) :
    Prop :=
  Minds o (.leavesMarks s.caretaker.markers held s.handle.registry) none t ∧
    t.Backed s.caretaker.markers held s.handle.registry marked

theorem Keeps.remember {marked : Did → Prop} (h : s.Keeps o held marked t) :
    s.Keeps o held (fun d => s.caretaker.markers.key d ∈ (held t.outside).keys) t :=
  ⟨h.1, h.2.room, h.2.ascending, h.2.tracked, fun _ hd => hd⟩

section Kept

variable {marked : Did → Prop} (hperform : ∀ chore,
  Work.Obeys (Conduct.leavesMarks s.caretaker.markers held s.handle.registry) (o.perform chore))

include hperform

theorem Keeps.track (h : s.Keeps o held marked t)
    (hd : s.caretaker.markers.key d ∈ (held t.outside).keys) (delay : Duration) :
    s.Keeps o held marked (t.run o (s.handle.track d delay)).2 := by
  rcases Handle.run_track_cases (o := o) (h := s.handle) (t := t) d delay with ⟨hrun, -⟩ | ⟨hrun, -⟩
  · rw [hrun]
    exact h
  · rw [hrun, Handle.begun]
    refine ⟨(h.1.setRegistry _ _).addShot delay _ (hperform _), ?_⟩
    refine Backed.congr (h.2.setRegistry fun _ d' hd' => ?_) (outside_addShot ..)
      (registries_addShot ..)
    rcases Table.mem_keys_insert.mp hd' with rfl | hold
    · exact .inr hd
    · exact .inl hold

variable (ho : o.Stores held)

include ho

theorem Keeps.register (h : s.Keeps o held marked t) (segment : String) :
    s.Keeps o held marked (t.run o (s.register segment)).2 := by
  cases hd : did? segment with
  | none =>
      obtain ⟨r, hregister, -⟩ := register_of_none (s := s) hd
      rw [hregister, run_done]
      exact h
  | some d =>
      obtain ⟨y, s₁, hmark, hregisters⟩ := Markers.run_register (m := s.caretaker.markers) (d := d)
        (t := t) ho
      have hkept : s.Keeps o held marked (t.withOutside s₁) :=
        ⟨h.1.mono (fun _ he => he) rfl rfl,
          h.2.withOutside (hregisters.ascending h.2.ascending) fun _ hkey => hregisters.mem_keys hkey⟩
      rw [register_of_some hd, run_registerDid, hmark]
      rcases y with _ | _ | registered
      · exact hkept
      · exact hkept
      · exact hkept.track hperform hregisters.marked.1 .zero

theorem Keeps.moves (h : s.Keeps o held marked t) (hmoves : s.Moves o held t t') :
    s.Keeps o held marked t' := by
  have hgoes {u : Timeline σ}
      (hu : t.Goes o (.leavesMarks s.caretaker.markers held s.handle.registry) u) :
      s.Keeps o held marked u :=
    h.1.goes_whole (Backed.upholds ho hperform) h.2 hu
  cases hmoves with
  | register segment => exact h.register hperform ho segment
  | cancel d => exact hgoes (.run ⟨trivial, fun _ _ => trivial⟩)
  | shutDown => exact hgoes (.run ⟨trivial, fun _ _ => ⟨trivial, fun _ _ => trivial⟩⟩)
  | others hu => exact hgoes hu

theorem Keeps.life (h : s.Keeps o held marked t)
    (hlife : Relation.ReflTransGen (s.Moves o held) t t') : s.Keeps o held marked t' := by
  induction hlife with
  | refl => exact h
  | tail _ hmoves ih => exact ih.moves hperform ho hmoves

end Kept

/-- Upkeep that was acknowledged outlasts a restart. -/
theorem tracked_after_restart (ho : o.Stores held) (plan : Plan)
    (hperform : o.perform = s.caretaker.perform)
    (hprovider : ∀ d, Work.Obeys
      (Conduct.leavesMarks s.caretaker.markers held s.handle.registry) (s.caretaker.provider d))
    {init : σ} {isManual : Bool} {t₁ t₂ : Timeline σ} (hasc : Table.Ascending (held init))
    (hstart : (Timeline.start init isManual).run o (s.caretaker.start plan) =
      (some (.ok s.handle), t))
    (hbefore : Relation.ReflTransGen (s.Moves o held) t t₁)
    (hafter : Relation.ReflTransGen (s.Moves o held) t₁ t₂) :
    (∀ segment x t', t₁.run o (s.register segment) = (x, t') →
      s.Registered o held segment t₁ x t') ∧
    (∀ d ∈ (t₁.registry s.handle.registry).enrolled,
      s.caretaker.markers.key d ∈ (held t₂.outside).keys) ∧
    ∀ {σ' ε' : Type} (o' : Outside σ') (held' : σ' → Memory) (k' : Caretaker ε') (plan' : Plan)
        (u u' : Timeline σ') (h' : Handle),
      o'.Stores held' → k'.markers.space = s.caretaker.markers.space →
      held' u.outside = held t₂.outside → u.run o' (k'.start plan') = (some (.ok h'), u') →
        (∀ d, d ∈ (u'.registry h'.registry).enrolled ↔
          s.caretaker.markers.key d ∈ (held t₂.outside).keys) ∧
        ∀ segment d registered t',
          t₁.run o (s.register segment) = (some (.registration d registered true), t') →
          Relation.ReflTransGen (s.Moves o held) t' t₂ → d ∈ (u'.registry h'.registry).enrolled := by
  have hchores (chore : Chore) : Work.Obeys
      (Conduct.leavesMarks s.caretaker.markers held s.handle.registry) (o.perform chore) :=
    hperform ▸ Caretaker.obeys_leavesMarks hprovider chore
  obtain ⟨hstarted, hkeys⟩ := Caretaker.started_of_run ho s.caretaker plan hasc hstart
  have hkept : s.Keeps o held (fun _ => False) t := by
    refine ⟨hstarted.minds hchores, hstarted.room, ?_, fun d hd => ?_, nofun⟩
    · exact Table.Ascending.of_keys_eq hasc hkeys
    · rw [hkeys]
      exact (s.caretaker.markers.mem_listed).mp (hstarted.mem_enrolled.mp hd)
  have hkept₁ := hkept.life hchores ho hbefore
  have hkept₂ := hkept₁.remember.life hchores ho hafter
  refine ⟨fun segment x t' hrun => registered_run ho hkept₁.2.room hrun,
    fun d hd => hkept₂.2.others d (hkept₁.2.tracked d hd), ?_⟩
  intro σ' ε' o' held' k' plan' u u' h' ho' hspace hheld hstart'
  have htracked (d : Did) : d ∈ (u'.registry h'.registry).enrolled ↔
      s.caretaker.markers.key d ∈ (held t₂.outside).keys := by
    obtain ⟨hstarted', -⟩ := Caretaker.started_of_run ho' k' plan' (hheld ▸ hkept₂.2.ascending) hstart'
    rw [hstarted'.mem_enrolled, Markers.mem_listed, hheld, Markers.key, Markers.start, hspace]
    rfl
  refine ⟨htracked, fun segment d registered t' hrun hlater => (htracked d).mpr ?_⟩
  have hregistered := registered_run ho hkept₁.2.room hrun
  obtain ⟨d', registered', tracked, -, hresponse, -, -, htracks, -⟩ := hregistered.served _ rfl rfl
  obtain ⟨rfl, -, rfl⟩ := Response.registration_inj hresponse
  have hkept' : s.Keeps o held (fun _ => False) t' := by
    have hregister := hkept₁.register hchores ho segment
    rwa [hrun] at hregister
  exact (hkept'.remember.life hchores ho hlater).2.others d (hkept'.2.tracked d (htracks.mp rfl))

def lone : Site Expiry.Error where
  caretaker :=
    ⟨fun d => Work.ask (.consult d), ⟨1, .zero⟩, Expiry.decoder, 10, ⟨"refresh", 10⟩, 10⟩
  describe _ := ""
  handle := ⟨0, .ofSeconds 1⟩
  authToken := none

namespace Lone

def plan : Plan := ⟨.ofSeconds 5, .ofSeconds 1, .ofSeconds 600, none⟩

def outside : Outside Desk := .granting ⟨"access", none, 3600, none⟩ lone.caretaker.perform

def old : Did := ⟨"did:a:a", by decide⟩

def new : Did := ⟨"did:a:b", by decide⟩

def desk : Desk := ⟨[("refresh:did:a:a", [])], 1000⟩

def started : Timeline Desk :=
  ((Timeline.start desk false).run outside (lone.caretaker.start plan)).2

def registered : Timeline Desk := (started.run outside (lone.register "did%3Aa%3Ab")).2

def shut : Timeline Desk :=
  ((registered.run outside (lone.handle.cancel old)).2.run outside lone.handle.shutDown).2

def restarted : Timeline Desk :=
  ((Timeline.start shut.outside false).run outside (lone.caretaker.start plan)).2

theorem run_started : (Timeline.start desk false).run outside (lone.caretaker.start plan) =
    (some (.ok lone.handle), started) :=
  run_eq_ok (by decide +kernel)

theorem run_restarted : (Timeline.start shut.outside false).run outside (lone.caretaker.start plan) =
    (some (.ok lone.handle), restarted) :=
  run_eq_ok (by decide +kernel)

theorem later : Relation.ReflTransGen (lone.Moves outside Desk.rows) registered shut :=
  (Relation.ReflTransGen.single (.cancel registered old)).tail (.shutDown _)

def response : Option Response := (started.run outside (lone.register "did%3Aa%3Ab")).1

theorem run_registered : started.run outside (lone.register "did%3Aa%3Ab") = (response, registered) := by
  rw [response, registered]

/-- What a request of this kind comes to settles what this one answers. -/
theorem response_eq (h : lone.Registered outside Desk.rows "did%3Aa%3Ab" started response registered) :
    response = some (.registration new true true) := by
  have hmark : (started.run outside (lone.caretaker.markers.register new)).1 = some (.ok true) :=
    congrArg Prod.fst (run_eq_ok (by decide +kernel))
  obtain ⟨r, hr, h200⟩ := Option.map_eq_some_iff.mp (h.answered new true (by decide +kernel) hmark)
  obtain ⟨d, registered, tracked, hd, rfl, hnew, -, -, hopen⟩ := h.served r hr h200
  obtain rfl : new = d := Option.some.inj (Eq.trans (by decide +kernel) hd)
  obtain rfl : registered = true := hnew.mpr (by decide +kernel)
  obtain rfl : tracked = true := hopen (by decide +kernel)
  exact hr

/-- Both are tracked again. -/
theorem tracked_again :
    response = some (.registration new true true) ∧
      (shut.registry lone.handle.registry).enrolled = [] ∧
      old ∈ (restarted.registry lone.handle.registry).enrolled ∧
      new ∈ (restarted.registry lone.handle.registry).enrolled := by
  have hasc : Table.Ascending desk.rows := List.pairwise_singleton ..
  have hstores : outside.Stores Desk.rows := Outside.granting_stores _ _
  obtain ⟨hregisters, hmarked, hrestart⟩ := tracked_after_restart hstores plan rfl
    (fun _ => ⟨trivial, fun _ _ => trivial⟩) hasc run_started .refl
    (later.head (.register started "did%3Aa%3Ab"))
  obtain ⟨htracks, hanswered⟩ := hrestart outside Desk.rows lone.caretaker plan
    (Timeline.start shut.outside false) restarted lone.handle hstores rfl rfl run_restarted
  have hresponse := response_eq (hregisters "did%3Aa%3Ab" _ _ run_registered)
  refine ⟨hresponse, by decide +kernel, (htracks old).mpr (hmarked old (by decide +kernel)), ?_⟩
  exact hanswered "did%3Aa%3Ab" new true registered (hresponse ▸ run_registered) later

end Lone

end Site

end Admin

end Upkeep
