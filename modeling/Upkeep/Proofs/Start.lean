import Upkeep.Proofs.Store.Confined
import Upkeep.Proofs.Store.Surroundings
import Upkeep.Proofs.Text.Order
import Upkeep.Proofs.Timer.Obedience
import Upkeep.Proofs.Timer.Alive

/-!
What a start comes to. The sweep and the queries before it leave every key of the store where it is,
and the listing finds exactly the identifiers that are marked; each of them is then tracked, in
ascending order, with the next permit and the next start delay.
-/

namespace Upkeep

open Store

theorem Did.ne_of_lt {d d' : Did} (h : d < d') : d ≠ d' := by
  rintro rfl
  exact Std.lt_irrefl (a := d.text) h

namespace Markers

variable (m : Markers)

def listed (rows : Memory) : List Did := (rows.keys.filter (startsWith m.start)).filterMap m.did?

theorem did?_eq_some {key : String} {d : Did} (h : startsWith m.start key = true) :
    m.did? key = some d ↔ key = m.key d := by
  obtain ⟨rest, hrest⟩ := startsWith_iff.mp h
  have hdrop : String.ofList (key.toList.drop m.start.toList.length) = String.ofList rest := by
    rw [← hrest, List.drop_left]
  have hkey : key = m.start ++ String.ofList rest := by
    rw [← String.toList_inj, String.toList_append, String.toList_ofList, hrest]
  rw [did?, hdrop, Did.toOption_parse, hkey, Markers.key, ← String.toList_inj, ← String.toList_inj,
    String.toList_append, String.toList_append, List.append_cancel_left_eq]

theorem mem_listed {rows : Memory} {d : Did} : d ∈ m.listed rows ↔ m.key d ∈ rows.keys := by
  rw [listed, List.mem_filterMap]
  constructor
  · rintro ⟨key, hkey, hd⟩
    obtain ⟨hmem, hstart⟩ := List.mem_filter.mp hkey
    exact (m.did?_eq_some hstart).mp hd ▸ hmem
  · intro h
    have hstart : startsWith m.start (m.key d) = true := startsWith_append _ _
    exact ⟨m.key d, List.mem_filter.mpr ⟨h, hstart⟩, (m.did?_eq_some hstart).mpr rfl⟩

theorem lt_of_key_lt {d d' : Did} (h : m.key d < m.key d') : d < d' :=
  Utf8.append_lt_append_iff.mp h

theorem listed_ascending {rows : Memory} (h : Table.Ascending rows) :
    (m.listed rows).Pairwise (· < ·) := by
  have hkeys : (rows.keys.filter (startsWith m.start)).Pairwise fun a b =>
      a < b ∧ startsWith m.start a = true ∧ startsWith m.start b = true :=
    ((Table.ascending_iff_keys.mp h).filter _).imp_of_mem fun ha hb hab =>
      ⟨hab, (List.mem_filter.mp ha).2, (List.mem_filter.mp hb).2⟩
  refine hkeys.filterMap m.did? fun a a' ⟨hlt, ha, ha'⟩ d hd d' hd' => ?_
  rw [(m.did?_eq_some ha).mp hd, (m.did?_eq_some ha').mp hd'] at hlt
  exact m.lt_of_key_lt hlt

theorem nodup_listed {rows : Memory} (h : Table.Ascending rows) : (m.listed rows).Nodup :=
  (m.listed_ascending h).imp Did.ne_of_lt

/-- A listing is determined by whom it names. -/
theorem eq_listed {rows : Memory} (h : Table.Ascending rows) {ds : List Did}
    (hds : ds.Pairwise (· < ·)) (hmem : ∀ d, d ∈ ds ↔ m.key d ∈ rows.keys) : ds = m.listed rows := by
  have hperm : ds.Perm (m.listed rows) :=
    (List.perm_ext_iff_of_nodup (hds.imp Did.ne_of_lt) (m.nodup_listed h)).mpr fun d =>
      (hmem d).trans m.mem_listed.symm
  refine hperm.eq_of_pairwise (fun d d' _ _ hlt hgt => ?_) hds (m.listed_ascending h)
  exact absurd hgt (Std.Asymm.asymm (r := (· < ·)) d.text d'.text hlt)

end Markers

/-! What is asked before anybody is tracked. -/

def Work.Request.KeepsKeys : Work.Request → Prop
  | .store (.scan ..) | .store (.get _) | .store (.compareAndPut ..) => True
  | _ => False

/-- What a scan is relied on for while certain keys start as asked: after those that were seen it
finds the next ones. -/
def Work.Finds (start : String) (found : List String) : (r : Work.Request) → r.Reply → Prop
  | .store (.scan start' after limit), .ok (page : List String) => start' = start →
      ∀ seen todo, found = seen ++ todo → after = seen.getLast? → page = todo.take limit
  | _, _ => True

section Shared

variable {m m' : Memory} (hm : Table.Ascending m) {r : Work.Request} {x : r.Reply}

include hm

theorem Store.Shared.keys_eq (h : Shared r m x m') (hr : r.KeepsKeys) : m'.keys = m.keys := by
  cases h with
  | answered c =>
      cases c with
      | scan | get => rfl
      | compareAndPut key expected value =>
          simp only [Memory.answer, Memory.compareAndPut]
          split
          next hheld =>
            exact Table.keys_insert_of_mem _ hm (List.mem_map_of_mem (Table.mem_of_get? hheld))
          next => rfl
      | put | delete => exact hr.elim
  | failed | elsewhere => rfl

theorem Store.Shared.finds {start : String} {found : List String}
    (hfound : m.keys.filter (startsWith start) = found) (h : Shared r m x m') :
    Work.Finds start found r x := by
  cases h with
  | answered c =>
      cases c with
      | scan start' after limit =>
          intro hstart seen todo hsplit hafter
          subst hstart hafter
          exact Memory.scan_rest hm (hfound.trans hsplit) limit
      | _ => trivial
  | failed c => cases c <;> trivial
  | elsewhere _ _ _ hr =>
      cases r with
      | store c => exact absurd rfl (hr c)
      | _ => trivial

end Shared

namespace Pager

variable {start : String} {found : List String}

/-- A pager that has given some of the keys to be found, with others still to come. -/
structure Stands (p : Pager) (found seen todo : List String) : Prop where
  found : found = seen ++ todo
  cursor : p.finished = false → p.cursor = seen.getLast?
  ended : p.finished = true → todo = []

theorem stands_at (start : String) (pageSize : Nat) (found : List String) :
    (Pager.at start pageSize).Stands found [] found := ⟨rfl, fun _ => rfl, nofun⟩

/-- The next page has been given. -/
theorem Stands.advance {p : Pager} {seen todo : List String} (h : p.Stands found seen todo)
    (hopen : p.finished = false) : (p.advance (todo.take p.pageSize)).Stands found
      (seen ++ todo.take p.pageSize) (todo.drop p.pageSize) := by
  refine ⟨?_, fun _ => ?_, fun hlast => ?_⟩
  · rw [List.append_assoc, List.take_append_drop, h.found]
  · rw [List.getLast?_append, Pager.advance, h.cursor hopen]
  · have hshort : (todo.take p.pageSize).length < p.pageSize := of_decide_eq_true hlast
    rw [List.length_take] at hshort
    exact List.drop_eq_nil_iff.mpr (by omega)

theorem eq_nil_of_take_isEmpty {todo : List String} {size : Nat} (hsize : 0 < size)
    (h : (todo.take size).isEmpty = true) : todo = [] :=
  (List.take_eq_nil_iff.mp (List.isEmpty_iff.mp h)).resolve_left (Nat.ne_of_gt hsize)

theorem walk_finished (budget : Nat) {p : Pager} (h : p.finished = true) :
    walk (budget + 1) p = Work.ok [] := by
  rw [walk, next, if_pos h]
  rfl

theorem walk_unfinished (budget : Nat) {p : Pager} (h : p.finished = false) :
    walk (budget + 1) p = (Work.scan p.start p.cursor p.pageSize).onSuccess fun page =>
      if page.isEmpty then Work.ok []
      else (walk budget (p.advance page)).onSuccess fun pages => Work.ok (page :: pages) := by
  rw [walk, next, h, if_neg Bool.false_ne_true, Program.bind_assoc]
  refine congrArg (Program.bind _) (funext fun x => ?_)
  cases x with
  | error e => rfl
  | ok page =>
      rw [Program.bind_done]
      cases page <;> rfl

/-- The pages from a cursor on are the keys that come after it. -/
private theorem walk_finds {safe : Work.Request → Prop}
    (hscan : ∀ after limit, safe (.store (.scan start after limit))) (budget : Nat) {p : Pager}
    (hstart : p.start = start) (hsize : 0 < p.pageSize) {seen todo : List String}
    (h : p.Stands found seen todo) :
    (walk budget p).KeepsOk (Work.Finds start found) safe fun pages => pages.flatten = todo := by
  induction budget generalizing p seen todo with
  | zero => trivial
  | succ budget ih =>
      cases hfinished : p.finished with
      | true =>
          rw [walk_finished budget hfinished, h.ended hfinished]
          exact Work.keepsOk_ok rfl
      | false =>
          rw [walk_unfinished budget hfinished]
          refine (Work.keepsOk_call (c := .scan p.start p.cursor p.pageSize)
            (hstart ▸ hscan p.cursor p.pageSize)).onSuccess fun page hpage => ?_
          obtain rfl : page = todo.take p.pageSize :=
            hpage hstart seen todo h.found (h.cursor hfinished)
          by_cases hempty : (todo.take p.pageSize).isEmpty = true
          · rw [if_pos hempty]
            exact Work.keepsOk_ok (eq_nil_of_take_isEmpty hsize hempty).symm
          · rw [if_neg hempty]
            refine (ih (p := p.advance _) hstart hsize (h.advance hfinished)).onSuccess
              fun pages hpages => Work.keepsOk_ok ?_
            rw [List.flatten_cons, hpages, List.take_append_drop]

end Pager

theorem Markers.list_finds (m : Markers) {safe : Work.Request → Prop}
    (hscan : ∀ after limit, safe (.store (.scan m.start after limit))) (found : List String)
    (budget : Nat) :
    (m.list budget).KeepsOk (Work.Finds m.start found) safe
      fun ds => ds = found.filterMap m.did? := by
  have hsize : 0 < (Pager.at m.start m.pageSize).pageSize :=
    Nat.lt_of_lt_of_le Nat.one_pos (Nat.le_max_right ..)
  have hwalk := Pager.walk_finds hscan budget rfl hsize (Pager.stands_at m.start m.pageSize found)
  refine Program.KeepsOk.onSuccess hwalk fun pages hpages => Work.keepsOk_ok ?_
  rw [hpages]

theorem Caretaker.sweep_keepsKeys {ε : Type} (k : Caretaker ε)
    {rely : (r : Work.Request) → r.Reply → Prop} :
    k.sweep.KeepsOk rely Work.Request.KeepsKeys fun _ => True := by
  refine ((Sweep.pass_asks k.decode k.pageSize k.budget).mono_safe fun r hr => ?_).mono_rely
    fun _ _ _ => trivial
  cases r with
  | store c => cases c <;> trivial
  | _ => exact hr.elim

theorem Caretaker.expiring_keepsKeys {ε : Type} (k : Caretaker ε)
    {rely : (r : Work.Request) → r.Reply → Prop} (now lookahead : UInt64) :
    (k.expiring now lookahead).KeepsOk rely Work.Request.KeepsKeys fun _ => True :=
  Sweep.expiring_keepsOk (fun _ => trivial) (fun _ _ _ _ _ => trivial) now lookahead k.budget

namespace Timeline

variable {σ : Type} {o : Outside σ} {held : σ → Memory} {t t' : Timeline σ}

/-- An activity that only looks at the store, or writes over what is there, changes nothing but what
surrounds it, and leaves the keys where they are. -/
theorem run_keepsKeys (ho : o.Stores held) (start : String) {α : Type} {p : Work α} {post : α → Prop}
    (hp : p.Keeps (Work.Finds start ((held t.outside).keys.filter (startsWith start)))
      Work.Request.KeepsKeys post)
    (hasc : Table.Ascending (held t.outside)) {a : α} (hrun : t.run o p = (some a, t')) :
    (∃ s, t' = t.withOutside s) ∧ (held t'.outside).keys = (held t.outside).keys ∧ post a := by
  have hdrive := drive_invariant o (fun u => (∃ s, u = t.withOutside s) ∧
    (held u.outside).keys = (held t.outside).keys) (fun r u hu hr => ?_) hp (t := t) ⟨⟨_, rfl⟩, rfl⟩
  · rw [run_eq_some.mp hrun] at hdrive
    exact ⟨hdrive.1.1, hdrive.1.2, hdrive.2⟩
  · obtain ⟨⟨s, rfl⟩, hkeys⟩ := hu
    cases r with
    | store c =>
        have hasc' : Table.Ascending (held (t.withOutside s).outside) :=
          Table.Ascending.of_keys_eq hasc hkeys
        have hanswers := ho.answers c (t.withOutside s).outside
        refine ⟨⟨⟨_, rfl⟩, ?_⟩, fun x hx => ?_⟩
        · cases hreply : (o.store c (t.withOutside s).outside).1 with
          | none => exact (congrArg Table.keys (ho.dies c _ hreply)).trans hkeys
          | some x => exact ((hanswers x hreply).keys_eq hasc' hr).trans hkeys
        · exact Shared.finds hasc' (hkeys ▸ rfl) (hanswers x hx)
    | _ => exact hr.elim

theorem run_launchAll (ds : List Did) : ∃ es, t.run o (Caretaker.launchAll ds) =
      (some (), { t with events := es }) ∧
    ∀ e ∈ es, e ∈ t.events ∨ ∃ d, e.wake = .job (.chore (o.perform (.refresh d))) := by
  induction ds generalizing t with
  | nil => exact ⟨t.events, run_done (), fun e he => .inl he⟩
  | cons d ds ih =>
      obtain ⟨es, hrun, hes⟩ := ih (t := t.spawn (.chore (o.perform (.refresh d))))
      refine ⟨es, (run_ask (r := .launch _) rfl).trans hrun, fun e he => ?_⟩
      rcases hes e he with hold | hnew
      · rcases mem_wakeAt.mp hold with rfl | hold
        · exact .inr ⟨d, rfl⟩
        · exact .inl hold
      · exact .inr hnew

end Timeline

open Timeline

namespace Handle

variable {σ : Type} {o : Outside σ}

/-- A timeline on which a handle has begun to track identifiers, in this order and each with the next
permit, since it was as another one. -/
structure Tracks (h : Handle) (stagger : Duration) (t₀ : Timeline σ) (ds : List Did)
    (t : Timeline σ) : Prop where
  instant : t.instant = t₀.instant
  outside : t.outside = t₀.outside
  tickers : t.tickers = t₀.tickers
  jobs : ∀ e ∈ t.events, ∀ j, e.wake = .job j → e ∈ t₀.events
  shots : t.shots = t₀.shots ++ ds.mapIdx fun i d => ⟨startDelay stagger i,
    t₀.instant + (startDelay stagger i).toNanos, ⟨h.registry, i⟩, h.chain d i, false⟩
  room : h.registry < t.registries.length
  isOpen : (t.registry h.registry).isShut = false
  issued : (t.registry h.registry).issued = ds.length
  withdrawn : (t.registry h.registry).withdrawn = []
  entered : ∀ (i : Nat) d, ds[i]? = some d → (t.registry h.registry).entered.get? d = some i
  absent : ∀ d, d ∉ ds → (t.registry h.registry).entered.get? d = none

variable {h : Handle} {stagger : Duration} {t₀ t : Timeline σ} {ds : List Did}

/-- A handle begins with nobody. -/
theorem Tracks.nil (stagger : Duration) (hroom : h.registry < t.registries.length)
    (hempty : t.registry h.registry = .empty) : h.Tracks stagger t [] t where
  instant := rfl
  outside := rfl
  tickers := rfl
  jobs _ he _ _ := he
  shots := (List.append_nil _).symm
  room := hroom
  isOpen := by rw [hempty]; rfl
  issued := by rw [hempty]; rfl
  withdrawn := by rw [hempty]; rfl
  entered _ _ hd := nomatch hd
  absent _ _ := by rw [hempty]; rfl

/-- One more identifier is tracked. -/
theorem Tracks.track (ht : h.Tracks stagger t₀ ds t) {d : Did} (hd : d ∉ ds) :
    ∃ t', t.run o (h.track d (startDelay stagger ds.length)) = (some true, t') ∧
      h.Tracks stagger t₀ (ds ++ [d]) t' := by
  refine ⟨_, run_track_eq ht.isOpen (ht.absent d hd), ?_⟩
  have hregistry : (h.begun d (startDelay stagger ds.length) t).registry h.registry =
      (t.registry h.registry).enter d := by
    rw [begun, registry_addShot, registry_setRegistry ht.room]
  have hbegun : h.begun d (startDelay stagger ds.length) t =
      addShot { t with registries := t.registries.set h.registry ((t.registry h.registry).enter d) }
        (startDelay stagger ds.length) ⟨h.registry, ds.length⟩ (h.chain d ds.length) := by
    rw [begun, setRegistry_enter, ht.issued]
  have hissued := ht.issued
  refine ⟨?_, ?_, ?_, fun e he j hj => ?_, ?_, ?_, ?_, ?_, ?_, fun i d' hd' => ?_, fun d' hd' => ?_⟩
  · rw [hbegun, instant_addShot]
    exact ht.instant
  · rw [hbegun, outside_addShot]
    exact ht.outside
  · rw [hbegun, tickers_addShot]
    exact ht.tickers
  · rw [hbegun] at he
    rcases mem_addShot he with he | hshot
    · exact ht.jobs e he j hj
    · cases hshot.symm.trans hj
  · rw [hbegun, shots_addShot, ht.shots, List.mapIdx_concat, ← List.append_assoc, ht.instant]
  · rw [begun, registries_addShot, length_setRegistry]
    exact ht.room
  · rw [hregistry]
    exact ht.isOpen
  · rw [hregistry, List.length_append]
    exact congrArg (· + 1) ht.issued
  · rw [hregistry]
    exact ht.withdrawn
  · rw [hregistry]
    rcases getElem?_push_cases hd' with hold | ⟨rfl, rfl⟩
    · have hne : d' ≠ d := fun heq => hd (heq ▸ List.mem_of_getElem? hold)
      exact (Table.get?_insert_of_ne _ _ hne).trans (ht.entered i d' hold)
    · rw [← hissued]
      exact Table.get?_insert_self ..
  · rw [hregistry]
    obtain ⟨hold, hne⟩ : d' ∉ ds ∧ d' ≠ d := by simpa using hd'
    exact (Table.get?_insert_of_ne _ _ hne).trans (ht.absent d' hold)

theorem Tracks.trackAll (ht : h.Tracks stagger t₀ ds t) {rest : List Did}
    (hnodup : (ds ++ rest).Nodup) : ∃ t', t.run o (h.trackAll stagger ds.length rest) = (some (), t') ∧
      h.Tracks stagger t₀ (ds ++ rest) t' := by
  induction rest generalizing ds t with
  | nil => exact ⟨t, run_done (), (List.append_nil ds).symm ▸ ht⟩
  | cons d rest ih =>
      have hd : d ∉ ds := fun hmem =>
        (List.nodup_append.mp hnodup).2.2 d hmem d List.mem_cons_self rfl
      obtain ⟨t₁, hrun, ht₁⟩ := ht.track (o := o) hd
      rw [List.append_cons] at hnodup ⊢
      obtain ⟨t', hrun', ht'⟩ := ih ht₁ hnodup
      rw [List.length_append, List.length_singleton] at hrun'
      refine ⟨t', ?_, ht'⟩
      have hdrive := drive_bind_done o (run_eq_some.mp hrun)
        fun _ => h.trackAll stagger (ds.length + 1) rest
      rw [Handle.trackAll, run, hdrive, ← run]
      exact hrun'

end Handle

namespace Caretaker

variable {σ ε : Type} {o : Outside σ}

structure Started (o : Outside σ) (plan : Plan) (ds : List Did) (t₀ : Timeline σ) (h : Handle)
    (t : Timeline σ) : Prop where
  handle : h = ⟨t₀.registries.length, plan.period⟩
  instant : t.instant = t₀.instant
  shots : t.shots = t₀.shots ++ ds.mapIdx fun i d => ⟨startDelay plan.stagger i,
    t₀.instant + (startDelay plan.stagger i).toNanos, ⟨h.registry, i⟩, h.chain d i, false⟩
  tickers : ∀ (k : Nat) r, t.tickers[k]? = some r →
    t₀.tickers[k]? = some r ∨ r.chore = .sweep ∧ r.permit = ⟨h.registry, ds.length⟩
  jobs : ∀ e ∈ t.events, ∀ j, e.wake = .job j →
    e ∈ t₀.events ∨ ∃ d, j = .chore (o.perform (.refresh d))
  room : h.registry < t.registries.length
  isOpen : (t.registry h.registry).isShut = false
  issued : ds.length ≤ (t.registry h.registry).issued
  withdrawn : (t.registry h.registry).withdrawn = []
  entered : ∀ (i : Nat) d, ds[i]? = some d → (t.registry h.registry).entered.get? d = some i
  absent : ∀ d, d ∉ ds → (t.registry h.registry).entered.get? d = none

variable {plan : Plan} {ds : List Did} {t₀ t₁ t t' : Timeline σ} {h : Handle}

/-- The identifiers are tracked. -/
theorem Started.of_tracks (ht : h.Tracks plan.stagger t₁ ds t) (hh : h = ⟨t₀.registries.length, plan.period⟩)
    (hinstant : t₁.instant = t₀.instant) (hshots : t₁.shots = t₀.shots)
    (htickers : t₁.tickers = t₀.tickers)
    (hjobs : ∀ e ∈ t₁.events, e ∈ t₀.events ∨ ∃ d, e.wake = .job (.chore (o.perform (.refresh d)))) :
    Started o plan ds t₀ h t where
  handle := hh
  instant := ht.instant.trans hinstant
  shots := by rw [ht.shots, hshots, hinstant]
  tickers k r hr := .inl (by rwa [ht.tickers, htickers] at hr)
  jobs e he j hj := (hjobs e (ht.jobs e he j hj)).imp_right fun ⟨d, hd⟩ =>
    ⟨d, Wake.job.inj (hj.symm.trans hd)⟩
  room := ht.room
  isOpen := ht.isOpen
  issued := Nat.le_of_eq ht.issued.symm
  withdrawn := ht.withdrawn
  entered := ht.entered
  absent := ht.absent

/-- The sweep is set up last. -/
theorem Started.sweepEvery (hs : Started o plan ds t₀ h t)
    (hissued : (t.registry h.registry).issued = ds.length) (interval : Duration) :
    ∃ t', t.run o (h.sweepEvery interval) = (some (), t') ∧ Started o plan ds t₀ h t' ∧
      t'.outside = t.outside := by
  let r := (t.registry h.registry).issue.2
  let u : Timeline σ := { t with registries := t.registries.set h.registry r }
  have hu : t.setRegistry h.registry r = u := setRegistry_eq fun _ hp => hp
  have hregistry : u.registry h.registry = r := hu ▸ registry_setRegistry hs.room r
  refine ⟨u.addTicker interval ⟨h.registry, ds.length⟩ .sweep, ?_, ?_, outside_addTicker ..⟩
  · have hissue : t.perform o (.issue h.registry) =
        atOnce (r := .issue h.registry) ⟨h.registry, ds.length⟩ u := by
      rw [← hu, ← hissued]
      rfl
    exact (run_ask hissue).trans (run_ask (r := .every ..) (f := .done) rfl)
  · have hregistry' : (u.addTicker interval ⟨h.registry, ds.length⟩ .sweep).registry h.registry = r := by
      rw [registry_addTicker]
      exact hregistry
    refine ⟨hs.handle, ?_, ?_, fun k ticker hk => ?_, fun e he j hj => ?_, ?_, ?_, ?_, ?_,
      fun i d hd => ?_, fun d hd => ?_⟩
    · rw [instant_addTicker]
      exact hs.instant
    · rw [shots_addTicker]
      exact hs.shots
    · rw [tickers_addTicker] at hk
      rcases getElem?_push_cases hk with hold | ⟨-, rfl⟩
      · exact hs.tickers k ticker hold
      · exact .inr ⟨rfl, rfl⟩
    · rcases mem_addTicker he with hold | hnew
      · exact hs.jobs e hold j hj
      · cases hnew.symm.trans hj
    · rw [registries_addTicker]
      simpa [u] using hs.room
    · rw [hregistry']
      exact hs.isOpen
    · rw [hregistry']
      exact Nat.le_succ_of_le hs.issued
    · rw [hregistry']
      exact hs.withdrawn
    · rw [hregistry']
      exact hs.entered i d hd
    · rw [hregistry']
      exact hs.absent d hd

def trackMarked (k : Caretaker ε) (plan : Plan) (h : Handle) : Errand Handle :=
  k.marked.onSuccess fun ds =>
    (h.trackAll plan.stagger 0 ds).bind fun _ =>
      match plan.sweepInterval with
      | none => Work.ok h
      | some interval => (h.sweepEvery interval).bind fun _ => Work.ok h

def opened (t : Timeline σ) (s : σ) (es : List Event) : Timeline σ :=
  { t with outside := s, events := es, registries := t.registries ++ [.empty] }

section Run

variable {held : σ → Memory} (ho : o.Stores held) (k : Caretaker ε) (plan : Plan)

include ho

/-- A start that succeeds comes to its last part with all keys in place and nobody tracked. -/
theorem opened_of_run (hasc : Table.Ascending (held t₀.outside))
    (hrun : t₀.run o (k.start plan) = (some (.ok h), t)) :
    ∃ s es, (held s).keys = (held t₀.outside).keys ∧
      (∀ e ∈ es, e ∈ t₀.events ∨ ∃ d, e.wake = .job (.chore (o.perform (.refresh d)))) ∧
      (opened t₀ s es).run o (k.trackMarked plan ⟨t₀.registries.length, plan.period⟩) =
        (some (.ok h), t) := by
  obtain ⟨report, t₁, hsweep, hrun⟩ := run_onSuccess hrun
  obtain ⟨⟨s₁, rfl⟩, hkeys₁, -⟩ := run_keepsKeys ho "" k.sweep_keepsKeys hasc hsweep
  replace hrun := (run_ask (o := o) (r := .now) rfl).symm.trans hrun
  obtain ⟨due, t₂, hexpiring, hrun⟩ := run_onSuccess hrun
  obtain ⟨⟨s₂, rfl⟩, hkeys₂, -⟩ :=
    run_keepsKeys ho "" (k.expiring_keepsKeys _ _) (Table.Ascending.of_keys_eq hasc hkeys₁) hexpiring
  obtain ⟨⟨⟩, t₃, hlaunch, hrun⟩ := run_bind hrun
  obtain ⟨es, hlaunch', hes⟩ := run_launchAll (o := o) (t := (t₀.withOutside s₁).withOutside s₂) due
  obtain ⟨-, rfl⟩ := Prod.ext_iff.mp (hlaunch.symm.trans hlaunch')
  exact ⟨s₂, es, hkeys₂.trans hkeys₁, hes, (run_ask (r := .openRegistry) rfl).symm.trans hrun⟩

/-- A start that succeeds tracks the identifiers that are marked, and no key has come or gone. -/
theorem started_of_run (hasc : Table.Ascending (held t₀.outside))
    (hrun : t₀.run o (k.start plan) = (some (.ok h), t)) :
    Started o plan (k.markers.listed (held t₀.outside)) t₀ h t ∧
      (held t.outside).keys = (held t₀.outside).keys := by
  obtain ⟨s, es, hkeys, hes, hrun⟩ := opened_of_run ho k plan hasc hrun
  obtain ⟨ds, t₁, hmarked, hrun⟩ := run_onSuccess hrun
  obtain ⟨⟨s₁, rfl⟩, hkeys₁, hds⟩ :=
    run_keepsKeys ho _ (k.markers.list_finds (fun _ _ => trivial) _ k.budget)
      (Table.Ascending.of_keys_eq hasc hkeys) hmarked
  have hlisted : ds = k.markers.listed (held t₀.outside) := by
    rw [hds ds rfl, Markers.listed, ← hkeys]
    rfl
  obtain ⟨⟨⟩, t₂, htrack, hrun⟩ := run_bind hrun
  have hnodup : ds.Nodup := hlisted ▸ k.markers.nodup_listed hasc
  have hempty : (opened t₀ s₁ es).registry t₀.registries.length = .empty := by
    simp [opened, registry]
  obtain ⟨t₂', htrack', htracks⟩ := (Handle.Tracks.nil (h := ⟨t₀.registries.length, plan.period⟩)
    (t := opened t₀ s₁ es) plan.stagger (by simp [opened]) hempty).trackAll (o := o) hnodup
  obtain ⟨-, rfl⟩ := Prod.ext_iff.mp (htrack'.symm.trans htrack)
  have hstarted : Started o plan ds t₀ ⟨t₀.registries.length, plan.period⟩ t₂' :=
    .of_tracks htracks rfl rfl rfl rfl hes
  have hkeys₂ : (held t₂'.outside).keys = (held t₀.outside).keys := by
    rw [htracks.outside]
    exact hkeys₁.trans hkeys
  rw [← hlisted]
  cases hinterval : plan.sweepInterval with
  | none =>
      rw [hinterval] at hrun
      obtain ⟨hh, rfl⟩ := Prod.ext_iff.mp ((run_done _).symm.trans hrun)
      cases hh
      exact ⟨hstarted, hkeys₂⟩
  | some interval =>
      rw [hinterval] at hrun
      obtain ⟨t', hsweep', hstarted', houtside⟩ := hstarted.sweepEvery htracks.issued interval
      obtain ⟨⟨⟩, t₃, hsweep, hrun⟩ := run_bind hrun
      obtain ⟨-, rfl⟩ := Prod.ext_iff.mp (hsweep'.symm.trans hsweep)
      obtain ⟨hh, rfl⟩ := Prod.ext_iff.mp ((run_done _).symm.trans hrun)
      cases hh
      exact ⟨hstarted', houtside ▸ hkeys₂⟩

end Run

namespace Started

variable {plan : Plan} {ds : List Did} {t₀ t : Timeline σ} {h : Handle}

/-- Exactly those are tracked whom the start tracks. -/
theorem mem_enrolled (hs : Started o plan ds t₀ h t) {d : Did} :
    d ∈ (t.registry h.registry).enrolled ↔ d ∈ ds := by
  constructor
  · intro hd
    by_contra hno
    exact Table.get?_eq_none_iff.mp (hs.absent d hno) hd
  · intro hd
    obtain ⟨i, hi⟩ := List.getElem?_of_mem hd
    refine Table.mem_keys_iff.mpr ?_
    rw [hs.entered i d hi]
    rfl

/-- What waits to be done after a start keeps to any conduct that all chores keep to. -/
theorem minds {s : σ} {isManual : Bool} (hs : Started o plan ds (Timeline.start s isManual) h t)
    {c : Conduct σ} (hperform : ∀ chore, Work.Obeys c (o.perform chore)) : Minds o c none t := by
  refine ⟨fun e he j hj => ?_, fun _ s _ _ _ => hperform s.chore, fun _ r _ => hperform r.chore⟩
  obtain ⟨d, rfl⟩ := (hs.jobs e he j hj).resolve_left nofun
  exact hperform _

end Started

end Caretaker

end Upkeep
