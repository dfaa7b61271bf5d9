import Upkeep.Proofs.Session.SweepWrites
import Upkeep.Proofs.Session.Walk

/-!
A pass after a pass. The first brings every row up to date that is filed under the key of its own
identifier. A row that is filed elsewhere may stay out of date; when the row of its identifier has the
same blob, that one is written instead, by every pass again.
-/

namespace Upkeep.Sweep

open Store

def binding? (m : Memory) (key : String) : Option (Did × Blob) :=
  ((m.get? key).bind lasting?).map fun (d, b, _) => (d, b)

/-- A row under another key than that of its identifier, whose row has the same blob. -/
def Twin (m : Memory) (key : String) : Prop :=
  startsWith Rows.start key = true ∧ ∃ d b, binding? m key = some (d, b) ∧ key ≠ Rows.key d ∧
    ∃ d', binding? m (Rows.key d) = some (d', b)

variable {ε : Type}

/-- A row that has a pass write: it is out of date, and the row of its identifier has its blob. -/
def Stirs (decode : Decoder ε) (m : Memory) (key : String) : Prop :=
  startsWith Rows.start key = true ∧ ∃ bs r t, m.get? key = some bs ∧
    examine decode bs = .outdated r t ∧ ∃ d, binding? m (Rows.key r.did) = some (d, r.blob)

def Fresh (decode : Decoder ε) (m : Memory) (key : String) : Prop :=
  ∀ bs r t, m.get? key = some bs → examine decode bs = .outdated r t → key ≠ Rows.key r.did

section Binding

variable {m : Memory} {key : String}

theorem binding?_of_decode {bs : Bytes} {r : Record} (hheld : m.get? key = some bs)
    (h : Record.decode bs = .ok r) : binding? m key = some (r.did, r.blob) := by
  rw [binding?, hheld, Option.bind_some, lasting?, h]
  rfl

theorem decode_of_binding? {d : Did} {b : Blob} (h : binding? m key = some (d, b)) :
    ∃ bs r, m.get? key = some bs ∧ Record.decode bs = .ok r ∧ r.did = d ∧ r.blob = b := by
  obtain ⟨⟨d', b', times⟩, hlasting, heq⟩ := Option.map_eq_some_iff.mp h
  obtain ⟨bs, hheld, hlasting⟩ := Option.bind_eq_some_iff.mp hlasting
  cases hdecode : Record.decode bs with
  | error e =>
      rw [lasting?, hdecode] at hlasting
      cases hlasting
  | ok r =>
      rw [lasting?, hdecode] at hlasting
      cases hlasting
      cases heq
      exact ⟨bs, r, hheld, hdecode, rfl, rfl⟩

variable {decode : Decoder ε}

theorem Refreshes.binding?_eq {m' : Memory} (h : Refreshes decode m m') (key : String) :
    binding? m' key = binding? m key := by
  rw [binding?, binding?, h.lasting?_eq]

/-- A row that is refreshed is up to date. -/
theorem Refreshed.current {bs bs' : Bytes} (h : Refreshed decode bs bs') :
    examine decode bs' = .current := by
  obtain ⟨r, t, -, hblob, hbs'⟩ := h
  rw [hbs']
  simp only [examine, Record.decode_encode, hblob, if_true]

theorem Fresh.refreshes {m' : Memory} (hfresh : Fresh decode m key) (h : Refreshes decode m m') :
    Fresh decode m' key := by
  intro bs r t hheld hout
  rcases h.row key with hsame | ⟨_, bs', -, hheld', hrow⟩
  · exact hfresh bs r t (hsame ▸ hheld) hout
  · cases hheld.symm.trans hheld'
    exact nomatch hrow.current.symm.trans hout

end Binding

section Outcome

variable {decode : Decoder ε} {faults : Faults} {r : Record} {report report' : Report ε}
  {s s' : Logged}

private theorem written_memory {key : String} {bs : Bytes} (hheld : s.memory.get? key = some bs)
    (bs' : Bytes) : ((s.answer (.get key)).answer (.compareAndPut key bs bs')).memory =
      s.memory.insert key bs' :=
  congrArg Prod.snd (Memory.answer_compareAndPut hheld bs')

theorem Outcome.refreshes (h : Outcome decode faults r report s report' s')
    (hm : Table.Ascending s.memory) : Refreshes decode s.memory s'.memory := by
  cases h with
  | undecodable | current | unread | astray | unwritten => exact .refl s.memory
  | @written t bs r' hblob hexpiry hheld hdecode hsame =>
      rw [written_memory hheld]
      exact .insert hm hheld ⟨r', t, hdecode, hsame ▸ hblob, rfl⟩

theorem Outcome.scanned (h : Outcome decode faults r report s report' s') :
    report'.scanned = report.scanned := by
  cases h with
  | astray _ _ _ hreport => rcases hreport with rfl | ⟨e, rfl⟩ <;> rfl
  | _ => rfl

theorem Outcome.log_prefix (h : Outcome decode faults r report s report' s') : s.log <+: s'.log := by
  cases h with
  | undecodable | current => exact List.prefix_refl _
  | unread | astray => exact List.prefix_append _ _
  | unwritten | written => exact (List.prefix_append _ _).trans (List.prefix_append _ _)

end Outcome

/-! What every pass keeps. -/

/-- The store on the way is that of the beginning with some rows refreshed. -/
structure Steady (decode : Decoder ε) (m : Memory) (keys : List String) (s : Logged) : Prop where
  ascending : Table.Ascending s.memory
  refreshes : Refreshes decode m s.memory
  keys : (Rows.ofStore m).map Prod.fst = keys

namespace Steady

variable {decode : Decoder ε} {m : Memory} {keys : List String} {s : Logged}

theorem start (hm : Table.Ascending m) :
    Steady decode m ((Rows.ofStore m).map Prod.fst) ⟨m, []⟩ := ⟨hm, .refl m, rfl⟩

theorem keys_now (h : Steady decode m keys s) : (Rows.ofStore s.memory).map Prod.fst = keys :=
  (Rows.keys_ofStore_congr h.refreshes.keys).trans h.keys

/-- A fetch is only seen in the log. -/
theorem fetch (h : Steady decode m keys s) (log : List Event) :
    Steady decode m keys ⟨s.memory, log⟩ := ⟨h.ascending, h.refreshes, h.keys⟩

theorem update (h : Steady decode m keys s) {faults : Faults} {r : Record}
    {report report' : Report ε} {s' : Logged} (hout : Outcome decode faults r report s report' s') :
    Steady decode m keys s' where
  ascending := (hout.refreshes h.ascending).ascending h.ascending
  refreshes := h.refreshes.trans (hout.refreshes h.ascending)
  keys := h.keys

theorem startsWith (h : Steady decode m keys s) {key : String} (hkey : key ∈ keys) :
    startsWith Rows.start key = true := by
  rw [← h.keys, Rows.keys_ofStore] at hkey
  exact (List.mem_filter.mp hkey).2

theorem next {seen todo : List String} {row : String × Bytes} {rows : List (String × Bytes)}
    (h : Steady decode m (seen ++ ((row :: rows).map Prod.fst ++ todo)) s) :
    Steady decode m (seen ++ [row.1] ++ (rows.map Prod.fst ++ todo)) s := by
  rw [List.append_assoc]
  exact h

end Steady

def Counting (decode : Decoder ε) (m : Memory) : Stage ε := fun seen page todo report s =>
  Steady decode m (seen ++ (page.map Prod.fst ++ todo)) s ∧
    report.scanned = seen.length + page.length

theorem counting_invariant (decode : Decoder ε) (faults : Faults) (m : Memory) :
    Invariant decode faults (Counting decode m) where
  keys := by
    rintro seen todo report s ⟨hsteady, -⟩
    exact ⟨hsteady.ascending, hsteady.keys_now⟩
  fetch := by
    rintro seen todo rows report s ⟨hsteady, hscanned⟩ hheld after limit next
    refine ⟨hsteady.fetch _, ?_⟩
    rw [Report.addPage, hscanned, Rows.length_read]
    rfl
  skip := by
    rintro seen todo row rows report s ⟨hsteady, hscanned⟩ e hrow
    refine ⟨hsteady.next, ?_⟩
    rw [hscanned, List.length_append, List.length_cons, List.length_singleton]
    omega
  update := by
    rintro seen todo row rows report s ⟨hsteady, hscanned⟩ r hrow report' s' hout
    refine ⟨(hsteady.update hout).next, ?_⟩
    rw [hout.scanned, hscanned, List.length_append, List.length_cons, List.length_singleton]
    omega

/-! The first pass. -/

def Kept (decode : Decoder ε) (m : Memory) (row : String × Bytes) : Prop :=
  ∃ bs, m.get? row.1 = some bs ∧ (bs = row.2 ∨ Refreshed decode row.2 bs)

theorem Kept.refreshes {decode : Decoder ε} {m m' : Memory} {row : String × Bytes}
    (hkept : Kept decode m row) (h : Refreshes decode m m') : Kept decode m' row := by
  obtain ⟨bs, hheld, hbs⟩ := hkept
  rcases h.row row.1 with hsame | ⟨bs', bs'', hheld', hheld'', hrow⟩
  · exact ⟨bs, hsame.trans hheld, hbs⟩
  · cases hheld.symm.trans hheld'
    refine ⟨bs'', hheld'', .inr ?_⟩
    rcases hbs with rfl | hbs
    · exact hrow
    · exact hbs.trans hrow

theorem Fresh.of_kept {decode : Decoder ε} {m : Memory} {row : String × Bytes}
    (hkept : Kept decode m row)
    (h : ∀ r t, examine decode row.2 = .outdated r t → row.1 = Rows.key r.did →
      m.get? row.1 ≠ some row.2) : Fresh decode m row.1 := by
  intro bs r t hheld hout hkey
  obtain ⟨_, hheld', rfl | hrow⟩ := hkept
  · cases hheld.symm.trans hheld'
    exact h r t hout hkey hheld'
  · cases hheld.symm.trans hheld'
    exact nomatch hrow.current.symm.trans hout

/-- Over a store that refuses nothing, a row of its own is up to date after its turn. -/
private theorem fresh_of_outcome {decode : Decoder ε} {r : Record} {report report' : Report ε}
    {s s' : Logged} (hm : Table.Ascending s.memory) {row : String × Bytes}
    (hkept : Kept decode s.memory row) (hrow : Record.decode row.2 = .ok r)
    (hout : Outcome decode .none r report s report' s') : Fresh decode s'.memory row.1 := by
  refine .of_kept (hkept.refreshes (hout.refreshes hm)) fun r' t' hfound hkey hheld => ?_
  obtain ⟨hrow', hblob', hexpiry'⟩ := examine_eq_outdated.mp hfound
  cases hrow.symm.trans hrow'
  cases hout with
  | undecodable hblob => exact nomatch hblob.symm.trans hblob'
  | current hblob hexpiry =>
      cases hblob.symm.trans hblob'
      exact hexpiry' hexpiry
  | unread _ _ hfault => cases hfault
  | astray _ _ hastray =>
      obtain ⟨bs, hheld', rfl | hbs⟩ := hkept
      · exact hastray _ r (hkey ▸ hheld') hrow rfl
      · obtain ⟨r₀, t₀, hrow₀, -, hencode⟩ := hbs
        cases hrow.symm.trans hrow₀
        exact hastray bs { r with expiresAt := some t₀ : Record } (hkey ▸ hheld')
          (hencode ▸ Record.decode_encode _) rfl
  | unwritten _ _ hfault => cases hfault
  | @written t bs r' hblob hexpiry hheld' hdecode hsame =>
      have hnew : Refreshed decode bs { r' with expiresAt := some t : Record }.encode :=
        ⟨r', t, hdecode, hsame ▸ hblob, rfl⟩
      have hmemory := written_memory hheld' { r' with expiresAt := some t : Record }.encode
      rw [hmemory, hkey, Table.get?_insert_self] at hheld
      rw [Option.some.inj hheld] at hnew
      exact nomatch hnew.current.symm.trans hfound

def Freshening (decode : Decoder ε) (m : Memory) : Stage ε := fun seen page todo _ s =>
  Steady decode m (seen ++ (page.map Prod.fst ++ todo)) s ∧
    (∀ row ∈ page, Kept decode s.memory row) ∧ ∀ key ∈ seen, Fresh decode s.memory key

theorem freshening_invariant (decode : Decoder ε) (m : Memory) :
    Invariant decode .none (Freshening decode m) where
  keys := by
    rintro seen todo report s ⟨hsteady, -, -⟩
    exact ⟨hsteady.ascending, hsteady.keys_now⟩
  fetch := by
    rintro seen todo rows report s ⟨hsteady, -, hfresh⟩ hheld after limit next
    exact ⟨hsteady.fetch _, fun row hrow => ⟨row.2, hheld row hrow, .inl rfl⟩, hfresh⟩
  skip := by
    rintro seen todo row rows report s ⟨hsteady, hkept, hfresh⟩ e hrow
    refine ⟨hsteady.next, fun row' hrow' => hkept row' (List.mem_cons_of_mem _ hrow'), ?_⟩
    refine List.forall_mem_append.mpr ⟨hfresh, List.forall_mem_singleton.mpr ?_⟩
    refine .of_kept (hkept row List.mem_cons_self) fun r t hfound => ?_
    exact nomatch hrow.symm.trans (examine_eq_outdated.mp hfound).1
  update := by
    rintro seen todo row rows report s ⟨hsteady, hkept, hfresh⟩ r hrow report' s' hout
    have hrefreshes := hout.refreshes hsteady.ascending
    refine ⟨(hsteady.update hout).next,
      fun row' hrow' => (hkept row' (List.mem_cons_of_mem _ hrow')).refreshes hrefreshes, ?_⟩
    refine List.forall_mem_append.mpr
      ⟨fun key hkey => (hfresh key hkey).refreshes hrefreshes, List.forall_mem_singleton.mpr ?_⟩
    exact fresh_of_outcome hsteady.ascending (hkept row List.mem_cons_self) hrow hout

/-! The pass after it. -/

def Silent (log : List Event) : Prop := ∀ e ∈ log, e.call.writes = false

theorem silent_append {before after : List Event} :
    Silent (before ++ after) ↔ Silent before ∧ Silent after := List.forall_mem_append

theorem silent_fetched (after : Option String) (limit : Nat) (rows : List (String × Bytes)) :
    Silent (Rows.fetched after limit rows) := by
  refine List.forall_mem_cons.mpr ⟨rfl, fun e he => ?_⟩
  obtain ⟨row, -, rfl⟩ := List.mem_map.mp he
  rfl

private theorem not_stirs {decode : Decoder ε} {m : Memory} {row : String × Bytes}
    (hheld : m.get? row.1 = some row.2)
    (h : ∀ r t, examine decode row.2 = .outdated r t → ∀ bs r', m.get? (Rows.key r.did) = some bs →
      Record.decode bs = .ok r' → r'.blob ≠ r.blob) : ¬ Stirs decode m row.1 := by
  rintro ⟨-, bs, r, t, hheld', hfound, d, hbinding⟩
  rw [hheld] at hheld'
  cases hheld'
  obtain ⟨bs, r', hown, hdecode, -, hblob⟩ := decode_of_binding? hbinding
  exact h r t hfound bs r' hown hdecode hblob

/-- Over a store that refuses nothing, a row has something written exactly when it stirs. -/
private theorem watch_outcome {decode : Decoder ε} {r : Record} {report report' : Report ε}
    {s s' : Logged} {row : String × Bytes} (hstart : startsWith Rows.start row.1 = true)
    (hheld : s.memory.get? row.1 = some row.2) (hsilent : Silent s.log)
    (hrow : Record.decode row.2 = .ok r) (hout : Outcome decode .none r report s report' s') :
    s'.memory = s.memory ∧ Silent s'.log ∧ report'.updated = report.updated ∧
        ¬ Stirs decode s.memory row.1 ∨
      ¬ Silent s'.log ∧ ∃ key, Stirs decode s.memory key := by
  cases hout with
  | undecodable hblob =>
      refine .inl ⟨rfl, hsilent, rfl, not_stirs hheld fun r' t' hfound => ?_⟩
      obtain ⟨hrow', hblob', -⟩ := examine_eq_outdated.mp hfound
      cases hrow.symm.trans hrow'
      exact nomatch hblob.symm.trans hblob'
  | current hblob hexpiry =>
      refine .inl ⟨rfl, hsilent, rfl, not_stirs hheld fun r' t' hfound => ?_⟩
      obtain ⟨hrow', hblob', hexpiry'⟩ := examine_eq_outdated.mp hfound
      cases hrow.symm.trans hrow'
      cases hblob.symm.trans hblob'
      exact absurd hexpiry hexpiry'
  | unread _ _ hfault => cases hfault
  | astray _ _ hastray hreport =>
      refine .inl ⟨rfl, silent_append.mpr ⟨hsilent, List.forall_mem_singleton.mpr rfl⟩, ?_,
        not_stirs hheld fun r' t' hfound bs r'' => ?_⟩
      · rcases hreport with rfl | ⟨e, rfl⟩ <;> rfl
      · cases hrow.symm.trans (examine_eq_outdated.mp hfound).1
        exact hastray bs r''
  | unwritten _ _ hfault => cases hfault
  | @written t bs r' hblob hexpiry hheld' hdecode hsame =>
      refine .inr ⟨fun h => ?_, row.1, hstart, row.2, r, t, hheld,
        examine_eq_outdated.mpr ⟨hrow, hblob, hexpiry⟩, r'.did, ?_⟩
      · exact nomatch (silent_append.mp h).2 _ (List.mem_singleton_self _)
      · rw [binding?_of_decode hheld' hdecode, hsame]

/-- Either nothing has stirred and been written yet, or something stirs and something was written. -/
def Watching (decode : Decoder ε) (m : Memory) : Stage ε := fun seen page todo report s =>
  Steady decode m (seen ++ (page.map Prod.fst ++ todo)) s ∧
    (s.memory = m ∧ Silent s.log ∧ report.updated = 0 ∧ (∀ row ∈ page, m.get? row.1 = some row.2) ∧
        (∀ key ∈ seen, ¬ Stirs decode m key) ∨
      ¬ Silent s.log ∧ ∃ key, Stirs decode m key)

theorem watching_invariant (decode : Decoder ε) (m : Memory) :
    Invariant decode .none (Watching decode m) where
  keys := by
    rintro seen todo report s ⟨hsteady, -⟩
    exact ⟨hsteady.ascending, hsteady.keys_now⟩
  fetch := by
    rintro seen todo rows report s ⟨hsteady, hstage⟩ hheld after limit next
    refine ⟨hsteady.fetch _, ?_⟩
    rcases hstage with ⟨hmemory, hsilent, hupdated, -, hseen⟩ | ⟨hloud, hstirs⟩
    · exact .inl ⟨hmemory, silent_append.mpr ⟨hsilent, silent_fetched after limit rows⟩, hupdated,
        hmemory ▸ hheld, hseen⟩
    · exact .inr ⟨fun h => hloud (silent_append.mp h).1, hstirs⟩
  skip := by
    rintro seen todo row rows report s ⟨hsteady, hstage⟩ e hrow
    refine ⟨hsteady.next, ?_⟩
    rcases hstage with ⟨hmemory, hsilent, hupdated, hheld, hseen⟩ | hloud
    · refine .inl ⟨hmemory, hsilent, hupdated, fun r hr => hheld r (List.mem_cons_of_mem _ hr), ?_⟩
      refine List.forall_mem_append.mpr ⟨hseen, List.forall_mem_singleton.mpr ?_⟩
      refine not_stirs (hheld row List.mem_cons_self) fun r t hfound => ?_
      exact nomatch hrow.symm.trans (examine_eq_outdated.mp hfound).1
    · exact .inr hloud
  update := by
    rintro seen todo row rows report s ⟨hsteady, hstage⟩ r hrow report' s' hout
    refine ⟨(hsteady.update hout).next, ?_⟩
    rcases hstage with ⟨hmemory, hsilent, hupdated, hheld, hseen⟩ | ⟨hloud, hstirs⟩
    · have hstart := hsteady.startsWith (List.mem_append_right seen List.mem_cons_self)
      subst hmemory
      rcases watch_outcome hstart (hheld row List.mem_cons_self) hsilent hrow hout with
        ⟨hmemory', hsilent', hupdated', hrests⟩ | hloud
      · refine .inl ⟨hmemory', hsilent', hupdated'.trans hupdated,
          fun r hr => hheld r (List.mem_cons_of_mem _ hr), ?_⟩
        exact List.forall_mem_append.mpr ⟨hseen, List.forall_mem_singleton.mpr hrests⟩
      · exact .inr hloud
    · obtain ⟨more, hmore⟩ := hout.log_prefix
      exact .inr ⟨fun h => hloud (silent_append.mp (hmore ▸ h)).1, hstirs⟩

section Runs

variable (decode : Decoder ε) (elsewhere : (r : Work.Request) → r.Reply) {m : Memory}
  (hm : Table.Ascending m) (pageSize : Nat) {budget : Nat}
  (hbudget : (Rows.ofStore m).length / max pageSize 1 < budget)

theorem mem_keys_ofStore {key : String} {bs : Bytes} (hstart : startsWith Rows.start key = true)
    (hheld : m.get? key = some bs) : key ∈ (Rows.ofStore m).map Prod.fst := by
  rw [Rows.keys_ofStore]
  exact List.mem_filter.mpr ⟨List.mem_map_of_mem (Table.mem_of_get? hheld), hstart⟩

include hm hbudget

/-- Whatever the rows hold, a pass alone with its store counts them all. -/
theorem pass_counts :
    ∃ report m', (pass decode pageSize budget).run (Memory.alone elsewhere) m =
        (some (.ok report), m') ∧ report.scanned = (Rows.ofStore m).length := by
  obtain ⟨report, s, hrun, -, hscanned⟩ := (counting_invariant decode .none m).pass elsewhere
    ⟨Steady.start hm, rfl⟩ pageSize hbudget
  exact ⟨report, s.memory, (Logged.run_alone elsewhere hrun).1,
    hscanned.trans (List.length_map Prod.fst)⟩

theorem pass_fresh :
    ∃ report m', (pass decode pageSize budget).run (Memory.alone elsewhere) m =
        (some (.ok report), m') ∧ Refreshes decode m m' ∧
      ∀ key, startsWith Rows.start key = true → Fresh decode m' key := by
  obtain ⟨report, s, hrun, hsteady, -, hfresh⟩ := (freshening_invariant decode m).pass elsewhere
    ⟨Steady.start hm, fun _ h => (nomatch h), fun _ h => (nomatch h)⟩ pageSize hbudget
  refine ⟨report, s.memory, (Logged.run_alone elsewhere hrun).1, hsteady.refreshes, ?_⟩
  intro key hstart bs r t hheld
  refine hfresh key ?_ bs r t hheld
  have hkey := mem_keys_ofStore hstart hheld
  rwa [Rows.keys_ofStore_congr hsteady.refreshes.keys] at hkey

/-- Alone with its store, a pass writes nothing exactly when no row stirs. -/
theorem pass_silent_iff :
    ∃ report m', (pass decode pageSize budget).run (Memory.alone elsewhere) m =
        (some (.ok report), m') ∧
      ((report.updated = 0 ∧ ∀ c, Work.Request.store c ∈
          (pass decode pageSize budget).trace (Memory.alone elsewhere) m → c.writes = false) ↔
        ∀ key, ¬ Stirs decode m key) := by
  obtain ⟨report, s, hrun, -, hstage⟩ := (watching_invariant decode m).pass elsewhere
    ⟨Steady.start hm, .inl ⟨rfl, fun _ h => (nomatch h), rfl, fun _ h => (nomatch h),
      fun _ h => (nomatch h)⟩⟩ pageSize hbudget
  obtain ⟨hrun, hcalls⟩ := Logged.run_alone elsewhere hrun
  have htrace : (∀ c, Work.Request.store c ∈
      (pass decode pageSize budget).trace (Memory.alone elsewhere) m → c.writes = false) ↔
      Silent s.log := by
    simp only [hcalls]
    exact List.forall_mem_map
  refine ⟨report, s.memory, hrun, ?_⟩
  rw [htrace]
  rcases hstage with ⟨-, hsilent, hupdated, -, hseen⟩ | ⟨hloud, key, hstirs⟩
  · refine ⟨fun _ key hstirs => ?_, fun _ => ⟨hupdated, hsilent⟩⟩
    obtain ⟨hstart, bs, r, t, hheld, -⟩ := id hstirs
    exact hseen key (mem_keys_ofStore hstart hheld) hstirs
  · exact ⟨fun h => absurd h.2 hloud, fun h => absurd hstirs (h key)⟩

end Runs

/-- Whatever a store holds, a pass right after another one writes nothing and reports no update
exactly when every row whose blob is also that of its identifier's own row, while it is not that row
itself, is up to date by then. -/
theorem second_pass_silent_iff (decode : Decoder ε) (elsewhere : (r : Work.Request) → r.Reply)
    {m : Memory} (hm : Table.Ascending m) (pageSize : Nat) {budget : Nat}
    (hbudget : (Rows.ofStore m).length / max pageSize 1 < budget) :
    ∃ report m', (pass decode pageSize budget).run (Memory.alone elsewhere) m =
        (some (.ok report), m') ∧
      ∃ report' m'', (pass decode pageSize budget).run (Memory.alone elsewhere) m' =
          (some (.ok report'), m'') ∧
        ((report'.updated = 0 ∧ ∀ c, Work.Request.store c ∈
            (pass decode pageSize budget).trace (Memory.alone elsewhere) m' → c.writes = false) ↔
          ∀ key, Twin m key → ∀ bs, m'.get? key = some bs → isOutdated decode (key, bs) = false) := by
  obtain ⟨report, m', hrun, hrefreshes, hfresh⟩ := pass_fresh decode elsewhere hm pageSize hbudget
  have hlength := Rows.length_ofStore_congr hrefreshes.keys
  obtain ⟨report', m'', hrun', hiff⟩ := pass_silent_iff decode elsewhere (hrefreshes.ascending hm)
    pageSize (hlength.symm ▸ hbudget)
  -- after the first pass no row of its own is outdated, so whatever stirs has a twin
  refine ⟨report, m', hrun, report', m'', hrun', hiff.trans ⟨fun h key htwin bs hheld => ?_,
    fun h key hstirs => ?_⟩⟩
  · obtain ⟨hstart, d, b, hbinding, -, d', htwin⟩ := htwin
    cases hfound : examine decode bs with
    | failed | current => rw [isOutdated, hfound]; rfl
    | outdated r t =>
        have hrow := binding?_of_decode hheld (examine_eq_outdated.mp hfound).1
        rw [hrefreshes.binding?_eq, hbinding] at hrow
        cases hrow
        exact absurd ⟨hstart, bs, r, t, hheld, hfound, d', hrefreshes.binding?_eq _ ▸ htwin⟩ (h key)
  · obtain ⟨hstart, bs, r, t, hheld, hfound, d', hown⟩ := hstirs
    have hrow := binding?_of_decode hheld (examine_eq_outdated.mp hfound).1
    rw [hrefreshes.binding?_eq] at hrow hown
    have hcurrent := h key ⟨hstart, r.did, r.blob, hrow,
      hfresh key hstart bs r t hheld hfound, d', hown⟩ bs hheld
    rw [isOutdated, hfound] at hcurrent
    cases hcurrent

/-- A row that was out of date under its own key is not written again. -/
theorem second_pass_silent_iff_own :
    let decode : Decoder Unit := fun _ => .ok 7
    let d : Did := ⟨"did:a:b", by decide⟩
    let m : Memory := [(Rows.key d, Record.encode ⟨d, ⟨""⟩, 1, 2, none⟩)]
    Table.Ascending m ∧ (Rows.ofStore m).length / max 2 1 < 1 ∧
      ∃ report m', (pass decode 2 1).run (Memory.alone Memory.nobody) m = (some (.ok report), m') ∧
        ∃ report' m'', (pass decode 2 1).run (Memory.alone Memory.nobody) m' =
            (some (.ok report'), m'') ∧
          report'.updated = 0 ∧ ∀ c, Work.Request.store c ∈
            (pass decode 2 1).trace (Memory.alone Memory.nobody) m' → c.writes = false := by
  intro decode d m
  have hm : Table.Ascending m := List.pairwise_singleton _ _
  have hrows : Rows.ofStore m = m := Rows.ofStore_singleton (startsWith_append _ _) _
  have hbudget : (Rows.ofStore m).length / max 2 1 < 1 := by
    rw [hrows]
    decide
  have htwin : ∀ key, ¬ Twin m key := by
    rintro key ⟨-, d', b, hbinding, hkey, -⟩
    obtain ⟨bs, r, hheld, hdecode, rfl, -⟩ := decode_of_binding? hbinding
    have hrow := List.mem_singleton.mp (Table.mem_of_get? hheld)
    rw [(Prod.mk.inj hrow).2, Record.decode_encode] at hdecode
    exact hkey ((Prod.mk.inj hrow).1.trans (congrArg (fun r => Rows.key r.did) (Except.ok.inj hdecode)))
  obtain ⟨report, m', hrun, report', m'', hrun', hiff⟩ :=
    second_pass_silent_iff decode Memory.nobody hm 2 hbudget
  obtain ⟨hupdated, hsilent⟩ := hiff.mpr fun key h => absurd h (htwin key)
  exact ⟨hm, hbudget, report, m', hrun, report', m'', hrun', hupdated, hsilent⟩

/-- A row without an expiry is filed under another identifier than its own, whose row has the same
blob and its expiry: a pass writes that one once more and leaves the store as it was, and so does the
next. -/
theorem second_pass_writes_twin :
    let decode : Decoder Unit := fun _ => .ok 7
    let d : Did := ⟨"did:a:a", by decide⟩
    let d' : Did := ⟨"did:a:b", by decide⟩
    let own : Record := ⟨d', ⟨""⟩, 1, 2, some 7⟩
    let stray : Record := ⟨d', ⟨""⟩, 1, 2, none⟩
    let m : Memory := [(Rows.key d, stray.encode), (Rows.key d', own.encode)]
    Table.Ascending m ∧
      ∃ report m', (pass decode 3 1).run (Memory.alone Memory.nobody) m = (some (.ok report), m') ∧
        ∃ report' m'', (pass decode 3 1).run (Memory.alone Memory.nobody) m' =
            (some (.ok report'), m'') ∧ report'.updated ≠ 0 := by
  intro decode d d' own stray m
  have hlt : Rows.key d < Rows.key d' := by decide
  have hne : Rows.key d' ≠ Rows.key d := by decide
  have hscan : Memory.scan m Rows.start none (max 3 1) = [Rows.key d, Rows.key d'] := by decide
  have hstray : m.get? (Rows.key d) = some stray.encode := if_pos rfl
  have hown : m.get? (Rows.key d') = some own.encode := (if_neg hne).trans (if_pos rfl)
  have hpage : (Rows.page none 3).run (Memory.alone Memory.nobody) m =
      (some (.ok ⟨[stray, own], [], none⟩), m) := by
    rw [Rows.page, Program.run_onSuccess, Memory.run_scan, hscan]
    dsimp only
    rw [Program.run_onSuccess, Rows.read, Program.run_onSuccess, Memory.run_get, hstray]
    dsimp only
    rw [Program.run_onSuccess, Rows.read, Program.run_onSuccess, Memory.run_get, hown,
      Record.decode_encode]
    dsimp only
    rw [Program.run_onSuccess, Record.decode_encode]
    rfl
  have hwrite : (Work.compareAndPut (Rows.key d') own.encode own.encode).run
      (Memory.alone Memory.nobody) m = (some (.ok true), m) := by
    have hsame : m.insert (Rows.key d') own.encode = m := by
      simp only [m, Table.insert, if_neg (Std.not_gt_of_lt hlt), if_neg hne, if_neg Std.lt_irrefl,
        if_true]
    rw [Memory.run_compareAndPut Memory.nobody m hown, hsame]
  have hset : (Rows.setExpiry d' ⟨""⟩ 7).run (Memory.alone Memory.nobody) m =
      (some (.ok true), m) := by
    rw [Rows.setExpiry, Program.run_onSuccess, Memory.run_get, hown]
    dsimp only
    rw [Record.decode_encode]
    exact hwrite
  have hrun : (pass decode 3 1).run (Memory.alone Memory.nobody) m = (some (.ok ⟨2, 1, []⟩), m) := by
    have hrow : (updateRow decode ⟨2, 0, []⟩ stray).run (Memory.alone Memory.nobody) m =
        (some ⟨2, 1, []⟩, m) := by
      change ((Rows.setExpiry d' ⟨""⟩ 7).bind _).run _ _ = _
      rw [Program.run_bind, hset]
      rfl
    have hrows : (updateRows decode ⟨2, 0, []⟩ [stray, own]).run (Memory.alone Memory.nobody) m =
        (some ⟨2, 1, []⟩, m) := by
      rw [updateRows, Program.run_bind, hrow]
      rfl
    have hreport : Report.empty.addPage ⟨[stray, own], [], none⟩ = (⟨2, 0, []⟩ : Report Unit) := rfl
    rw [pass, passFrom, Program.run_onSuccess, hpage]
    dsimp only
    rw [Program.run_bind, hreport, hrows]
    rfl
  have hm : Table.Ascending m :=
    List.pairwise_pair.mpr hlt
  exact ⟨hm, _, m, hrun, _, m, hrun, by decide⟩

end Upkeep.Sweep
