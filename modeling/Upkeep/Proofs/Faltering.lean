import Upkeep.Proofs.Browsing
import Upkeep.Proofs.Finishing
import Upkeep.Proofs.Session.Granted

/-!
Activities over a store that may fail at any call. A pass, a listing and a query come to an end all the
same, as long as a scan that succeeds finds the keys that are there in turn; and a query that succeeds
names the identifiers of just those rows that expire by its horizon.
-/

namespace Upkeep

open Store

namespace Program

variable {I : Interface} {α β ε σ : Type} {rely : (r : I.Request) → I.Reply r → Prop}
  {safe safe' : I.Request → Prop}

theorem Completes.mono {post post' : α → Prop} {p : Program I α} (hp : p.Completes rely safe post)
    (hsafe : ∀ r, safe r → safe' r) (hpost : ∀ a, post a → post' a) :
    p.Completes rely safe' post' := by
  induction p with
  | done a => exact hpost a hp
  | ask r next ih => exact ⟨hsafe r hp.1, fun x hx => ih x (hp.2 x hx)⟩
  | abandon => exact hp

/-- What keeps to a rule and comes to an end does both at once. -/
theorem Keeps.completes {post post' : α → Prop} {p : Program I α} (hp : p.Keeps rely safe post)
    (hends : p.Completes rely safe' post') : p.Completes rely safe post := by
  induction p with
  | done a => exact hp
  | ask r next ih => exact ⟨hp.1, fun x hx => ih x (hp.2 x hx) (hends.2 x hx)⟩
  | abandon => exact hends

/-- The run of a program that completes, in surroundings that reply as is relied on and keep an
invariant. -/
theorem Completes.finishes {answer : Answers I σ} (inv : σ → Prop)
    (hanswer : ∀ r s, safe r → inv s → rely r (answer r s).1 ∧ inv (answer r s).2) {post : α → Prop}
    {p : Program I α} (hp : p.Completes rely safe post) {s : σ} (hs : inv s) :
    p.Finishes answer s fun a s' l => post a ∧ inv s' ∧ ∀ r ∈ l, safe r := by
  induction p generalizing s with
  | done a => exact ⟨hp, hs, fun _ hr => nomatch hr⟩
  | ask r next ih =>
      obtain ⟨hrely, hinv⟩ := hanswer r s hp.1 hs
      refine (ih _ (hp.2 _ hrely) hinv).mono fun a s' l ⟨hpost, hs', hl⟩ => ⟨hpost, hs', ?_⟩
      exact List.forall_mem_cons.mpr ⟨hp.1, hl⟩
  | abandon => exact hp

def CompletesOk (rely : (r : I.Request) → I.Reply r → Prop) (safe : I.Request → Prop)
    (post : α → Prop) (p : Program I (Except ε α)) : Prop :=
  p.Completes rely safe fun x => ∀ a, x = .ok a → post a

theorem CompletesOk.onSuccess {post : α → Prop} {post' : β → Prop} {p : Program I (Except ε α)}
    {f : α → Program I (Except ε β)} (hp : p.CompletesOk rely safe post)
    (hf : ∀ a, post a → (f a).CompletesOk rely safe post') :
    (p.onSuccess f).CompletesOk rely safe post' := by
  refine Completes.bind hp fun x hx => ?_
  cases x with
  | ok a => exact hf a (hx a rfl)
  | error e => exact fun _ h => nomatch h

end Program

namespace Work

variable {α : Type} {rely : (r : Request) → r.Reply → Prop} {safe : Request → Prop}

theorem completesOk_ok {post : α → Prop} {a : α} (h : post a) :
    (ok a).CompletesOk rely safe post := by
  intro b hb
  cases hb
  exact h

theorem completesOk_call {c : Call} (h : safe (.store c)) :
    (call c).CompletesOk rely safe fun a => rely (.store c) (.ok a) := by
  refine completes_call h fun x hx a ha => ?_
  cases x with
  | error e => cases ha
  | ok a' =>
      cases ha
      exact hx

def Request.Looks : Request → Prop
  | .store (.scan ..) | .store (.get _) => True
  | _ => False

/-- What a store is relied on for that holds certain rows: it says what they are, or fails. -/
def Steady (m : Memory) : (r : Request) → r.Reply → Prop
  | .store c, x => x = (Memory.answer c m).1 ∨ ∃ e, x = .error e
  | _, _ => True

end Work

/-! A page of rows. -/

namespace Rows

variable {rely : (r : Work.Request) → r.Reply → Prop} {safe : Work.Request → Prop}

/-- A page shows what is read of the keys that are found, and where the next one starts. -/
theorem page_completesOk (found : List String) (post : List Record → Prop)
    {after : Option String} {limit : Nat} (hsafe : safe (.store (.scan start after (max limit 1))))
    (hscan : ∀ keys : List String,
      rely (.store (.scan start after (max limit 1))) (.ok keys) → keys = found)
    (hread : (read found).CompletesOk rely safe fun rows => post rows.1) :
    (page after limit).CompletesOk rely safe fun page => post page.records ∧
      page.next = if found.length < max limit 1 then none else found.getLast? := by
  refine (Work.completesOk_call (c := .scan start after (max limit 1)) hsafe).onSuccess
    fun keys hkeys => ?_
  obtain rfl := hscan keys hkeys
  exact hread.onSuccess fun rows hrows => Work.completesOk_ok ⟨hrows, rfl⟩

theorem read_completesOk (keys : List String) :
    (read keys).CompletesOk rely Work.Request.Looks fun _ => True := by
  induction keys with
  | nil => exact Work.completesOk_ok trivial
  | cons k ks ih =>
      refine (Work.completesOk_call (c := .get k) trivial).onSuccess fun current _ => ?_
      cases current with
      | none => exact ih
      | some bs =>
          refine ih.onSuccess fun (records, corrupt) _ => ?_
          dsimp only
          cases Record.decode bs <;> exact Work.completesOk_ok trivial

/-- What is read of rows that are there are the records in them. -/
theorem read_steady {m : Memory} {rows : List (String × Bytes)}
    (h : ∀ row ∈ rows, m.get? row.1 = some row.2) :
    (read (rows.map Prod.fst)).CompletesOk (Work.Steady m) Work.Request.Looks
      fun found => found.1 = rows.filterMap record? := by
  induction rows with
  | nil => exact Work.completesOk_ok rfl
  | cons row rows ih =>
      have ih := ih fun row' hrow' => h row' (List.mem_cons_of_mem row hrow')
      refine (Work.completesOk_call (c := .get row.1) trivial).onSuccess fun current hcurrent => ?_
      obtain rfl : current = some row.2 := by
        rcases hcurrent with hheld | ⟨e, he⟩
        · exact (Except.ok.inj hheld).trans (h row List.mem_cons_self)
        · cases he
      refine ih.onSuccess fun (records, corrupt) hrecords => ?_
      dsimp only at hrecords ⊢
      subst hrecords
      cases hdecode : Record.decode row.2 with
      | error e =>
          refine Work.completesOk_ok ?_
          rw [List.filterMap_cons_none (by rw [record?, hdecode]; rfl)]
      | ok r =>
          refine Work.completesOk_ok ?_
          rw [List.filterMap_cons_some (b := r) (by rw [record?, hdecode]; rfl)]

end Rows

/-! Passes and walks end. -/

namespace Sweep

variable {ε : Type} (decode : Decoder ε)

private theorem passFrom_ends (pageSize budget : Nat) {found todo : List String}
    (seen : List String) (report : Report ε) (hfound : found = seen ++ todo)
    (hbudget : todo.length < budget) :
    (passFrom decode pageSize budget seen.getLast? report).Completes (Work.Finds Rows.start found)
      (fun _ => True) fun _ => True := by
  induction budget generalizing seen todo report with
  | zero => exact absurd hbudget (Nat.not_lt_zero _)
  | succ budget ih =>
      have hread : (Rows.read (todo.take (max pageSize 1))).CompletesOk
          (Work.Finds Rows.start found) (fun _ => True) fun _ => True :=
        (Rows.read_completesOk _).mono (fun _ _ => trivial) fun _ h => h
      have hpage := Rows.page_completesOk (todo.take (max pageSize 1)) (fun _ => True) trivial
        (fun keys hkeys => hkeys rfl seen todo hfound rfl) hread
      refine hpage.bind fun x hx => ?_
      cases x with
      | error e => trivial
      | ok page =>
          obtain ⟨-, hnext⟩ := hx page rfl
          refine ((updateRows_completes decode (report.addPage page) page.records).mono
            (fun _ _ => trivial) fun _ h => h).bind fun report' _ => ?_
          rw [hnext]
          rcases next_page seen todo
            (Nat.lt_of_lt_of_le Nat.one_pos (Nat.le_max_right pageSize 1)) with
            ⟨hnone, -⟩ | ⟨key, hsome, hlast, hless⟩
          · rw [hnone]
            trivial
          · rw [hsome]
            have hrest : found =
                (seen ++ todo.take (max pageSize 1)) ++ todo.drop (max pageSize 1) := by
              rw [List.append_assoc, List.take_append_drop, hfound]
            have hfrom := ih (seen ++ todo.take (max pageSize 1)) report' hrest (by omega)
            rwa [hlast] at hfrom

/-- A pass over a store that falters comes to its end. -/
theorem pass_ends {found : List String} (pageSize : Nat) {budget : Nat}
    (hbudget : found.length < budget) :
    (pass decode pageSize budget).Completes (Work.Finds Rows.start found) (fun _ => True)
      fun _ => True :=
  passFrom_ends decode pageSize budget [] .empty rfl hbudget

end Sweep

namespace Pager

private theorem walk_ends {budget : Nat} {p : Pager} {found seen todo : List String}
    (h : p.Stands found seen todo) (hsize : 0 < p.pageSize) (hbudget : todo.length < budget) :
    (walk budget p).CompletesOk (Work.Finds p.start found) (fun _ => True) fun _ => True := by
  induction budget generalizing p seen todo with
  | zero => exact absurd hbudget (Nat.not_lt_zero _)
  | succ budget ih =>
      cases hfinished : p.finished with
      | true =>
          rw [walk_finished budget hfinished]
          exact Work.completesOk_ok trivial
      | false =>
          rw [walk_unfinished budget hfinished]
          refine (Work.completesOk_call (c := .scan p.start p.cursor p.pageSize) trivial).onSuccess
            fun page hpage => ?_
          obtain rfl : page = todo.take p.pageSize :=
            hpage rfl seen todo h.found (h.cursor hfinished)
          by_cases hempty : (todo.take p.pageSize).isEmpty = true
          · rw [if_pos hempty]
            exact Work.completesOk_ok trivial
          · rw [if_neg hempty]
            have hrest := Nat.lt_of_lt_of_le (length_drop_lt hsize hempty)
              (Nat.le_of_lt_succ hbudget)
            exact (ih (p := p.advance _) (h.advance hfinished) hsize hrest).onSuccess
              fun pages _ => Work.completesOk_ok trivial

end Pager

/-- A listing over a store that falters comes to its end, and finds what is marked if it succeeds. -/
theorem Markers.list_completesOk (m : Markers) {found : List String} {budget : Nat}
    (hbudget : found.length < budget) :
    (m.list budget).CompletesOk (Work.Finds m.start found) Work.Request.Looks
      fun ds => ds = found.filterMap m.did? := by
  have hsize : 0 < (Pager.at m.start m.pageSize).pageSize :=
    Nat.lt_of_lt_of_le Nat.one_pos (Nat.le_max_right ..)
  have hends : (m.list budget).CompletesOk (Work.Finds m.start found) (fun _ => True)
      fun _ => True :=
    (Pager.walk_ends (Pager.stands_at ..) hsize hbudget).onSuccess
      fun _ _ => Work.completesOk_ok trivial
  exact Program.Keeps.completes (m.list_finds (fun _ _ => trivial) found budget) hends

/-! Who is due. -/

namespace Rows

/-- Rows that stand under the keys of their own identifiers. -/
def Filed (m : Memory) : Prop :=
  ∀ row ∈ ofStore m, ∀ r, Record.decode row.2 = .ok r → row.1 = key r.did

theorem filed_of_encoded {m : Memory}
    (h : ∀ row ∈ ofStore m, ∃ r : Record, row = (key r.did, r.encode)) : Filed m := by
  intro row hrow r hr
  obtain ⟨r', rfl⟩ := h row hrow
  dsimp only at hr
  rw [Record.decode_encode] at hr
  cases hr
  rfl

def Due (m : Memory) (now span : UInt64) (d : Did) : Prop :=
  ∃ r t, Holds m d r ∧ r.expiresAt = some t ∧ t.toNat ≤ min (now.toNat + span.toNat) (2 ^ 64 - 1)

/-- The identifiers of rows that expire by a horizon, in the order of the rows. -/
def dueBy (horizon : UInt64) (rows : List (String × Bytes)) : List Did :=
  ((rows.filterMap record?).filter (Sweep.expiresBy horizon)).map Record.did

theorem dueBy_append (horizon : UInt64) (rows rows' : List (String × Bytes)) :
    dueBy horizon (rows ++ rows') = dueBy horizon rows ++ dueBy horizon rows' := by
  rw [dueBy, List.filterMap_append, List.filter_append, List.map_append]
  rfl

theorem record?_eq_some {row : String × Bytes} {r : Record} :
    record? row = some r ↔ Record.decode row.2 = .ok r := by
  rw [record?]
  cases Record.decode row.2 <;> simp [Except.toOption]

theorem expiresBy_iff {r : Record} {now span : UInt64} :
    Sweep.expiresBy (saturatingAdd now span) r = true ↔
      ∃ t, r.expiresAt = some t ∧ t.toNat ≤ min (now.toNat + span.toNat) (2 ^ 64 - 1) := by
  rw [Sweep.expiresBy]
  cases r.expiresAt with
  | none => simp
  | some t => simp only [decide_eq_true_eq, le_saturatingAdd_iff, Option.some.injEq, exists_eq_left']

section Filed

variable {m : Memory} (hasc : Table.Ascending m) (hfiled : Filed m)

include hasc hfiled

theorem mem_dueBy {now span : UInt64} {d : Did} :
    d ∈ dueBy (saturatingAdd now span) (ofStore m) ↔ Due m now span d := by
  simp only [dueBy, List.mem_map, List.mem_filter, List.mem_filterMap]
  constructor
  · rintro ⟨r, ⟨⟨row, hrow, hr⟩, hexpires⟩, rfl⟩
    obtain ⟨t, ht, hle⟩ := expiresBy_iff.mp hexpires
    have hdecode := record?_eq_some.mp hr
    refine ⟨r, t, ⟨row.2, ?_, hdecode⟩, ht, hle⟩
    rw [← hfiled row hrow r hdecode]
    exact Table.get?_of_mem hasc (mem_of_ofStore hrow)
  · rintro ⟨r, t, ⟨bs, hheld, hdecode⟩, ht, hle⟩
    have hrow : (key d, bs) ∈ ofStore m :=
      List.mem_filter.mpr ⟨Table.mem_of_get? hheld, startsWith_append _ _⟩
    have hd : r.did = d := (key_injective (hfiled _ hrow r hdecode)).symm
    exact ⟨r, ⟨⟨_, hrow, record?_eq_some.mpr hdecode⟩, expiresBy_iff.mpr ⟨t, ht, hle⟩⟩, hd⟩

theorem nodup_dueBy (horizon : UInt64) : (dueBy horizon (ofStore m)).Nodup := by
  have hrows : (ofStore m).Pairwise fun row row' => row ∈ ofStore m ∧ row' ∈ ofStore m ∧
      row.1 < row'.1 := by
    refine List.Pairwise.imp_of_mem (fun hrow hrow' hlt => ⟨hrow, hrow', hlt⟩)
      ((List.pairwise_map.mp (Table.ascending_iff_keys.mp hasc)).filter _)
  have hrecords : ((ofStore m).filterMap record?).Pairwise fun r r' => key r.did < key r'.did := by
    refine hrows.filterMap record? fun row row' ⟨hrow, hrow', hlt⟩ r hr r' hr' => ?_
    rwa [← hfiled row hrow r (record?_eq_some.mp hr), ← hfiled row' hrow' r' (record?_eq_some.mp hr')]
  refine List.Pairwise.map Record.did (fun r r' (hlt : key r.did < key r'.did) heq => ?_)
    (hrecords.filter _)
  rw [heq] at hlt
  exact Std.lt_irrefl hlt

theorem perm_dueBy {now span : UInt64} {ds : List Did} (hds : ds.Nodup)
    (hmem : ∀ d, d ∈ ds ↔ Due m now span d) : ds.Perm (dueBy (saturatingAdd now span) (ofStore m)) :=
  (List.perm_ext_iff_of_nodup hds (nodup_dueBy hasc hfiled _)).mpr fun d =>
    (hmem d).trans (mem_dueBy hasc hfiled).symm

end Filed

end Rows

namespace Sweep

variable {m : Memory}

private theorem expiringFrom_steady (hasc : Table.Ascending m) (horizon : UInt64)
    (pageSize budget : Nat) (seen : List (String × Bytes)) {todo : List (String × Bytes)}
    (hrows : Rows.ofStore m = seen ++ todo) (hbudget : todo.length < budget) :
    (expiringFrom horizon pageSize budget (seen.map Prod.fst).getLast?).CompletesOk (Work.Steady m)
      Work.Request.Looks fun due => due = Rows.dueBy horizon todo := by
  induction budget generalizing seen todo with
  | zero => exact absurd hbudget (Nat.not_lt_zero _)
  | succ budget ih =>
      have hkeys : m.keys.filter (startsWith Rows.start) =
          seen.map Prod.fst ++ todo.map Prod.fst := by
        rw [← Rows.keys_ofStore, hrows, List.map_append]
      have hheld : ∀ row ∈ todo.take (max pageSize 1), m.get? row.1 = some row.2 := fun row hrow =>
        Table.get?_of_mem hasc (Rows.mem_of_ofStore
          (hrows ▸ List.mem_append_right seen (List.mem_of_mem_take hrow)))
      have hscan : ∀ keys : List String, Work.Steady m (.store (.scan Rows.start
          (seen.map Prod.fst).getLast? (max pageSize 1))) (.ok keys) →
            keys = (todo.take (max pageSize 1)).map Prod.fst := by
        rintro keys (hfound | ⟨e, he⟩)
        · rw [Except.ok.inj hfound, Memory.scan_rest hasc hkeys, List.map_take]
        · cases he
      refine (Rows.page_completesOk _ (· = (todo.take (max pageSize 1)).filterMap Rows.record?) trivial
        hscan (Rows.read_steady hheld)).onSuccess fun page ⟨hrecords, hnext⟩ => ?_
      dsimp only
      rw [List.map_take] at hnext
      rw [hrecords, hnext]
      rcases next_page (seen.map Prod.fst) (todo.map Prod.fst)
        (Nat.lt_of_lt_of_le Nat.one_pos (Nat.le_max_right pageSize 1)) with
        ⟨hnone, hdrop⟩ | ⟨key, hsome, hlast, hless⟩
      · rw [hnone]
        refine Work.completesOk_ok ?_
        rw [← List.map_drop, List.map_eq_nil_iff, List.drop_eq_nil_iff] at hdrop
        rw [List.take_of_length_le hdrop, Rows.dueBy]
      · rw [hsome]
        have hrest : Rows.ofStore m =
            (seen ++ todo.take (max pageSize 1)) ++ todo.drop (max pageSize 1) := by
          rw [List.append_assoc, List.take_append_drop, hrows]
        rw [List.length_map, ← List.map_drop, List.length_map] at hless
        have hfrom := ih (seen ++ todo.take (max pageSize 1)) hrest (by omega)
        rw [List.map_append, List.map_take, hlast] at hfrom
        refine hfrom.onSuccess fun rest hdue => Work.completesOk_ok ?_
        rw [hdue, ← Rows.dueBy, ← Rows.dueBy_append, List.take_append_drop]

/-- A query over a store that falters, and does not change meanwhile, comes to its end, and names
whoever is due if it succeeds. -/
theorem expiring_steady (hasc : Table.Ascending m) (now lookahead : UInt64) (pageSize : Nat)
    {budget : Nat} (hbudget : (Rows.ofStore m).length < budget) :
    (expiring now lookahead pageSize budget).CompletesOk (Work.Steady m) Work.Request.Looks
      fun due => due = Rows.dueBy (saturatingAdd now lookahead) (Rows.ofStore m) :=
  expiringFrom_steady hasc _ pageSize budget [] rfl hbudget

end Sweep

end Upkeep
