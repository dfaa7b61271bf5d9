import Upkeep.Proofs.Session.Walk
import Upkeep.Proofs.Start
import Upkeep.Store.FileStore

/-!
Activities that browse a store: they scan, look up what they found, and write only over what is there.
As long as a scan finds the keys that are there in turn, and each of them can be looked up, a page, a
listing and a pass come to an end without a failure, whatever becomes of the writes.
-/

namespace Upkeep

open Store

/-- As long as every request that is safe has a reply that is as `rely` says, a program makes no other
request, and ends with a result that is as `post` says. -/
def Program.Completes {I : Interface} {α : Type} (rely : (r : I.Request) → I.Reply r → Prop)
    (safe : I.Request → Prop) (post : α → Prop) : Program I α → Prop
  | .done a => post a
  | .ask r next => safe r ∧ ∀ x, rely r x → (next x).Completes rely safe post
  | .abandon => False

namespace Program.Completes

variable {I : Interface} {α β ε : Type} {rely : (r : I.Request) → I.Reply r → Prop}
  {safe : I.Request → Prop}

theorem bind {post : α → Prop} {post' : β → Prop} {p : Program I α} {f : α → Program I β}
    (hp : p.Completes rely safe post) (hf : ∀ a, post a → (f a).Completes rely safe post') :
    (p.bind f).Completes rely safe post' := by
  induction p with
  | done a => exact hf a hp
  | ask r next ih => exact ⟨hp.1, fun x hx => ih x (hp.2 x hx)⟩
  | abandon => exact hp.elim

/-- A program in two parts, of which the first does not fail. -/
theorem onSuccess {post : α → Prop} {post' : Except ε β → Prop} {p : Program I (Except ε α)}
    {f : α → Program I (Except ε β)}
    (hp : p.Completes rely safe fun x => ∃ a, x = .ok a ∧ post a)
    (hf : ∀ a, post a → (f a).Completes rely safe post') :
    (p.onSuccess f).Completes rely safe post' := by
  refine hp.bind fun x hx => ?_
  obtain ⟨a, rfl, ha⟩ := hx
  exact hf a ha

end Program.Completes

namespace Work

/-- Requests that look at the store, or write only over what is there. For a scan there is room. -/
def Request.Browses : Request → Prop
  | .store (.scan _ _ limit) => FileStore.hasRoom limit = true
  | .store (.get _) | .store (.compareAndPut ..) => True
  | _ => False

/-- What those are relied on for while certain keys are there: a scan finds the keys that start as
asked, after those that were seen the next ones, and each key that is readable can be looked up. -/
def Serves (keys : List String) (readable : String → Prop) : (r : Request) → r.Reply → Prop
  | .store (.scan start after limit), (x : Except Error (List String)) =>
      ∃ page, x = .ok page ∧ (∀ key ∈ page, key ∈ keys) ∧ ∀ seen todo,
        keys.filter (startsWith start) = seen ++ todo → after = seen.getLast? → page = todo.take limit
  | .store (.get key), (x : Except Error (Option Bytes)) =>
      key ∈ keys → readable key → ∃ bs, x = .ok (some bs)
  | _, _ => True

theorem completes_call {rely : (r : Request) → r.Reply → Prop} {safe : Request → Prop} {c : Call}
    {post : Except Failure c.Answer → Prop} (hsafe : safe (.store c))
    (hpost : ∀ x : Reply c, rely (.store c) x → post (x.mapError Failure.store)) :
    (call c).Completes rely safe post := by
  refine ⟨hsafe, fun x hx => ?_⟩
  cases x with
  | error e => exact hpost (.error e) hx
  | ok a => exact hpost (.ok a) hx

end Work

/-- An activity that completes in the surroundings it is in. -/
theorem Timeline.run_completes {σ α : Type} {o : Outside σ}
    {rely : (r : Work.Request) → r.Reply → Prop} {safe : Work.Request → Prop} {post : α → Prop}
    (inv : σ → Prop) (hsafe : ∀ r, safe r → ∃ c, r = .store c)
    (hstore : ∀ c s, safe (.store c) → inv s → ∃ x s', o.store c s = (some x, s') ∧
      rely (.store c) x ∧ inv s') {p : Work α}
    (hp : p.Completes rely safe post) {t : Timeline σ} (ht : inv t.outside) :
    ∃ a s, t.run o p = (some a, t.withOutside s) ∧ post a ∧ inv s := by
  induction p generalizing t with
  | done a => exact ⟨a, t.outside, run_done a, hp, ht⟩
  | abandon => exact hp.elim
  | ask r next ih =>
      obtain ⟨c, rfl⟩ := hsafe r hp.1
      obtain ⟨x, s, hanswer, hx, hs⟩ := hstore c t.outside hp.1 ht
      obtain ⟨a, s', hrun, ha, hs'⟩ := ih x (hp.2 x hx) (t := t.withOutside s) hs
      have hperform : t.perform o (.store c) = atOnce (r := .store c) x (t.withOutside s) := by
        rw [perform, hanswer]
        rfl
      exact ⟨a, s', (run_ask hperform).trans hrun, ha, hs'⟩

section Serves

variable {keys : List String} {readable : String → Prop}

namespace Rows

/-- What was found can be read, though not always as a row. -/
private theorem read_completes {found : List String}
    (hfound : ∀ key ∈ found, key ∈ keys ∧ readable key) :
    (read found).Completes (Work.Serves keys readable) Work.Request.Browses fun x =>
      ∃ rows, x = .ok rows ∧ rows.1.length + rows.2.length = found.length := by
  induction found with
  | nil => exact ⟨_, rfl, rfl⟩
  | cons k ks ih =>
      have ih := ih fun key hkey => hfound key (List.mem_cons_of_mem k hkey)
      have hget : (Work.get k).Completes (Work.Serves keys readable) Work.Request.Browses fun x =>
          ∃ bs, x = .ok (some bs) := by
        refine Work.completes_call trivial fun x hx => ?_
        obtain ⟨bs, rfl⟩ := hx (hfound k List.mem_cons_self).1 (hfound k List.mem_cons_self).2
        exact ⟨bs, rfl⟩
      refine Program.Completes.bind hget fun x hx => ?_
      obtain ⟨bs, rfl⟩ := hx
      refine ih.onSuccess fun (records, corrupt) hlength => ?_
      dsimp only at hlength ⊢
      cases Record.decode bs with
      | ok r => exact ⟨_, rfl, (Nat.succ_add ..).trans (congrArg Nat.succ hlength)⟩
      | error e => exact ⟨_, rfl, congrArg Nat.succ hlength⟩

/-- A page is read, of as many rows as were to come and have room on it. -/
theorem page_completes (hreadable : ∀ key ∈ keys, readable key) (after : Option String) {limit : Nat}
    (hroom : FileStore.hasRoom (max limit 1) = true) :
    (page after limit).Completes (Work.Serves keys readable) Work.Request.Browses fun x =>
      ∃ page, x = .ok page ∧ ∀ seen todo, keys.filter (startsWith start) = seen ++ todo →
        after = seen.getLast? →
          page.records.length + page.corrupt.length = (todo.take (max limit 1)).length ∧
          page.next = if (todo.take (max limit 1)).length < max limit 1 then none
            else (todo.take (max limit 1)).getLast? := by
  have hscan : (Work.scan start after (max limit 1)).Completes (Work.Serves keys readable)
      Work.Request.Browses fun x => ∃ found : List String, x = .ok found ∧
        (∀ key ∈ found, key ∈ keys) ∧ ∀ seen todo, keys.filter (startsWith start) = seen ++ todo →
          after = seen.getLast? → found = todo.take (max limit 1) := by
    refine Work.completes_call hroom fun x hx => ?_
    obtain ⟨found, rfl, hfound⟩ := hx
    exact ⟨found, rfl, hfound⟩
  refine hscan.onSuccess fun found hfound => ?_
  have hread := read_completes fun key hkey => ⟨hfound.1 key hkey, hreadable key (hfound.1 key hkey)⟩
  refine hread.onSuccess fun rows hlength => ⟨_, rfl, fun seen todo hkeys hafter => ?_⟩
  rw [← hfound.2 seen todo hkeys hafter]
  exact ⟨hlength, rfl⟩

end Rows

namespace Sweep

variable {ε : Type} (decode : Decoder ε)

section Update

variable {rely : (r : Work.Request) → r.Reply → Prop}

/-- A row is looked at, whatever comes of it. -/
private theorem updateRow_completes (report : Report ε) (r : Record) :
    (updateRow decode report r).Completes rely Work.Request.Browses fun report' =>
      report'.scanned = report.scanned := by
  have hset (d : Did) (b : Blob) (t : UInt64) : (Rows.setExpiry d b t).Completes
      rely Work.Request.Browses fun _ => True := by
    have hget : (Work.get (Rows.key d)).Completes rely Work.Request.Browses fun _ => True :=
      Work.completes_call trivial fun _ _ => trivial
    refine Program.Completes.bind hget fun x _ => ?_
    rcases x with e | _ | current
    · trivial
    · trivial
    · dsimp only
      split
      next => trivial
      next =>
        split
        next => exact Work.completes_call (c := .compareAndPut ..) trivial fun _ _ => trivial
        next => trivial
  unfold updateRow
  cases decode r.blob with
  | error e => rfl
  | ok t =>
      dsimp only
      split
      next => rfl
      next =>
        refine (hset r.did r.blob t).bind fun x _ => ?_
        rcases x with f | ⟨_ | _⟩ <;> rfl

/-- The rows of a page are looked at, whatever the store replies. -/
theorem updateRows_completes (report : Report ε) (rs : List Record) :
    (updateRows decode report rs).Completes rely Work.Request.Browses fun report' =>
      report'.scanned = report.scanned := by
  induction rs generalizing report with
  | nil => rfl
  | cons r rs ih =>
      refine (updateRow_completes decode report r).bind fun report' hreport' => ?_
      rw [← hreport']
      exact ih report'

end Update

/-- The page after a short one is none; the one after any other begins behind its last key. -/
theorem next_page (seen todo : List String) {size : Nat} (hsize : 0 < size) :
    (if (todo.take size).length < size then none else (todo.take size).getLast?) = none ∧
        todo.drop size = [] ∨
      ∃ key, (if (todo.take size).length < size then none else (todo.take size).getLast?) = some key ∧
        (seen ++ todo.take size).getLast? = some key ∧ (todo.drop size).length < todo.length := by
  by_cases hshort : (todo.take size).length < size
  · refine .inl ⟨if_pos hshort, List.drop_eq_nil_iff.mpr ?_⟩
    rw [List.length_take] at hshort
    omega
  · obtain ⟨⟨key, hkey, hlast⟩, -⟩ := full_page seen hsize hshort
    refine .inr ⟨key, (if_neg hshort).trans hkey, hlast, ?_⟩
    rw [List.length_take] at hshort
    rw [List.length_drop]
    omega

/-- The rest of a pass is made, and sees every row that is to come. -/
private theorem passFrom_completes (hreadable : ∀ key ∈ keys, readable key) {pageSize : Nat}
    (hroom : FileStore.hasRoom (max pageSize 1) = true) (budget : Nat) {seen todo : List String}
    (report : Report ε) (hkeys : keys.filter (startsWith Rows.start) = seen ++ todo)
    (hbudget : todo.length < budget) :
    (passFrom decode pageSize budget seen.getLast? report).Completes (Work.Serves keys readable)
      Work.Request.Browses fun x =>
        ∃ report', x = .ok report' ∧ report'.scanned = report.scanned + todo.length := by
  induction budget generalizing seen todo report with
  | zero => exact absurd hbudget (Nat.not_lt_zero _)
  | succ budget ih =>
      have hsize : 0 < max pageSize 1 := Nat.lt_of_lt_of_le Nat.one_pos (Nat.le_max_right ..)
      refine (Rows.page_completes hreadable seen.getLast? hroom).onSuccess fun page hpage => ?_
      obtain ⟨hlength, hnext⟩ := hpage seen todo hkeys rfl
      refine (updateRows_completes decode (report.addPage page) page.records).bind
        fun report' hreport' => ?_
      have hscanned : report'.scanned = report.scanned + (todo.take (max pageSize 1)).length := by
        rw [hreport', ← hlength]
        rfl
      have hcount : (todo.take (max pageSize 1)).length + (todo.drop (max pageSize 1)).length =
          todo.length := by rw [← List.length_append, List.take_append_drop]
      -- a short page is the last one; after any other the pass goes on behind its last key
      rcases next_page seen todo hsize with ⟨hnone, hdrop⟩ | ⟨key, hsome, hlast, hless⟩
      · rw [hnext, hnone]
        rw [hdrop, List.length_nil, Nat.add_zero] at hcount
        exact ⟨report', rfl, hscanned.trans (congrArg _ hcount)⟩
      · rw [hnext, hsome]
        have hrest : (seen ++ todo.take (max pageSize 1)) ++ todo.drop (max pageSize 1) =
            seen ++ todo := by rw [List.append_assoc, List.take_append_drop]
        have hfrom := ih report' (hkeys.trans hrest.symm) (by omega)
        rwa [hlast, hscanned, Nat.add_assoc, hcount] at hfrom

/-- A pass is made, and sees every row. -/
theorem pass_completes (hreadable : ∀ key ∈ keys, readable key) {pageSize : Nat}
    (hroom : FileStore.hasRoom (max pageSize 1) = true)
    {budget : Nat} (hbudget : (keys.filter (startsWith Rows.start)).length < budget) :
    (pass decode pageSize budget).Completes (Work.Serves keys readable) Work.Request.Browses fun x =>
      ∃ report, x = .ok report ∧ report.scanned = (keys.filter (startsWith Rows.start)).length := by
  have hkeys : keys.filter (startsWith Rows.start) = [] ++ keys.filter (startsWith Rows.start) := rfl
  have hpass := passFrom_completes decode hreadable hroom budget .empty hkeys hbudget
  rwa [Report.empty, Nat.zero_add] at hpass

end Sweep

namespace Pager

/-- After a page with something on it fewer keys are to come. -/
theorem length_drop_lt {todo : List String} {size : Nat} (hsize : 0 < size)
    (h : ¬ (todo.take size).isEmpty = true) : (todo.drop size).length < todo.length := by
  have hne : todo ≠ [] := fun heq => h (by rw [heq, List.take_nil]; rfl)
  have hpos := List.length_pos_of_ne_nil hne
  rw [List.length_drop]
  omega

/-- All pages from a cursor on are the keys that come after it, if the budget lets there be so many. -/
theorem walk_completes {budget : Nat} {p : Pager} {seen todo : List String} (hsize : 0 < p.pageSize)
    (hroom : FileStore.hasRoom p.pageSize = true)
    (h : p.Stands (keys.filter (startsWith p.start)) seen todo) (hbudget : todo.length < budget) :
    (walk budget p).Completes (Work.Serves keys readable) Work.Request.Browses fun x =>
      ∃ pages, x = .ok pages ∧ pages.flatten = todo := by
  induction budget generalizing p seen todo with
  | zero => exact absurd hbudget (Nat.not_lt_zero _)
  | succ budget ih =>
      cases hfinished : p.finished with
      | true =>
          rw [walk_finished budget hfinished, h.ended hfinished]
          exact ⟨[], rfl, rfl⟩
      | false =>
          rw [walk_unfinished budget hfinished]
          have hscan : (Work.scan p.start p.cursor p.pageSize).Completes (Work.Serves keys readable)
              Work.Request.Browses fun x =>
                ∃ page : List String, x = .ok page ∧ page = todo.take p.pageSize := by
            refine Work.completes_call hroom fun x hx => ?_
            obtain ⟨page, rfl, -, hpage⟩ := hx
            exact ⟨page, rfl, hpage seen todo h.found (h.cursor hfinished)⟩
          refine hscan.onSuccess fun page hpage => ?_
          subst hpage
          by_cases hempty : (todo.take p.pageSize).isEmpty = true
          · rw [if_pos hempty]
            exact ⟨[], rfl, (eq_nil_of_take_isEmpty hsize hempty).symm⟩
          · rw [if_neg hempty]
            have hrest := Nat.lt_of_lt_of_le (length_drop_lt hsize hempty)
              (Nat.le_of_lt_succ hbudget)
            refine (ih (p := p.advance _) hsize hroom (h.advance hfinished) hrest).onSuccess
              fun pages hpages => ⟨_, rfl, ?_⟩
            rw [List.flatten_cons, hpages, List.take_append_drop]

end Pager

/-- A listing gives the identifiers of all markers. -/
theorem Markers.list_completes (m : Markers)
    (hroom : FileStore.hasRoom (max m.pageSize 1) = true) {budget : Nat}
    (hbudget : (keys.filter (startsWith m.start)).length < budget) :
    (m.list budget).Completes (Work.Serves keys readable) Work.Request.Browses fun x =>
      x = .ok ((keys.filter (startsWith m.start)).filterMap m.did?) := by
  have hsize : 0 < (Pager.at m.start m.pageSize).pageSize :=
    Nat.lt_of_lt_of_le Nat.one_pos (Nat.le_max_right ..)
  refine (Pager.walk_completes hsize hroom (Pager.stands_at ..) hbudget).onSuccess
    fun pages hpages => ?_
  rw [hpages]
  exact rfl

end Serves

end Upkeep
