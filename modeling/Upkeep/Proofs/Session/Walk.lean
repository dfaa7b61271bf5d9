import Upkeep.Proofs.Session.Settled
import Upkeep.Proofs.Store.Faults

/-!
How a pass walks through a store that may fail. Whatever the rows are and whatever is done about them,
the keys after the cursor are those that were there at first: a pass comes to every key once, page by
page, and is stopped only by a page that cannot be fetched. What holds of a pass is therefore shown
for one fetch and for one row.
-/

namespace Upkeep

open Store

namespace Rows

/-! Fetching a page. -/

def record? (row : String × Bytes) : Option Record := (Record.decode row.2).toOption

def corrupt? (row : String × Bytes) : Option (String × Json.Error) :=
  match Record.decode row.2 with
  | .error e => some (row.1, e)
  | .ok _ => none

theorem length_read (rows : List (String × Bytes)) :
    (rows.filterMap record?).length + (rows.filterMap corrupt?).length = rows.length := by
  induction rows with
  | nil => rfl
  | cons row rows ih =>
      cases hdecode : Record.decode row.2 <;>
        simp [record?, corrupt?, hdecode, Except.toOption] <;> omega

def reads (rows : List (String × Bytes)) : List Event :=
  rows.map fun row => ⟨.get row.1, .ok (some row.2)⟩

def fetched (after : Option String) (limit : Nat) (rows : List (String × Bytes)) : List Event :=
  ⟨.scan start after limit, .ok (rows.map Prod.fst)⟩ :: reads rows

inductive Broken : Error → List Event → Prop
  | scan (after : Option String) (limit : Nat) (error : Error) :
      Broken error [⟨.scan start after limit, .error error⟩]
  | read (after : Option String) (limit : Nat) (rows rest : List (String × Bytes))
      (row : String × Bytes) (error : Error) :
      Broken error (⟨.scan start after limit, .ok ((rows ++ row :: rest).map Prod.fst)⟩ ::
        (reads rows ++ [⟨.get row.1, .error error⟩]))

theorem Broken.error_mem {error : Error} {log : List Event} (h : Broken error log) :
    ∃ e ∈ log, e.error? ≠ none := by
  cases h with
  | scan after limit => exact ⟨_, List.mem_singleton_self _, fun h => nomatch h⟩
  | read after limit rows rest row =>
      exact ⟨⟨.get row.1, .error error⟩, by simp, fun h => nomatch h⟩

section Fetch

variable (faults : Faults) (elsewhere : (r : Work.Request) → r.Reply)

private theorem run_read {rows : List (String × Bytes)} {s : Logged}
    (h : ∀ row ∈ rows, s.memory.get? row.1 = some row.2) :
    (read (rows.map Prod.fst)).run (Logged.failing faults elsewhere) s =
        (some (.ok (rows.filterMap record?, rows.filterMap corrupt?)),
          ⟨s.memory, s.log ++ reads rows⟩) ∨
      ∃ before row rest error, rows = before ++ row :: rest ∧
        (read (rows.map Prod.fst)).run (Logged.failing faults elsewhere) s =
          (some (.error (.store error)),
            ⟨s.memory, s.log ++ (reads before ++ [⟨.get row.1, .error error⟩])⟩) := by
  induction rows generalizing s with
  | nil => exact .inl (by simp [read, reads, Work.ok])
  | cons row rows ih =>
      rw [List.map_cons, read, Program.run_onSuccess, Logged.run_get]
      cases faults s.log (.get row.1) with
      | some error => exact .inr ⟨[], row, rows, error, rfl, rfl⟩
      | none =>
          have hanswer : s.answer (.get row.1) =
              ⟨s.memory, s.log ++ [⟨.get row.1, .ok (some row.2)⟩]⟩ := by
            rw [Logged.answer, Memory.answer, h row List.mem_cons_self]
          rw [h row List.mem_cons_self, hanswer]
          dsimp only
          rw [Program.run_onSuccess]
          rcases ih (s := ⟨s.memory, s.log ++ [⟨.get row.1, .ok (some row.2)⟩]⟩)
            (fun r hr => h r (List.mem_cons_of_mem _ hr)) with
            hrun | ⟨before, row', rest, error, rfl, hrun⟩
          · left
            rw [hrun]
            cases hdecode : Record.decode row.2 <;>
              simp [record?, corrupt?, reads, hdecode, Except.toOption, Work.ok]
          · refine .inr ⟨row :: before, row', rest, error, rfl, ?_⟩
            rw [hrun]
            simp [reads]

section SetExpiry

variable {s : Logged} {d : Did} (b : Blob) (t : UInt64)
  (hget : faults s.log (.get (key d)) = none)

include hget

private theorem run_setExpiry_held {bs : Bytes} {r : Record} (hheld : s.memory.get? (key d) = some bs)
    (hdecode : Record.decode bs = .ok r) (hsame : r.blob = b) :
    (setExpiry d b t).run (Logged.failing faults elsewhere) s =
      let write := .compareAndPut (key d) bs { r with expiresAt := some t : Record }.encode
      match faults (s.answer (.get (key d))).log write with
      | some error => (some (.error (.store error)), (s.answer (.get (key d))).refuse write error)
      | none => (some (.ok true), (s.answer (.get (key d))).answer write) := by
  have hdone : (Memory.compareAndPut (s.answer (.get (key d))).memory (key d) bs
      { r with expiresAt := some t : Record }.encode).1 = true := by
    rw [Memory.compareAndPut]
    exact congrArg Prod.fst (if_pos hheld)
  rw [setExpiry, Program.run_onSuccess, Logged.run_get, hget, hheld]
  dsimp only
  rw [hdecode]
  dsimp only
  rw [if_pos hsame, ← hdone]
  exact Logged.run_compareAndPut faults elsewhere _ _ _ _

private theorem run_setExpiry_astray
    (hheld : ∀ bs r, s.memory.get? (key d) = some bs → Record.decode bs = .ok r → r.blob ≠ b) :
    ∃ x, (setExpiry d b t).run (Logged.failing faults elsewhere) s =
        (some x, s.answer (.get (key d))) ∧ (x = .ok false ∨ ∃ e, x = .error (.json e)) := by
  rw [setExpiry, Program.run_onSuccess, Logged.run_get, hget]
  cases hrow : s.memory.get? (key d) with
  | none => exact ⟨_, rfl, .inl rfl⟩
  | some bs =>
      dsimp only
      cases hdecode : Record.decode bs with
      | error e => exact ⟨_, rfl, .inr ⟨e, rfl⟩⟩
      | ok r =>
          dsimp only
          rw [if_neg (hheld bs r hrow hdecode)]
          exact ⟨_, rfl, .inl rfl⟩

end SetExpiry

variable {s : Logged} (hm : Table.Ascending s.memory)

include hm

/-- A page has the next rows, or its fetch is cut short; the store stays as it is. -/
theorem run_page {seen todo : List String} (hkeys : (ofStore s.memory).map Prod.fst = seen ++ todo)
    (pageSize : Nat) :
    (∃ rows : List (String × Bytes), rows.map Prod.fst = todo.take (max pageSize 1) ∧
      (∀ row ∈ rows, s.memory.get? row.1 = some row.2) ∧
      (page seen.getLast? pageSize).run (Logged.failing faults elsewhere) s =
        (some (.ok ⟨rows.filterMap record?, rows.filterMap corrupt?,
          if rows.length < max pageSize 1 then none else (rows.map Prod.fst).getLast?⟩),
          ⟨s.memory, s.log ++ fetched seen.getLast? (max pageSize 1) rows⟩)) ∨
    ∃ error log, Broken error log ∧
      (page seen.getLast? pageSize).run (Logged.failing faults elsewhere) s =
        (some (.error (.store error)), ⟨s.memory, s.log ++ log⟩) := by
  rw [page, Program.run_onSuccess, Logged.run_scan]
  cases faults s.log (.scan start seen.getLast? (max pageSize 1)) with
  | some error => exact .inr ⟨error, _, .scan _ _ error, rfl⟩
  | none =>
      have htodo : todo = ((ofStore s.memory).drop seen.length).map Prod.fst := by
        rw [List.map_drop, hkeys, List.drop_left]
      have htake : todo.take (max pageSize 1) =
          (((ofStore s.memory).drop seen.length).take (max pageSize 1)).map Prod.fst := by
        rw [List.map_take, ← htodo]
      have hheld : ∀ row ∈ ((ofStore s.memory).drop seen.length).take (max pageSize 1),
          s.memory.get? row.1 = some row.2 := fun row hrow =>
        Table.get?_of_mem hm (mem_of_ofStore (List.mem_of_mem_drop (List.mem_of_mem_take hrow)))
      rw [Logged.answer, Memory.answer,
          Memory.scan_rest hm ((keys_ofStore s.memory).symm.trans hkeys), htake]
      generalize ((ofStore s.memory).drop seen.length).take (max pageSize 1) = rows at hheld ⊢
      dsimp only
      rw [Program.run_onSuccess]
      rcases run_read faults elsewhere (s := ⟨s.memory, s.log ++
          [⟨.scan start seen.getLast? (max pageSize 1), .ok (rows.map Prod.fst)⟩]⟩) hheld with
        hrun | ⟨before, row, rest, error, rfl, hrun⟩
      · refine .inl ⟨rows, rfl, hheld, ?_⟩
        rw [hrun]
        simp [fetched, Work.ok]
      · refine .inr ⟨error, _, .read seen.getLast? (max pageSize 1) before rest row error, ?_⟩
        rw [hrun]
        simp

end Fetch

end Rows

namespace Sweep

variable {ε : Type}

/-! Updating a row. -/

/-- What can become of a row that was read: the report and the store after it. -/
inductive Outcome (decode : Decoder ε) (faults : Faults) (r : Record) (report : Report ε)
    (s : Logged) : Report ε → Logged → Prop
  | undecodable {e : ε} (hblob : decode r.blob = .error e) :
      Outcome decode faults r report s (report.addFailed (Rows.key r.did) (.undecodable e)) s
  | current {t : UInt64} (hblob : decode r.blob = .ok t) (hexpiry : r.expiresAt = some t) :
      Outcome decode faults r report s report s
  | unread {t : UInt64} {error : Error} (hblob : decode r.blob = .ok t)
      (hexpiry : r.expiresAt ≠ some t) (hfault : faults s.log (.get (Rows.key r.did)) = some error) :
      Outcome decode faults r report s
        (report.addFailed (Rows.key r.did) (.unwritten (.store error)))
        (s.refuse (.get (Rows.key r.did)) error)
  /-- The identifier has no row that can be read and holds the blob. -/
  | astray {t : UInt64} {report' : Report ε} (hblob : decode r.blob = .ok t)
      (hexpiry : r.expiresAt ≠ some t)
      (hheld : ∀ bs r', s.memory.get? (Rows.key r.did) = some bs → Record.decode bs = .ok r' →
        r'.blob ≠ r.blob)
      (hreport : report' = report ∨
        ∃ e, report' = report.addFailed (Rows.key r.did) (.unwritten (.json e))) :
      Outcome decode faults r report s report' (s.answer (.get (Rows.key r.did)))
  | unwritten {t : UInt64} {bs bs' : Bytes} {error : Error} (hblob : decode r.blob = .ok t)
      (hexpiry : r.expiresAt ≠ some t)
      (hfault : faults (s.answer (.get (Rows.key r.did))).log
        (.compareAndPut (Rows.key r.did) bs bs') = some error) :
      Outcome decode faults r report s
        (report.addFailed (Rows.key r.did) (.unwritten (.store error)))
        ((s.answer (.get (Rows.key r.did))).refuse (.compareAndPut (Rows.key r.did) bs bs') error)
  | written {t : UInt64} {bs : Bytes} {r' : Record} (hblob : decode r.blob = .ok t)
      (hexpiry : r.expiresAt ≠ some t) (hheld : s.memory.get? (Rows.key r.did) = some bs)
      (hdecode : Record.decode bs = .ok r') (hsame : r'.blob = r.blob) :
      Outcome decode faults r report s report.addUpdated
        ((s.answer (.get (Rows.key r.did))).answer (.compareAndPut (Rows.key r.did) bs
          { r' with expiresAt := some t : Record }.encode))

variable (decode : Decoder ε) (faults : Faults) (elsewhere : (r : Work.Request) → r.Reply)

theorem updateRow_outcome (r : Record) (report : Report ε) (s : Logged) :
    ∃ after s', (updateRow decode report r).run (Logged.failing faults elsewhere) s =
        (some after, s') ∧ Outcome decode faults r report s after s' := by
  unfold updateRow
  cases hblob : decode r.blob with
  | error e => exact ⟨_, _, rfl, .undecodable hblob⟩
  | ok t =>
      dsimp only
      by_cases hexpiry : r.expiresAt = some t
      · rw [if_pos hexpiry]
        exact ⟨_, _, rfl, .current hblob hexpiry⟩
      rw [if_neg hexpiry, Program.run_bind]
      cases hget : faults s.log (.get (Rows.key r.did)) with
      | some error =>
          rw [Rows.setExpiry, Program.run_onSuccess, Logged.run_get, hget]
          exact ⟨_, _, rfl, .unread hblob hexpiry hget⟩
      | none =>
          by_cases hrow : ∃ bs r', s.memory.get? (Rows.key r.did) = some bs ∧
            Record.decode bs = .ok r' ∧ r'.blob = r.blob
          · obtain ⟨bs, r', hheld, hdecode, hsame⟩ := hrow
            rw [Rows.run_setExpiry_held faults elsewhere r.blob t hget hheld hdecode hsame]
            dsimp only
            cases hput : faults (s.answer (.get (Rows.key r.did))).log (.compareAndPut
              (Rows.key r.did) bs { r' with expiresAt := some t : Record }.encode) with
            | some error => exact ⟨_, _, rfl, .unwritten hblob hexpiry hput⟩
            | none => exact ⟨_, _, rfl, .written hblob hexpiry hheld hdecode hsame⟩
          · have hheld : ∀ bs r', s.memory.get? (Rows.key r.did) = some bs →
                Record.decode bs = .ok r' → r'.blob ≠ r.blob :=
              fun bs r' hheld hdecode hsame => hrow ⟨bs, r', hheld, hdecode, hsame⟩
            obtain ⟨x, hrun, hx⟩ := Rows.run_setExpiry_astray faults elsewhere r.blob t hget hheld
            rw [hrun]
            rcases hx with rfl | ⟨e, rfl⟩
            · exact ⟨_, _, rfl, .astray hblob hexpiry hheld (.inl rfl)⟩
            · exact ⟨_, _, rfl, .astray hblob hexpiry hheld (.inr ⟨e, rfl⟩)⟩

/-! The walk. -/

/-- What may hold on the way, of the keys that were seen, the rows left of the page, the keys to come,
the report and the store. -/
abbrev Stage (ε : Type) :=
  List String → List (String × Bytes) → List String → Report ε → Logged → Prop

/-- A stage that is kept by every fetch and by every row. -/
structure Invariant (inv : Stage ε) : Prop where
  keys {seen todo : List String} {report : Report ε} {s : Logged} (h : inv seen [] todo report s) :
    Table.Ascending s.memory ∧ (Rows.ofStore s.memory).map Prod.fst = seen ++ todo
  fetch {seen todo : List String} {rows : List (String × Bytes)} {report : Report ε} {s : Logged}
    (h : inv seen [] (rows.map Prod.fst ++ todo) report s)
    (hheld : ∀ row ∈ rows, s.memory.get? row.1 = some row.2) (after : Option String) (limit : Nat)
    (next : Option String) :
    inv seen rows todo
      (report.addPage ⟨rows.filterMap Rows.record?, rows.filterMap Rows.corrupt?, next⟩)
      ⟨s.memory, s.log ++ Rows.fetched after limit rows⟩
  skip {seen todo : List String} {row : String × Bytes} {rows : List (String × Bytes)}
    {report : Report ε} {s : Logged} (h : inv seen (row :: rows) todo report s) {e : Json.Error}
    (hrow : Record.decode row.2 = .error e) : inv (seen ++ [row.1]) rows todo report s
  update {seen todo : List String} {row : String × Bytes} {rows : List (String × Bytes)}
    {report : Report ε} {s : Logged} (h : inv seen (row :: rows) todo report s) {r : Record}
    (hrow : Record.decode row.2 = .ok r) {report' : Report ε} {s' : Logged}
    (hout : Outcome decode faults r report s report' s') : inv (seen ++ [row.1]) rows todo report' s'

/-- How a walk over some keys ends: it comes to all of them, a fetch is cut short, or its budget is
not enough. -/
inductive Ends (inv : Stage ε) (keys : List String) (enough : Prop) :
    Option (Except Failure (Report ε)) × Logged → Prop
  | complete {report : Report ε} {s : Logged} (h : inv keys [] [] report s) :
      Ends inv keys enough (some (.ok report), s)
  | broken {seen todo : List String} {report : Report ε} {s : Logged} {error : Error}
      {log : List Event} (h : inv seen [] todo report s) (hlog : Rows.Broken error log) :
      Ends inv keys enough (some (.error (.store error)), ⟨s.memory, s.log ++ log⟩)
  | abandoned {seen todo : List String} {report : Report ε} {s : Logged}
      (h : inv seen [] todo report s) (hbudget : ¬ enough) : Ends inv keys enough (none, s)

theorem Ends.mono {inv : Stage ε} {keys : List String} {enough enough' : Prop}
    {ending : Option (Except Failure (Report ε)) × Logged} (h : Ends inv keys enough ending)
    (henough : enough' → enough) : Ends inv keys enough' ending := by
  cases h with
  | complete h => exact .complete h
  | broken h hlog => exact .broken h hlog
  | abandoned h hbudget => exact .abandoned h fun h' => hbudget (henough h')

/-- A page that is not short ends with the key after which the next page begins, and leaves fewer
full pages. -/
theorem full_page (seen : List String) {todo : List String} {size : Nat}
    (hsize : 0 < size) (hfull : ¬ (todo.take size).length < size) :
    (∃ key, (todo.take size).getLast? = some key ∧
      (seen ++ todo.take size).getLast? = some key) ∧
    (todo.drop size).length / size + 1 = todo.length / size := by
  have hle : size ≤ todo.length := by
    rw [List.length_take] at hfull
    omega
  constructor
  · obtain ⟨key, hkey⟩ : ∃ key, (todo.take size).getLast? = some key :=
      Option.isSome_iff_exists.mp <| List.getLast?_isSome.mpr fun h => by
        rw [h, List.length_nil] at hfull
        exact hfull hsize
    refine ⟨key, hkey, ?_⟩
    rw [List.getLast?_append, hkey, Option.some_or]
  · rw [List.length_drop]
    exact (Nat.div_eq_sub_div hsize hle).symm

section Walk

variable {decode faults} {inv : Stage ε} (hinv : Invariant decode faults inv)

include hinv

private theorem run_updateRows {seen todo : List String} {rows : List (String × Bytes)}
    {report : Report ε} {s : Logged} (h : inv seen rows todo report s) :
    ∃ after s', (updateRows decode report (rows.filterMap Rows.record?)).run
        (Logged.failing faults elsewhere) s = (some after, s') ∧
      inv (seen ++ rows.map Prod.fst) [] todo after s' := by
  induction rows generalizing seen report s with
  | nil => exact ⟨report, s, rfl, (List.append_nil seen).symm ▸ h⟩
  | cons row rows ih =>
      rw [List.map_cons, List.append_cons]
      cases hrow : Record.decode row.2 with
      | error e =>
          have hnone : Rows.record? row = none := by rw [Rows.record?, hrow]; rfl
          rw [List.filterMap_cons_none hnone]
          exact ih (hinv.skip h hrow)
      | ok r =>
          have hsome : Rows.record? row = some r := by rw [Rows.record?, hrow]; rfl
          obtain ⟨report', s', hrun, hout⟩ := updateRow_outcome decode faults elsewhere r report s
          rw [List.filterMap_cons_some hsome, updateRows, Program.run_bind, hrun]
          exact ih (hinv.update h hrow hout)

/-- A walk needs one page for each full page of the keys to come, and one more. -/
theorem Invariant.passFrom (pageSize budget : Nat) {seen todo : List String} {report : Report ε}
    {s : Logged} (h : inv seen [] todo report s) :
    Ends inv (seen ++ todo) (todo.length / max pageSize 1 < budget)
      ((passFrom decode pageSize budget seen.getLast? report).run
        (Logged.failing faults elsewhere) s) := by
  -- by induction on the pages that may still be read: the cursor stands at the last key seen
  induction budget generalizing seen todo report s with
  | zero => exact .abandoned h (Nat.not_lt_zero _)
  | succ budget ih =>
      obtain ⟨hm, hkeys⟩ := hinv.keys h
      rw [Sweep.passFrom, Program.run_onSuccess]
      rcases Rows.run_page faults elsewhere hm hkeys pageSize with
        ⟨rows, hrows, hheld, hpage⟩ | ⟨error, log, hlog, hpage⟩
      · rw [hpage]
        dsimp only
        have hsplit : todo = rows.map Prod.fst ++ todo.drop (max pageSize 1) := by
          rw [hrows, List.take_append_drop]
        rw [hsplit] at h
        obtain ⟨mid, s', hrun, hmid⟩ := run_updateRows elsewhere hinv
          (hinv.fetch h hheld seen.getLast? (max pageSize 1) (if rows.length < max pageSize 1 then none
            else (rows.map Prod.fst).getLast?))
        rw [Program.run_bind, hrun]
        dsimp only
        by_cases hshort : rows.length < max pageSize 1
        · have hall : rows.map Prod.fst = todo := by
            refine hrows.trans (List.take_of_length_le ?_)
            rw [← List.length_map Prod.fst, hrows, List.length_take] at hshort
            omega
          have hdrop : todo.drop (max pageSize 1) = [] := by
            refine List.drop_of_length_le ?_
            rw [← List.length_map Prod.fst, hrows, List.length_take] at hshort
            omega
          rw [if_pos hshort]
          rw [hall, hdrop] at hmid
          exact .complete hmid
        · rw [if_neg hshort]
          rw [← List.length_map Prod.fst, hrows] at hshort
          obtain ⟨⟨key, hkey, hcursor⟩, hpages⟩ :=
            full_page seen (Nat.lt_of_lt_of_le Nat.one_pos (Nat.le_max_right pageSize 1)) hshort
          rw [hrows, hkey]
          rw [hrows] at hmid
          have hrest := ih hmid
          rw [hcursor, List.append_assoc, List.take_append_drop] at hrest
          exact hrest.mono fun hbudget => by omega
      · rw [hpage]
        exact .broken h hlog

end Walk

/-- A pass over a store that refuses nothing comes to its end. -/
theorem Invariant.pass {decode : Decoder ε} {inv : Stage ε} (hinv : Invariant decode .none inv)
    {m : Memory}
    (h : inv [] [] ((Rows.ofStore m).map Prod.fst) .empty ⟨m, []⟩) (pageSize : Nat) {budget : Nat}
    (hbudget : (Rows.ofStore m).length / max pageSize 1 < budget) :
    ∃ report s, (pass decode pageSize budget).run (Logged.failing .none elsewhere) ⟨m, []⟩ =
        (some (.ok report), s) ∧ inv ((Rows.ofStore m).map Prod.fst) [] [] report s := by
  have hends : Ends inv ((Rows.ofStore m).map Prod.fst)
      (((Rows.ofStore m).map Prod.fst).length / max pageSize 1 < budget)
      ((Sweep.passFrom decode pageSize budget none .empty).run
        (Logged.failing .none elsewhere) ⟨m, []⟩) :=
    hinv.passFrom elsewhere pageSize budget h
  have hok := Logged.error?_of_none elsewhere (Sweep.pass decode pageSize budget) (s := ⟨m, []⟩)
    (fun e he => nomatch he)
  rw [Sweep.pass] at hok ⊢
  generalize (Sweep.passFrom decode pageSize budget none .empty).run
    (Logged.failing .none elsewhere) ⟨m, []⟩ = ending at hends hok ⊢
  cases hends with
  | complete h => exact ⟨_, _, rfl, h⟩
  | broken _ hlog =>
      obtain ⟨e, he, herror⟩ := hlog.error_mem
      exact absurd (hok e (List.mem_append_right _ he)) herror
  | abandoned _ hshort => exact absurd (by rwa [List.length_map]) hshort

end Sweep

end Upkeep
