import Upkeep.Proofs.Session.Walk
import Upkeep.Proofs.Store.Memory
import Upkeep.Store.Interference

/-!
Passes over a store that fails. A fault in the fetch of a page ends the pass; a fault in the update of
a row is reported of that row, which keeps its bytes, and touches no other. Whatever became of earlier
passes, one that meets no fault leaves the store as it would have as the first of them.
-/

namespace Upkeep.Sweep

open Store

/-! The calls of a pass. -/

def owed (left : Nat) (e : Event) : Nat :=
  match e with
  | ⟨.scan .., .ok (keys : List String)⟩ => keys.length
  | _ => left - 1

def fetches (left : Nat) (e : Event) : Bool :=
  match e.call with
  | .scan .. => true
  | _ => decide (0 < left)

def callsThat (fetching : Bool) (left : Nat) : List Event → List Event
  | [] => []
  | e :: log =>
    if fetches left e = fetching then e :: callsThat fetching (owed left e) log
    else callsThat fetching (owed left e) log

def refusals (log : List Event) : List (String × Error) :=
  (callsThat false 0 log).filterMap fun e => e.error?.map fun error => (e.call.subject, error)

theorem callsThat_append (fetching : Bool) (left : Nat) (before after : List Event) :
    callsThat fetching left (before ++ after) =
      callsThat fetching left before ++ callsThat fetching (before.foldl owed left) after := by
  induction before generalizing left with
  | nil => rfl
  | cons e before ih =>
      rw [List.cons_append, callsThat, callsThat, ih]
      split <;> rfl

theorem mem_of_callsThat {fetching : Bool} {left : Nat} {log : List Event} {e : Event}
    (h : e ∈ callsThat fetching left log) : e ∈ log := by
  induction log generalizing left with
  | nil => cases h
  | cons e' log ih =>
      rw [callsThat] at h
      split at h
      next =>
        rcases List.mem_cons.mp h with rfl | h
        · exact List.mem_cons_self
        · exact List.mem_cons_of_mem _ (ih h)
      next => exact List.mem_cons_of_mem _ (ih h)

private theorem reads_fetch (rows : List (String × Bytes)) (left : Nat) :
    callsThat true (rows.length + left) (Rows.reads rows) = Rows.reads rows ∧
      callsThat false (rows.length + left) (Rows.reads rows) = [] ∧
      (Rows.reads rows).foldl owed (rows.length + left) = left := by
  induction rows generalizing left with
  | nil => exact ⟨rfl, rfl, Nat.zero_add left⟩
  | cons row rows ih =>
      have hfetches : fetches ((row :: rows).length + left) ⟨.get row.1, .ok (some row.2)⟩ = true :=
        decide_eq_true (by rw [List.length_cons]; omega)
      have howed : owed ((row :: rows).length + left) ⟨.get row.1, .ok (some row.2)⟩ =
          rows.length + left := by
        change (row :: rows).length + left - 1 = _
        rw [List.length_cons]
        omega
      obtain ⟨htrue, hfalse, hleft⟩ := ih left
      rw [Rows.reads, List.map_cons, callsThat, callsThat, List.foldl_cons, hfetches, howed]
      exact ⟨by rw [if_pos rfl]; exact congrArg _ htrue, by rw [if_neg (by decide)]; exact hfalse,
        hleft⟩

private theorem fetched_fetch (after : Option String) (limit : Nat) (rows : List (String × Bytes)) :
    callsThat true 0 (Rows.fetched after limit rows) = Rows.fetched after limit rows ∧
      callsThat false 0 (Rows.fetched after limit rows) = [] ∧
      (Rows.fetched after limit rows).foldl owed 0 = 0 := by
  obtain ⟨htrue, hfalse, hleft⟩ := reads_fetch rows 0
  have howed : owed 0 ⟨.scan Rows.start after limit, .ok (rows.map Prod.fst)⟩ = rows.length + 0 :=
    List.length_map Prod.fst
  rw [Rows.fetched, callsThat, callsThat, List.foldl_cons, howed]
  exact ⟨congrArg (List.cons _) htrue, hfalse, hleft⟩

private theorem broken_fetch {error : Error} {log : List Event} (h : Rows.Broken error log) :
    ∃ e ∈ callsThat true 0 log, e.error? ≠ none := by
  cases h with
  | scan after limit => exact ⟨_, List.mem_singleton_self _, fun h => nomatch h⟩
  | read after limit rows rest row =>
      obtain ⟨htrue, -, hleft⟩ := reads_fetch rows (row :: rest).length
      have howed : owed 0 ⟨.scan Rows.start after limit, .ok ((rows ++ row :: rest).map Prod.fst)⟩ =
          rows.length + (row :: rest).length :=
        (List.length_map Prod.fst).trans List.length_append
      refine ⟨⟨.get row.1, .error error⟩, ?_, fun h => nomatch h⟩
      rw [callsThat, howed, callsThat_append, hleft]
      exact List.mem_cons_of_mem _ (List.mem_append_right _ List.mem_cons_self)

/-- A log after which no read of a page is to come: no fetch has failed, and the updates of some rows
were refused. -/
structure Quiet (log : List Event) (refused : List (String × Error)) : Prop where
  fetched : ∀ e ∈ callsThat true 0 log, e.error? = none
  owed : log.foldl owed 0 = 0
  refused : refusals log = refused

namespace Quiet

variable {log : List Event} {refused : List (String × Error)}

private theorem nil : Quiet [] [] := ⟨fun _ h => (nomatch h), rfl, rfl⟩

private theorem fetch (h : Quiet log refused) (after : Option String) (limit : Nat)
    (rows : List (String × Bytes)) : Quiet (log ++ Rows.fetched after limit rows) refused := by
  obtain ⟨htrue, hfalse, hleft⟩ := fetched_fetch after limit rows
  constructor
  · intro e he
    rw [callsThat_append, h.owed, htrue] at he
    rcases List.mem_append.mp he with he | he
    · exact h.fetched e he
    · rcases List.mem_cons.mp he with rfl | he
      · rfl
      · obtain ⟨row, -, rfl⟩ := List.mem_map.mp he
        rfl
  · rw [List.foldl_append, h.owed, hleft]
  · rw [refusals, callsThat_append, h.owed, hfalse, List.append_nil]
    exact h.refused

/-- A call about a row. -/
private theorem row (h : Quiet log refused) {e : Event} (he : fetches 0 e = false) :
    Quiet (log ++ [e])
      (refused ++ (e.error?.map fun error => (e.call.subject, error)).toList) := by
  have howed : Sweep.owed 0 e = 0 := by
    obtain ⟨c, x⟩ := e
    cases c with
    | scan => cases he
    | _ => rfl
  constructor
  · intro e' he'
    rw [callsThat_append, h.owed, callsThat, if_neg (by rw [he]; decide), callsThat,
      List.append_nil] at he'
    exact h.fetched e' he'
  · rw [List.foldl_append, h.owed]
    exact howed
  · rw [refusals, callsThat_append, h.owed, callsThat, if_pos he, callsThat, List.filterMap_append,
      List.filterMap_cons, List.filterMap_nil, ← h.refused, refusals]
    cases e.error? <;> rfl

end Quiet

variable {ε : Type}

/-! A pass under way. -/

def early? (row : String × Bytes) : Option (String × Cause ε) :=
  (Rows.corrupt? row).map fun p => (p.1, .unreadable p.2)

def unwritten (p : String × Error) : String × Cause ε := (p.1, .unwritten (.store p.2))

/-- Of the rows seen, some are `gone` and are as a pass leaves them, and those that were `refused` an
update are as they were. -/
structure UnderWay (decode : Decoder ε) (m : Memory) (seen page : List (String × Bytes))
    (gone : List String) (refused : List (String × Error)) (report : Report ε) (s : Logged) : Prop where
  memory : s.memory = settleOn decode gone m
  split : (gone ++ refused.map Prod.fst).Perm (seen.map Prod.fst)
  quiet : Quiet s.log refused
  outdated : ∀ row ∈ seen, row.1 ∈ refused.map Prod.fst → isOutdated decode row = true
  scanned : report.scanned = seen.length + page.length
  updated : report.updated + refused.length = seen.countP (isOutdated decode)
  failed : report.failed.Perm
    (seen.filterMap (failure? decode) ++ (page.filterMap early? ++ refused.map unwritten))

private theorem silent_of_isOutdated {decode : Decoder ε} {row : String × Bytes}
    (h : isOutdated decode row = true) :
    failure? decode row = none ∧ @early? ε row = none := by
  rw [failure?, early?, Rows.corrupt?]
  rw [isOutdated] at h
  cases hdecode : Record.decode row.2 with
  | error e =>
      rw [examine, hdecode] at h
      cases h
  | ok r =>
      cases hfound : examine decode row.2 with
      | outdated r expiry => exact ⟨rfl, rfl⟩
      | failed | current =>
          rw [hfound] at h
          cases h

private theorem key_of_failure? {decode : Decoder ε} {row : String × Bytes} {p : String × Cause ε}
    (h : failure? decode row = some p) : p.1 = row.1 := by
  obtain ⟨c, -, rfl⟩ := Option.map_eq_some_iff.mp h
  rfl

private theorem filterMap_cons_toList {α β : Type} (f : α → Option β) (a : α) (l : List α) :
    (a :: l).filterMap f = (f a).toList ++ l.filterMap f := by
  rw [List.filterMap_cons]
  cases f a <;> rfl

private theorem perm_swap_ends {α : Type} (a b c : List α) :
    (a ++ (b ++ c)).Perm (c ++ (b ++ a)) := by
  refine List.perm_append_comm.trans ?_
  rw [← List.append_assoc]
  exact List.perm_append_comm.append_right a

namespace UnderWay

variable {decode : Decoder ε} {m : Memory} {seen page : List (String × Bytes)}
  {gone : List String} {refused : List (String × Error)} {report report' : Report ε} {s s' : Logged}

private theorem start (decode : Decoder ε) (m : Memory) :
    UnderWay decode m [] [] [] [] .empty ⟨m, []⟩ where
  memory := (settleOn_nil decode).symm
  split := .refl _
  quiet := .nil
  outdated := fun _ h => nomatch h
  scanned := rfl
  updated := rfl
  failed := .refl _

private theorem fetch (h : UnderWay decode m seen [] gone refused report s)
    (rows : List (String × Bytes)) (after : Option String) (limit : Nat) (next : Option String) :
    UnderWay decode m seen rows gone refused
      (report.addPage ⟨rows.filterMap Rows.record?, rows.filterMap Rows.corrupt?, next⟩)
      ⟨s.memory, s.log ++ Rows.fetched after limit rows⟩ where
  memory := h.memory
  split := h.split
  quiet := h.quiet.fetch after limit rows
  outdated := h.outdated
  scanned := by
    rw [Report.addPage, h.scanned, Rows.length_read]
    rfl
  updated := h.updated
  failed := by
    have hearly : (rows.filterMap Rows.corrupt?).map (fun p => (p.1, Cause.unreadable p.2)) =
        rows.filterMap (@early? ε) := List.map_filterMap
    refine (h.failed.append_right _).trans ?_
    rw [List.filterMap_nil, List.nil_append, List.append_assoc, hearly]
    exact List.perm_append_comm.append_left _

/-- A row is gone through, and what was found of it is reported. -/
private theorem step_settled {row : String × Bytes}
    (h : UnderWay decode m seen (row :: page) gone refused report s)
    (hnew : row.1 ∉ seen.map Prod.fst)
    (hmemory : s'.memory = settleOn decode (gone ++ [row.1]) m) (hquiet : Quiet s'.log refused)
    (hscanned : report'.scanned = report.scanned)
    (hupdated : report'.updated = report.updated + (isOutdated decode row).toNat)
    (hfailed : report'.failed ++ (early? row).toList =
      report.failed ++ (failure? decode row).toList) :
    UnderWay decode m (seen ++ [row]) page (gone ++ [row.1]) refused report' s' where
  memory := hmemory
  split := by
    rw [List.map_append, List.append_assoc]
    refine (List.perm_append_comm.append_left gone).trans ?_
    rw [← List.append_assoc]
    exact h.split.append_right _
  quiet := hquiet
  outdated := fun row' hrow' hrefused => by
    rcases List.mem_append.mp hrow' with hrow' | hrow'
    · exact h.outdated row' hrow' hrefused
    · rw [List.mem_singleton.mp hrow'] at hrefused
      exact absurd (h.split.subset (List.mem_append_right _ hrefused)) hnew
  scanned := by
    rw [hscanned, h.scanned, List.length_append, List.length_cons, List.length_singleton]
    omega
  updated := by
    rw [hupdated, List.countP_append, List.countP_singleton, ← h.updated]
    cases isOutdated decode row
    · simp
    · simp only [Bool.toNat_true, if_true]
      omega
  failed := by
    refine (List.perm_append_right_iff (early? row).toList).mp ?_
    rw [hfailed]
    refine (h.failed.append_right _).trans ?_
    rw [List.filterMap_append, filterMap_cons_toList, filterMap_cons_toList, List.filterMap_nil]
    simp only [List.append_assoc, List.append_nil]
    rw [← List.append_assoc (page.filterMap early?), ← List.append_assoc (page.filterMap early?)]
    exact (perm_swap_ends _ _ _).append_left _

/-- The update of a row is refused. -/
private theorem step_refused {row : String × Bytes} {error : Error}
    (h : UnderWay decode m seen (row :: page) gone refused report s)
    (hnew : row.1 ∉ seen.map Prod.fst) (hrow : isOutdated decode row = true)
    (hmemory : s'.memory = s.memory) (hquiet : Quiet s'.log (refused ++ [(row.1, error)])) :
    UnderWay decode m (seen ++ [row]) page gone (refused ++ [(row.1, error)])
      (report.addFailed row.1 (.unwritten (.store error))) s' where
  memory := hmemory.trans h.memory
  split := by
    rw [List.map_append, List.map_append, ← List.append_assoc]
    exact h.split.append_right _
  quiet := hquiet
  outdated := fun row' hrow' hrefused => by
    rcases List.mem_append.mp hrow' with hrow' | hrow'
    · rw [List.map_append] at hrefused
      rcases List.mem_append.mp hrefused with hrefused | hrefused
      · exact h.outdated row' hrow' hrefused
      · exact absurd (List.mem_singleton.mp hrefused ▸ List.mem_map_of_mem hrow') hnew
    · rw [List.mem_singleton.mp hrow', hrow]
  scanned := by
    rw [Report.addFailed, h.scanned, List.length_append, List.length_cons, List.length_singleton]
    omega
  updated := by
    rw [List.countP_append, List.countP_singleton, if_pos hrow, ← h.updated, List.length_append,
      List.length_singleton, ← Nat.add_assoc]
    rfl
  failed := by
    obtain ⟨hfailure, hearly⟩ := silent_of_isOutdated hrow
    have hfailed := h.failed.append_right [unwritten (row.1, error)]
    rw [List.filterMap_cons_none hearly] at hfailed
    rw [List.filterMap_append, List.filterMap_cons_none hfailure, List.filterMap_nil, List.append_nil,
      List.map_append, List.map_singleton, ← List.append_assoc, ← List.append_assoc]
    rwa [← List.append_assoc] at hfailed

end UnderWay

/-- The rows seen and those to come are those of a store that a pass under way was begun on. -/
private def Begun (decode : Decoder ε) (m : Memory) : Stage ε := fun seen page todo report s =>
  ∃ before after gone refused, Rows.ofStore m = before ++ (page ++ after) ∧
    before.map Prod.fst = seen ∧ after.map Prod.fst = todo ∧
    UnderWay decode m before page gone refused report s

/-- Rows that are held under the same keys are the same. -/
private theorem eq_of_held {held : String → Option Bytes} {rows rows' : List (String × Bytes)}
    (hkeys : rows.map Prod.fst = rows'.map Prod.fst) (h : ∀ row ∈ rows, held row.1 = some row.2)
    (h' : ∀ row ∈ rows', held row.1 = some row.2) : rows = rows' := by
  induction rows generalizing rows' with
  | nil => exact (List.map_eq_nil_iff.mp hkeys.symm).symm
  | cons row rows ih =>
      cases rows' with
      | nil => cases hkeys
      | cons row' rows' =>
          obtain ⟨hkey, hkeys⟩ := List.cons.inj hkeys
          have hheld := h row List.mem_cons_self
          rw [hkey, h' row' List.mem_cons_self] at hheld
          rw [Prod.ext hkey (Option.some.inj hheld).symm,
            ih hkeys (fun r hr => h r (List.mem_cons_of_mem _ hr))
              fun r hr => h' r (List.mem_cons_of_mem _ hr)]

section Begun

variable {decode : Decoder ε} {m : Memory} (hm : Table.Ascending m)

include hm

private theorem not_mem_before {before after : List (String × Bytes)} {row : String × Bytes}
    (h : Rows.ofStore m = before ++ after) (hrow : row ∈ after) : row.1 ∉ before.map Prod.fst := by
  have hasc : Table.Ascending (Rows.ofStore m) := List.Pairwise.filter _ hm
  rw [h] at hasc
  intro hmem
  obtain ⟨row', hrow', hkey⟩ := List.mem_map.mp hmem
  have hlt := (List.pairwise_append.mp hasc).2.2 row' hrow' row hrow
  exact Std.lt_irrefl (hkey ▸ hlt)

/-- A row that is still to come is as it was. -/
private theorem UnderWay.held {before page after : List (String × Bytes)} {gone : List String}
    {refused : List (String × Error)} {report : Report ε} {s : Logged}
    (h : UnderWay decode m before page gone refused report s)
    (hrows : Rows.ofStore m = before ++ after) {row : String × Bytes} (hrow : row ∈ after) :
    s.memory.get? row.1 = some row.2 := by
  have hgone : row.1 ∉ gone := fun hmem =>
    not_mem_before hm hrows hrow (h.split.subset (List.mem_append_left _ hmem))
  rw [h.memory, get?_settleOn_of_not_mem decode hgone]
  exact Table.get?_of_mem hm (Rows.mem_of_ofStore (hrows ▸ List.mem_append_right _ hrow))

variable (hown : ∀ row ∈ Rows.ofStore m, ∀ r, Record.decode row.2 = .ok r → row.1 = Rows.key r.did)

include hown

private theorem update_underWay {faults : Faults} {before page after : List (String × Bytes)}
    {row : String × Bytes} {gone : List String} {refused : List (String × Error)}
    {report report' : Report ε} {s s' : Logged}
    (h : UnderWay decode m before (row :: page) gone refused report s)
    (hrows : Rows.ofStore m = before ++ (row :: after)) {r : Record}
    (hrow : Record.decode row.2 = .ok r) (hout : Outcome decode faults r report s report' s') :
    ∃ gone' refused', UnderWay decode m (before ++ [row]) page gone' refused' report' s' := by
  have hmem : row ∈ Rows.ofStore m := hrows ▸ List.mem_append_right _ List.mem_cons_self
  have hkey := hown row hmem r hrow
  have hnew := not_mem_before hm hrows List.mem_cons_self
  have hheld := h.held hm hrows List.mem_cons_self
  have hearly : @early? ε row = none := by rw [early?, Rows.corrupt?, hrow]; rfl
  have hsame := settleOn_append_of_settled decode gone hm (Rows.mem_of_ofStore hmem)
  cases hout with
  | @undecodable e hblob =>
      have hfound : examine decode row.2 = .failed (.undecodable e) := by
        simp only [examine, hrow, hblob]
      refine ⟨gone ++ [row.1], refused, h.step_settled hnew ?_ h.quiet rfl ?_ ?_⟩
      · rw [hsame (by rw [settled, hfound]), h.memory]
      · rw [isOutdated, hfound]
        rfl
      · rw [failure?, hfound, hearly, ← hkey]
        exact List.append_nil _
  | current hblob hexpiry =>
      have hfound : examine decode row.2 = .current := by
        simp only [examine, hrow, hblob, if_pos hexpiry]
      refine ⟨gone ++ [row.1], refused, h.step_settled hnew ?_ h.quiet rfl ?_ ?_⟩
      · rw [hsame (by rw [settled, hfound]), h.memory]
      · rw [isOutdated, hfound]
        rfl
      · rw [failure?, hfound, hearly]
        rfl
  | @unread t error hblob hexpiry hfault =>
      have hfound := examine_eq_outdated.mpr ⟨hrow, hblob, hexpiry⟩
      rw [← hkey]
      refine ⟨gone, refused ++ [(row.1, error)], h.step_refused hnew ?_ rfl (h.quiet.row rfl)⟩
      rw [isOutdated, hfound]
      rfl
  | astray hblob hexpiry hastray =>
      rw [hkey] at hheld
      exact absurd rfl (hastray _ _ hheld hrow)
  | @unwritten t bs bs' error hblob hexpiry hfault =>
      have hfound := examine_eq_outdated.mpr ⟨hrow, hblob, hexpiry⟩
      rw [← hkey]
      refine ⟨gone, refused ++ [(row.1, error)], h.step_refused hnew ?_ rfl ?_⟩
      · rw [isOutdated, hfound]
        rfl
      · have hget : Quiet (s.answer (.get row.1)).log refused :=
          List.append_nil refused ▸ h.quiet.row rfl
        exact hget.row rfl
  | @written t bs r' hblob hexpiry hheld' hdecode hblob' =>
      have hfound := examine_eq_outdated.mpr ⟨hrow, hblob, hexpiry⟩
      rw [← hkey] at hheld' ⊢
      have hbs : bs = row.2 := Option.some.inj (hheld'.symm.trans hheld)
      rw [hbs] at hdecode ⊢
      have hr : r' = r := Except.ok.inj (hdecode.symm.trans hrow)
      rw [hr]
      refine ⟨gone ++ [row.1], refused, h.step_settled hnew ?_ ?_ rfl ?_ ?_⟩
      · have hinsert := insert_settleOn decode gone hm (Rows.mem_of_ofStore hmem)
        rw [settled, hfound, ← h.memory] at hinsert
        exact (congrArg Prod.snd (Memory.answer_compareAndPut hheld _)).trans hinsert
      · have hget : Quiet (s.answer (.get row.1)).log refused :=
          List.append_nil refused ▸ h.quiet.row rfl
        exact List.append_nil refused ▸ hget.row rfl
      · rw [isOutdated, hfound]
        rfl
      · rw [failure?, hfound, hearly]
        rfl

private theorem begun_invariant (faults : Faults) : Invariant decode faults (Begun decode m) where
  keys := by
    rintro seen todo report s ⟨before, after, gone, refused, hrows, rfl, rfl, h⟩
    rw [h.memory]
    refine ⟨ascending_settleOn decode gone hm, ?_⟩
    rw [Rows.keys_ofStore_congr (keys_settleOn decode gone), hrows, List.map_append]
    rfl
  fetch := by
    rintro seen todo rows report s ⟨before, after, gone, refused, hrows, rfl, hafter, h⟩ hheld start limit next
    obtain ⟨page, rest, rfl, hpage, rfl⟩ := List.map_eq_append_iff.mp hafter
    have hsame : page = rows := eq_of_held hpage
      (fun row hrow => h.held hm hrows (List.mem_append_right _ (List.mem_append_left _ hrow))) hheld
    rw [hsame] at hrows
    exact ⟨before, rest, gone, refused, hrows, rfl, rfl, h.fetch rows start limit next⟩
  skip := by
    rintro seen todo row rows report s ⟨before, after, gone, refused, hrows, rfl, rfl, h⟩ e hrow
    have hmem : row ∈ m := Rows.mem_of_ofStore (hrows ▸ List.mem_append_right _ List.mem_cons_self)
    have hfound : examine decode row.2 = .failed (.unreadable e) := by rw [examine, hrow]
    refine ⟨before ++ [row], after, gone ++ [row.1], refused, ?_, List.map_append, rfl, ?_⟩
    · rw [hrows, List.append_assoc]
      rfl
    · refine h.step_settled (not_mem_before hm hrows List.mem_cons_self) ?_ h.quiet rfl ?_ ?_
      · rw [settleOn_append_of_settled decode gone hm hmem (by rw [settled, hfound]), h.memory]
      · rw [isOutdated, hfound]
        rfl
      · rw [failure?, hfound, early?, Rows.corrupt?, hrow]
        rfl
  update := by
    rintro seen todo row rows report s ⟨before, after, gone, refused, hrows, rfl, rfl, h⟩ r hrow
      report' s' hout
    obtain ⟨gone', refused', h'⟩ := update_underWay hm hown h hrows hrow hout
    refine ⟨before ++ [row], after, gone', refused', ?_, List.map_append, rfl, h'⟩
    rw [hrows, List.append_assoc]
    rfl

variable (decode) in
private theorem begun_ends (faults : Faults) (elsewhere : (r : Work.Request) → r.Reply)
    (pageSize budget : Nat) :
    Ends (Begun decode m) ((Rows.ofStore m).map Prod.fst)
      (((Rows.ofStore m).map Prod.fst).length / max pageSize 1 < budget)
      ((pass decode pageSize budget).run (Logged.failing faults elsewhere) ⟨m, []⟩) :=
  (begun_invariant hm hown faults).passFrom elsewhere pageSize budget
    ⟨[], Rows.ofStore m, [], [], rfl, rfl, rfl, UnderWay.start decode m⟩

omit hm hown in
private theorem Begun.complete {report : Report ε} {s : Logged}
    (h : Begun decode m ((Rows.ofStore m).map Prod.fst) [] [] report s) :
    ∃ gone, UnderWay decode m (Rows.ofStore m) [] gone (refusals s.log) report s := by
  obtain ⟨before, after, gone, refused, hrows, -, hafter, h⟩ := h
  have hbefore : Rows.ofStore m = before := by
    rw [hrows, List.map_eq_nil_iff.mp hafter, List.append_nil, List.append_nil]
  rw [hbefore, h.quiet.refused]
  exact ⟨gone, h⟩

omit hm hown in
private theorem Begun.memory {seen todo : List String} {page : List (String × Bytes)}
    {report : Report ε} {s : Logged} (h : Begun decode m seen page todo report s) :
    ∃ gone, (∀ key ∈ gone, key ∈ (Rows.ofStore m).map Prod.fst) ∧
      s.memory = settleOn decode gone m := by
  obtain ⟨before, after, gone, refused, hrows, -, -, h⟩ := h
  refine ⟨gone, fun key hkey => ?_, h.memory⟩
  rw [hrows, List.map_append]
  exact List.mem_append_left _ (h.split.subset (List.mem_append_left _ hkey))

omit hm hown in
private theorem refusals_eq_nil {log : List Event} (h : ∀ e ∈ log, e.error? = none) :
    refusals log = [] := by
  refine List.filterMap_eq_nil_iff.mpr fun e he => ?_
  rw [h e (mem_of_callsThat he)]
  rfl

variable (decode) in
/-- Alone with its store, a pass goes through all rows and is refused nothing. -/
theorem pass_alone (elsewhere : (r : Work.Request) → r.Reply) (pageSize : Nat) {budget : Nat}
    (hbudget : (Rows.ofStore m).length / max pageSize 1 < budget) :
    ∃ report gone s, (pass decode pageSize budget).run (Memory.alone elsewhere) m =
        (some (.ok report), settle decode m) ∧
      UnderWay decode m (Rows.ofStore m) [] gone [] report s := by
  obtain ⟨report, s, hrun, hbegun⟩ := (begun_invariant hm hown .none).pass elsewhere
    ⟨[], Rows.ofStore m, [], [], rfl, rfl, rfl, UnderWay.start decode m⟩ pageSize hbudget
  obtain ⟨gone, h⟩ := hbegun.complete
  have hok := Logged.error?_of_none elsewhere (pass decode pageSize budget) (s := ⟨m, []⟩)
    fun e he => nomatch he
  rw [hrun] at hok
  rw [refusals_eq_nil hok] at h
  have hsplit := h.split
  rw [List.map_nil, List.append_nil] at hsplit
  refine ⟨report, gone, s, ?_, h⟩
  rw [(Logged.run_alone elsewhere hrun).1, h.memory,
    settleOn_eq_settle decode fun key => hsplit.mem_iff]

end Begun

/-! Passes that meet faults. -/

/-- A pass over a failing store, as it stands to one over the same store that meets no fault. -/
structure Isolated (m m₀ : Memory) (report₀ : Report ε) (refused : List (String × Error))
    (report : Report ε) (m' : Memory) : Prop where
  scanned : report.scanned = report₀.scanned
  updated : report.updated + refused.length = report₀.updated
  failed : report.failed.Perm (report₀.failed ++ refused.map unwritten)
  /-- No row is reported twice. -/
  once : (report.failed.map Prod.fst).Nodup
  store : ∀ key, m'.get? key =
    if key ∈ refused.map Prod.fst then m.get? key else m₀.get? key

structure Attempt where
  faults : Faults
  pageSize : Nat
  budget : Nat

def Attempt.leaves (decode : Decoder ε) (elsewhere : (r : Work.Request) → r.Reply) (m : Memory)
    (a : Attempt) : Memory :=
  ((pass decode a.pageSize a.budget).run (Logged.failing a.faults elsewhere) ⟨m, []⟩).2.memory

section Isolated

variable {decode : Decoder ε} {m : Memory} (hm : Table.Ascending m)

include hm

private theorem nodup_keys : ((Rows.ofStore m).map Prod.fst).Nodup :=
  Table.nodup_keys (t := Rows.ofStore m) (List.Pairwise.filter _ hm)

omit hm in
private theorem failures_sublist (rows : List (String × Bytes)) :
    ((rows.filterMap (failure? decode)).map Prod.fst).Sublist (rows.map Prod.fst) := by
  induction rows with
  | nil => exact .slnil
  | cons row rows ih =>
      cases hfailure : failure? decode row with
      | none =>
          rw [List.filterMap_cons_none hfailure]
          exact ih.cons row.1
      | some p =>
          rw [List.filterMap_cons_some hfailure, List.map_cons, List.map_cons, key_of_failure? hfailure]
          exact ih.cons_cons row.1

private theorem UnderWay.isolated {gone gone₀ : List String} {refused : List (String × Error)}
    {report report₀ : Report ε} {s s₀ : Logged}
    (h : UnderWay decode m (Rows.ofStore m) [] gone refused report s)
    (h₀ : UnderWay decode m (Rows.ofStore m) [] gone₀ [] report₀ s₀) :
    Isolated m (settle decode m) report₀ refused report s.memory where
  scanned := h.scanned.trans h₀.scanned.symm
  updated := h.updated.trans h₀.updated.symm
  failed := by
    refine h.failed.trans ?_
    have hfailed := h₀.failed.symm.append_right (refused.map unwritten)
    rwa [List.append_assoc] at hfailed
  once := by
    refine (h.failed.map Prod.fst).nodup_iff.mpr ?_
    have hrefused : (refused.map (@unwritten ε)).map Prod.fst = refused.map Prod.fst := by
      rw [List.map_map]
      rfl
    rw [List.filterMap_nil, List.nil_append, List.map_append, hrefused, List.nodup_append]
    refine ⟨(nodup_keys hm).sublist (failures_sublist _),
      (List.nodup_append.mp (h.split.nodup_iff.mpr (nodup_keys hm))).2.1, ?_⟩
    -- a row whose update was refused was out of date, and so is no failure otherwise
    rintro key hfailed _ hrefused rfl
    obtain ⟨p, hp, rfl⟩ := List.mem_map.mp hfailed
    obtain ⟨row, hrow, hfailure⟩ := List.mem_filterMap.mp hp
    rw [key_of_failure? hfailure] at hrefused
    rw [(silent_of_isOutdated (h.outdated row hrow hrefused)).1] at hfailure
    cases hfailure
  store := fun key => by
    have hkeys : key ∈ gone ∨ key ∈ refused.map Prod.fst ↔ key ∈ (Rows.ofStore m).map Prod.fst :=
      List.mem_append.symm.trans h.split.mem_iff
    have hnodup := h.split.nodup_iff.mpr (nodup_keys hm)
    rw [h.memory, ← settleOn_eq_settle decode fun _ => Iff.rfl, get?_settleOn, get?_settleOn]
    simp only [← hkeys]
    by_cases hrefused : key ∈ refused.map Prod.fst
    · have hgone : key ∉ gone := fun hgone =>
        (List.nodup_append.mp hnodup).2.2 key hgone key hrefused rfl
      rw [if_neg hgone, if_pos hrefused]
    · simp only [hrefused, or_false, if_false]

omit hm in
variable (decode) in
/-- Every attempt leaves some rows as they were, and the others as a pass does. -/
private theorem leaves_eq (elsewhere : (r : Work.Request) → r.Reply) (attempts : List Attempt)
    {m : Memory} (hm : Table.Ascending m)
    (hown : ∀ row ∈ Rows.ofStore m, ∀ r, Record.decode row.2 = .ok r → row.1 = Rows.key r.did) :
    ∃ gone, (∀ key ∈ gone, key ∈ (Rows.ofStore m).map Prod.fst) ∧
      attempts.foldl (Attempt.leaves decode elsewhere) m = settleOn decode gone m := by
  -- an attempt leaves a store of the same kind, under the same keys, for the next to begin with
  induction attempts generalizing m with
  | nil => exact ⟨[], fun _ h => (nomatch h), (settleOn_nil decode).symm⟩
  | cons a attempts ih =>
      obtain ⟨gone, hgone, hleaves⟩ : ∃ gone, (∀ key ∈ gone, key ∈ (Rows.ofStore m).map Prod.fst) ∧
          a.leaves decode elsewhere m = settleOn decode gone m := by
        have hends := begun_ends decode hm hown a.faults elsewhere a.pageSize a.budget
        rw [Attempt.leaves]
        generalize (pass decode a.pageSize a.budget).run (Logged.failing a.faults elsewhere) ⟨m, []⟩ =
          ending at hends
        cases hends with
        | complete h => exact h.memory
        | broken h => exact h.memory
        | abandoned h => exact h.memory
      obtain ⟨gone', hgone', hrest⟩ := ih (ascending_settleOn decode gone hm)
        (own_settleOn decode gone hown)
      refine ⟨gone ++ gone', fun key hkey => ?_, ?_⟩
      · rcases List.mem_append.mp hkey with hkey | hkey
        · exact hgone key hkey
        · have hkey := hgone' key hkey
          rwa [Rows.keys_ofStore_congr (keys_settleOn decode gone)] at hkey
      · rw [List.foldl_cons, hleaves, hrest, settleOn_settleOn]

end Isolated

/-- A pass fails exactly when a call that fetches a page does. Otherwise every row whose update is
refused is reported once and keeps its bytes, and all else is as if nothing had been refused. Whatever
attempts came before, and however they ended, one pass that nothing is refused to leaves what it would
have left without them. -/
theorem faults_isolated (decode : Decoder ε) (elsewhere : (r : Work.Request) → r.Reply) {m : Memory}
    (hm : Table.Ascending m)
    (hown : ∀ row ∈ Rows.ofStore m, ∀ r, Record.decode row.2 = .ok r → row.1 = Rows.key r.did)
    (pageSize : Nat) {budget : Nat}
    (hbudget : (Rows.ofStore m).length / max pageSize 1 < budget) :
    ∃ report₀ m₀,
      (pass decode pageSize budget).run (Memory.alone elsewhere) m = (some (.ok report₀), m₀) ∧
      (∀ faults, ∃ result s,
        (pass decode pageSize budget).run (Logged.failing faults elsewhere) ⟨m, []⟩ =
          (some result, s) ∧
        ((∃ f, result = .error f) ↔ ∃ e ∈ callsThat true 0 s.log, e.error? ≠ none) ∧
        ∀ report, result = .ok report →
          Isolated m m₀ report₀ (refusals s.log) report s.memory) ∧
      ∀ (attempts : List Attempt) (pageSize' : Nat) {budget' : Nat},
        (Rows.ofStore m).length / max pageSize' 1 < budget' →
        ∃ report, (pass decode pageSize' budget').run (Memory.alone elsewhere)
          (attempts.foldl (Attempt.leaves decode elsewhere) m) = (some (.ok report), m₀) := by
  obtain ⟨report₀, gone₀, s₀, hrun₀, h₀⟩ := pass_alone decode hm hown elsewhere pageSize hbudget
  refine ⟨report₀, settle decode m, hrun₀, fun faults => ?_, fun attempts pageSize' budget' hbudget' => ?_⟩
  · have hends := begun_ends decode hm hown faults elsewhere pageSize budget
    generalize (pass decode pageSize budget).run (Logged.failing faults elsewhere) ⟨m, []⟩ =
      ending at hends
    cases hends with
    | @complete report s h =>
        obtain ⟨gone, h⟩ := h.complete
        refine ⟨_, _, rfl, ⟨fun hfails => ?_, fun hfails => ?_⟩, fun report' hreport => ?_⟩
        · obtain ⟨f, hf⟩ := hfails
          cases hf
        · obtain ⟨e, he, herror⟩ := hfails
          exact absurd (h.quiet.fetched e he) herror
        · cases hreport
          exact h.isolated hm h₀
    | @broken seen todo report s error log h hlog =>
        obtain ⟨before, after, gone, refused, -, -, -, h⟩ := h
        refine ⟨_, _, rfl, ⟨fun _ => ?_, fun _ => ⟨_, rfl⟩⟩, fun report' hreport => nomatch hreport⟩
        -- no read is owed when a fetch begins, so its calls are told apart as on their own
        obtain ⟨e, he, herror⟩ := broken_fetch hlog
        refine ⟨e, ?_, herror⟩
        rw [callsThat_append, h.quiet.owed]
        exact List.mem_append_right _ he
    | abandoned _ hshort => exact absurd (by rwa [List.length_map]) hshort
  · obtain ⟨gone, hgone, hleaves⟩ := leaves_eq decode elsewhere attempts hm hown
    have hlength := Rows.length_ofStore_congr (keys_settleOn decode gone (m := m))
    obtain ⟨report, _, _, hrun, -⟩ := pass_alone decode (ascending_settleOn decode gone hm)
      (own_settleOn decode gone hown) elsewhere pageSize' (hlength.symm ▸ hbudget')
    refine ⟨report, ?_⟩
    rw [hleaves, hrun, settle_settleOn decode hgone]

/-- A row that is out of date is brought up to date after an attempt that could not write and one that
was refused everything. -/
theorem faults_isolated_late :
    let decode : Decoder Unit := fun _ => .ok 7
    let d : Did := ⟨"did:a:b", by decide⟩
    let old : Record := ⟨d, ⟨""⟩, 1, 2, some 3⟩
    let m : Memory := [(Rows.key d, old.encode)]
    let attempts : List Attempt :=
      [⟨fun _ c => if c.writes then some (.refused "") else none, 1, 2⟩,
        ⟨fun _ _ => some (.refused ""), 1, 2⟩]
    Table.Ascending m ∧
      (∀ row ∈ Rows.ofStore m, ∀ r, Record.decode row.2 = .ok r → row.1 = Rows.key r.did) ∧
      (Rows.ofStore m).length / max 1 1 < 2 ∧
      ∃ report, (pass decode 1 2).run (Memory.alone Memory.nobody)
        (attempts.foldl (Attempt.leaves decode Memory.nobody) m) =
          (some (.ok report), [(Rows.key d, Record.encode ⟨d, ⟨""⟩, 1, 2, some 7⟩)]) := by
  intro decode d old m attempts
  have hstart : startsWith Rows.start (Rows.key d) = true := startsWith_append _ _
  have hrows : Rows.ofStore m = m := Rows.ofStore_singleton hstart old.encode
  have hm : Table.Ascending m := List.pairwise_singleton _ _
  have hown : ∀ row ∈ Rows.ofStore m, ∀ r, Record.decode row.2 = .ok r → row.1 = Rows.key r.did := by
    intro row hrow r hr
    rw [hrows] at hrow
    have hrow : row = (Rows.key d, old.encode) := List.mem_singleton.mp hrow
    rw [hrow] at hr ⊢
    dsimp only at hr ⊢
    rw [Record.decode_encode] at hr
    rw [← Except.ok.inj hr]
  have hbudget : (Rows.ofStore m).length / max 1 1 < 2 := by
    rw [hrows]
    decide
  have hfound : examine decode old.encode = .outdated old 7 :=
    examine_eq_outdated.mpr ⟨Record.decode_encode old, rfl, by decide⟩
  have hsettle : settle decode m = [(Rows.key d, Record.encode ⟨d, ⟨""⟩, 1, 2, some 7⟩)] := by
    rw [settle, List.map_singleton, if_pos hstart, settled, hfound]
  obtain ⟨report₀, m₀, hrun, -, hlater⟩ :=
    faults_isolated decode Memory.nobody hm hown 1 hbudget
  obtain ⟨report, _, _, hrun', -⟩ := pass_alone decode hm hown Memory.nobody 1 hbudget
  have hm₀ : m₀ = settle decode m := congrArg Prod.snd (hrun.symm.trans hrun')
  rw [hm₀, hsettle] at hlater
  exact ⟨hm, hown, hbudget, hlater attempts 1 hbudget⟩

end Upkeep.Sweep
