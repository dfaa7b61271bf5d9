import Mathlib.Data.Finset.Basic
import Upkeep.Proofs.Store.Reliable
import Upkeep.Proofs.Text.Order

/-!
Markers as a set. Whatever else a store holds, the identifiers that are marked in it are a set which
only the calls on markers change, each by the identifier it names; and a listing is the set in order.
-/

namespace Upkeep

open Store

theorem Pager.succeeds_walk (budget : Nat) (p : Pager) : Work.Succeeds (walk budget p) := by
  induction budget generalizing p with
  | zero => trivial
  | succ budget ih =>
      cases hfinished : p.finished with
      | true =>
          rw [walk_finished budget hfinished]
          exact Work.succeeds_ok _
      | false =>
          rw [walk_unfinished budget hfinished]
          apply (Work.succeeds_call (.scan p.start p.cursor p.pageSize)).onSuccess
          intro page
          split
          next => exact Work.succeeds_ok _
          next => exact (ih _).onSuccess fun pages => Work.succeeds_ok _

namespace Markers

inductive Operation where
  | register (did : Did)
  | remove (did : Did)
  | contains (did : Did)
  deriving DecidableEq

namespace Operation

def errand (m : Markers) : Operation → Errand Bool
  | register d => m.register d
  | remove d => m.remove d
  | contains d => m.contains d

def answer (marked : Finset Did) : Operation → Bool
  | register d => decide (d ∉ marked)
  | remove d | contains d => decide (d ∈ marked)

def change (marked : Finset Did) : Operation → Finset Did
  | register d => insert d marked
  | remove d => marked.erase d
  | contains _ => marked

def target? : Operation → Option Did
  | register d | remove d => some d
  | contains _ => none

def store (m : Markers) (rows : Memory) : Operation → Memory
  | register d => if m.key d ∈ rows.keys then rows else rows.insert (m.key d) (Utf8.encode d.text)
  | remove d => rows.erase (m.key d)
  | contains _ => rows

end Operation

def perform (m : Markers) : List Operation → Errand (List Bool)
  | [] => Work.ok []
  | o :: os =>
    (o.errand m).onSuccess fun answer => (perform m os).onSuccess fun rest => Work.ok (answer :: rest)

def answers (marked : Finset Did) : List Operation → List Bool
  | [] => []
  | o :: os => o.answer marked :: answers (o.change marked) os

variable (m : Markers)

/-- The identifiers that are marked in a table. -/
def marked (rows : Memory) : Finset Did := (m.listed rows).toFinset

@[simp] theorem mem_marked {rows : Memory} {d : Did} : d ∈ m.marked rows ↔ m.key d ∈ rows.keys := by
  rw [marked, List.mem_toFinset, mem_listed]

theorem key_inj {d d' : Did} : m.key d = m.key d' ↔ d = d' := by
  constructor
  · intro h
    simp only [key, ← String.toList_inj, String.toList_append, List.append_cancel_left_eq] at h
    exact Did.eq_of_text_eq (String.toList_inj.mp h)
  · intro h
    rw [h]

/-! One operation. -/

namespace Operation

variable {rows : Memory}

theorem ascending_store (h : Table.Ascending rows) (o : Operation) :
    Table.Ascending (o.store m rows) := by
  cases o with
  | register d =>
      rw [store]
      split
      next => exact h
      next => exact Table.ascending_insert _ _ h
  | remove d => exact Table.ascending_erase _ h
  | contains d => exact h

/-- No other key is changed than that of the marker. -/
theorem get?_store {o : Operation} {key : String} (h : ∀ d, o.target? = some d → key ≠ m.key d) :
    (o.store m rows).get? key = rows.get? key := by
  cases o with
  | register d =>
      rw [store]
      split
      next => rfl
      next => exact Table.get?_insert_of_ne _ _ (h d rfl)
  | remove d => exact Table.get?_erase_of_ne _ (h d rfl)
  | contains d => rfl

/-- The table is changed as the set is. -/
theorem marked_store (h : Table.Ascending rows) (o : Operation) :
    m.marked (o.store m rows) = o.change (m.marked rows) := by
  ext d'
  cases o with
  | register d =>
      rw [store, change, Finset.mem_insert, mem_marked, mem_marked]
      split
      next hmem =>
        constructor
        · exact .inr
        · intro h'
          cases h' with
          | inl hd => exact hd ▸ hmem
          | inr h' => exact h'
      next => rw [Table.mem_keys_insert, m.key_inj]
  | remove d =>
      rw [store, change, Finset.mem_erase, mem_marked, mem_marked, Table.mem_keys_iff,
        Table.mem_keys_iff]
      by_cases hd : d' = d
      · rw [hd, Table.get?_erase_self _ h]
        simp
      · rw [Table.get?_erase_of_ne _ (mt m.key_inj.mp hd)]
        simp [hd]
  | contains d => rfl

end Operation

section Run

variable {σ : Type} {answer : Program.Answers work σ} {held : σ → Memory}
  (h : Reliable answer held) (s : σ)

include h

theorem run_errand (o : Operation) :
    ∃ s', (o.errand m).run answer s = (some (.ok (o.answer (m.marked (held s)))), s') ∧
      held s' = o.store m (held s) := by
  cases o with
  | register d =>
      obtain ⟨s₁, hget, hheld⟩ := h.run_get (s := s) (m.key d)
      rw [Operation.errand, register, Program.run_onSuccess_ok hget, Operation.answer, Operation.store]
      simp only [mem_marked, Table.mem_keys_iff]
      cases (held s).get? (m.key d) with
      | some value => exact ⟨s₁, rfl, hheld⟩
      | none =>
          obtain ⟨s₂, hput, hheld'⟩ := h.run_put (s := s₁) (m.key d) (Utf8.encode d.text)
          refine ⟨s₂, Program.run_onSuccess_ok hput, ?_⟩
          rw [hheld', hheld]
          rfl
  | remove d =>
      obtain ⟨s', hdelete, hheld⟩ := h.run_delete (s := s) (m.key d)
      refine ⟨s', ?_, hheld⟩
      simp only [Operation.errand, remove, hdelete, Operation.answer, mem_marked,
        Table.mem_keys_iff, Bool.decide_eq_true]
  | contains d =>
      obtain ⟨s', hget, hheld⟩ := h.run_get (s := s) (m.key d)
      refine ⟨s', ?_, hheld⟩
      simp only [Operation.errand, contains, Operation.answer, mem_marked, Table.mem_keys_iff,
        Bool.decide_eq_true]
      exact Program.run_onSuccess_ok hget

variable {s} (hs : Table.Ascending (held s))

include hs

theorem run_perform (os : List Operation) : ∃ s', (m.perform os).run answer s =
      (some (.ok (answers (m.marked (held s)) os)), s') ∧
    Table.Ascending (held s') ∧
    m.marked (held s') = os.foldl Operation.change (m.marked (held s)) ∧
    ∀ key, (∀ o ∈ os, ∀ d, o.target? = some d → key ≠ m.key d) →
      (held s').get? key = (held s).get? key := by
  induction os generalizing s with
  | nil => exact ⟨s, rfl, hs, rfl, fun _ _ => rfl⟩
  | cons o os ih =>
      obtain ⟨s₁, hrun, hheld⟩ := m.run_errand h s o
      have hasc : Table.Ascending (held s₁) := hheld ▸ o.ascending_store m hs
      have hmarked : m.marked (held s₁) = o.change (m.marked (held s)) := hheld ▸ o.marked_store m hs
      obtain ⟨s', hrest, hasc', hmarked', hother⟩ := ih hasc
      -- the other operations find the set as the first one leaves it
      rw [hmarked] at hrest hmarked'
      refine ⟨s', ?_, hasc', hmarked', ?_⟩
      · rw [perform, Program.run_onSuccess_ok hrun, Program.run_onSuccess_ok hrest]
        rfl
      · intro key hkey
        obtain ⟨hfirst, hothers⟩ := List.forall_mem_cons.mp hkey
        rw [hother key hothers, hheld, Operation.get?_store m hfirst]

theorem run_list {budget : Nat}
    (hbudget : ((held s).keys.filter (startsWith m.start)).length < budget) :
    ∃ s', (m.list budget).run answer s = (some (.ok (m.listed (held s))), s') ∧
      held s' = held s := by
  have hsucceeds : Work.Succeeds (m.list budget) :=
    (Pager.succeeds_walk budget _).onSuccess fun pages => Work.succeeds_ok _
  obtain ⟨ds, s', hrun, hds, hheld, -⟩ := h.run_looking hs (m.list_completesOk hbudget) hsucceeds
    fun r x hturn => Shared.finds hs rfl hturn
  rw [hds] at hrun
  exact ⟨s', hrun, hheld⟩

/-- Markers are a set of identifiers, whatever else is in the store. Operations on them answer as a set
does, and change it as they would a set and nothing else in the store; a listing names those whom it
holds, and each of them once, in the order of the octets. -/
theorem acts_as_set (os : List Operation) :
    ∃ s', (m.perform os).run answer s = (some (.ok (answers (m.marked (held s)) os)), s') ∧
      m.marked (held s') = os.foldl Operation.change (m.marked (held s)) ∧
      (∀ key, (∀ o ∈ os, ∀ d, o.target? = some d → key ≠ m.key d) →
        (held s').get? key = (held s).get? key) ∧
      ∀ budget, ((held s').keys.filter (startsWith m.start)).length < budget →
        ∃ ds s'', (m.list budget).run answer s' = (some (.ok ds), s'') ∧ held s'' = held s' ∧
          (ds.map fun d => Utf8.encode d.text).Pairwise (· < ·) ∧
          (∀ d, d ∈ ds ↔ d ∈ m.marked (held s')) ∧
          ∀ d, d ∈ ds ↔ ((m.contains d).run answer s').1 = some (.ok true) := by
  obtain ⟨s', hrun, hasc, hmarked, hother⟩ := m.run_perform h hs os
  refine ⟨s', hrun, hmarked, hother, ?_⟩
  intro budget hbudget
  obtain ⟨s'', hlist, hheld⟩ := m.run_list h hasc hbudget
  have hmem (d : Did) : d ∈ m.listed (held s') ↔ d ∈ m.marked (held s') :=
    List.mem_toFinset.symm
  refine ⟨_, s'', hlist, hheld, ?_, hmem, ?_⟩
  · apply (m.listed_ascending hasc).map
    intro d d' hlt
    exact Utf8.encode_lt_iff.mpr hlt
  · intro d
    obtain ⟨s₃, hcontains, -⟩ := m.run_errand h s' (.contains d)
    rw [Operation.errand] at hcontains
    rw [hmem, hcontains, Operation.answer]
    simp

end Run

/-- One marker is there, beside a malformed one and the row of a session. -/
theorem acts_as_set_beside_others :
    let m : Markers := ⟨"upkeep", 1⟩
    let rows : Memory := [("session:did:a:b", []), ("upkeep:did:a", []), ("upkeep:did:a:b", []),
      ("upkeepx", [])]
    let a : Did := ⟨"did:a:a", by decide⟩
    let b : Did := ⟨"did:a:b", by decide⟩
    Table.Ascending rows ∧
      ∃ s', (m.perform [.contains b, .register b, .register a, .remove b, .remove b]).run
          (Memory.alone Memory.nobody) rows =
        (some (.ok [true, false, true, true, false]), s') ∧ m.marked s' = {a} := by
  intro m rows a b
  have hrows : Table.Ascending rows := by
    rw [Table.ascending_iff_keys]
    decide
  obtain ⟨s', hrun, hmarked, -⟩ := m.acts_as_set (Memory.reliable_alone Memory.nobody) hrows
    [.contains b, .register b, .register a, .remove b, .remove b]
  have hbefore : m.marked (id rows) = {b} := by decide +kernel
  rw [hbefore] at hrun hmarked
  exact ⟨hrows, s', hrun, hmarked.trans (by decide +kernel)⟩

end Markers

end Upkeep
