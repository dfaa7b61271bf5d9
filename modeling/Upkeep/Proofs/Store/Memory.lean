import Upkeep.Proofs.Table
import Upkeep.Store.Memory

/-!
What calls do to one key of a store in memory. It depends on the call and on what the key held, and
so on the calls that were made and their order.
-/

namespace Upkeep.Store

def Call.writes : Call → Bool
  | .scan .. | .get _ => false
  | .put .. | .compareAndPut .. | .delete _ => true

def Call.effect (key : String) : Call → Option Bytes → Option Bytes
  | .put key' value, held => if key = key' then some value else held
  | .compareAndPut key' expected value, held =>
    if key = key' ∧ held = some expected then some value else held
  | .delete key', held => if key = key' then none else held
  | .scan .., held | .get _, held => held

theorem Call.effect_of_not_writes {c : Call} (h : c.writes = false) (key : String)
    (held : Option Bytes) : c.effect key held = held := by
  cases c with
  | scan | get => rfl
  | put | compareAndPut | delete => cases h

namespace Memory

/-- A conditional write goes through when the key holds what is expected. -/
theorem answer_compareAndPut {m : Memory} {key : String} {held : Bytes} (h : m.get? key = some held)
    (value : Bytes) : answer (.compareAndPut key held value) m = (.ok true, m.insert key value) := by
  rw [answer, compareAndPut, if_pos h]

theorem get?_answer {m : Memory} (hm : Table.Ascending m) (c : Call) (key : String) :
    (answer c m).2.get? key = c.effect key (m.get? key) := by
  cases c with
  | scan | get => rfl
  | put key' value => exact Table.get?_insert m key' key value
  | compareAndPut key' expected value =>
      simp only [answer, compareAndPut, Call.effect]
      by_cases hkey : key = key'
      · subst hkey
        split <;> simp_all [Table.get?_insert]
      · split <;> simp_all [Table.get?_insert]
  | delete key' =>
      simp only [answer, Call.effect]
      by_cases hkey : key = key'
      · rw [if_pos hkey, hkey]
        exact Table.get?_erase_self key' hm
      · rw [if_neg hkey]
        exact Table.get?_erase_of_ne m hkey

theorem ascending_answer {m : Memory} (hm : Table.Ascending m) (c : Call) :
    Table.Ascending (answer c m).2 := by
  cases c with
  | scan | get => exact hm
  | put key value => exact Table.ascending_insert key value hm
  | compareAndPut key expected value =>
      simp only [answer, compareAndPut]
      split
      next => exact Table.ascending_insert key value hm
      next => exact hm
  | delete key => exact Table.ascending_erase key hm

end Memory

def held (key : String) (first : Option Bytes) (history : List Call) : Option Bytes :=
  history.foldl (fun row c => c.effect key row) first

theorem held_append (key : String) (first : Option Bytes) (before after : List Call) :
    held key first (before ++ after) = held key (held key first before) after :=
  List.foldl_append

/-- When all writes are puts of one value, a key holds that value or has not been written. -/
theorem held_of_puts {key : String} {value : Bytes} {history : List Call}
    (h : ∀ c ∈ history, c.writes = true → c = .put key value) (first : Option Bytes) :
    held key first history =
      if Call.put key value ∈ history then some value else first := by
  induction history generalizing first with
  | nil => rfl
  | cons c history ih =>
      have hrest := ih (fun c' hc => h c' (List.mem_cons_of_mem _ hc)) (c.effect key first)
      change held key (c.effect key first) history = _
      rw [hrest]
      cases hwrites : c.writes with
      | false =>
          have hne : Call.put key value ≠ c := by
            rintro rfl
            cases hwrites
          simp [Call.effect_of_not_writes hwrites, hne]
      | true =>
          rw [h c List.mem_cons_self hwrites]
          simp [Call.effect]

end Upkeep.Store
