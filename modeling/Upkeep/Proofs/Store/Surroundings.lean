import Upkeep.Proofs.Session.Renewal
import Upkeep.Proofs.Store.Shared

/-!
Surroundings whose store is a table in memory, and what its calls do to the keys it holds.
-/

namespace Upkeep

open Store

/-- Surroundings whose store is a table in memory: a call is answered, or fails and does nothing, or
its activity dies over it. Nothing else that is asked touches it. -/
structure Outside.Stores {σ : Type} (o : Outside σ) (held : σ → Memory) : Prop where
  answers : ∀ c s x, (o.store c s).1 = some x → Shared (.store c) (held s) x (held (o.store c s).2)
  dies : ∀ c s, (o.store c s).1 = none → held (o.store c s).2 = held s
  exchange : ∀ g s, held (o.exchange g s).2 = held s
  attempt : ∀ d n s, held (o.attempt d n s) = held s
  consult : ∀ d s, held (o.consult d s).2 = held s
  ring : ∀ bell s, held (o.ring bell s).2 = held s

theorem Outside.granting_stores (token : Grant.Token) (perform : Chore → Work Unit) :
    (Outside.granting token perform).Stores Desk.rows where
  answers c s x hx := by
    cases hx
    exact .answered c s.rows
  dies _ _ h := nomatch h
  exchange _ _ := rfl
  attempt _ _ _ := rfl
  consult _ _ := rfl
  ring _ _ := rfl

namespace Outside.Stores

variable {σ : Type} {o : Outside σ} {held : σ → Memory} (ho : o.Stores held)

include ho

theorem ascending (c : Call) {s : σ} (hs : Table.Ascending (held s)) :
    Table.Ascending (held (o.store c s).2) := by
  cases hx : (o.store c s).1 with
  | none => rwa [ho.dies c s hx]
  | some x => exact (ho.answers c s x hx).ascending hs

/-- A key stays that is not deleted. -/
theorem mem_keys {c : Call} {key : String} (hkey : c ≠ .delete key) {s : σ}
    (hs : Table.Ascending (held s)) (hmem : key ∈ (held s).keys) :
    key ∈ (held (o.store c s).2).keys := by
  cases hx : (o.store c s).1 with
  | none => rwa [ho.dies c s hx]
  | some x =>
      have hshared := ho.answers c s x hx
      generalize held (o.store c s).2 = m at hshared ⊢
      cases hshared with
      | answered =>
          rw [Table.mem_keys_iff] at hmem ⊢
          rw [Memory.get?_answer hs]
          cases c with
          | scan | get => exact hmem
          | put | compareAndPut =>
              rw [Call.effect]
              split
              · rfl
              · exact hmem
          | delete key' =>
              rw [Call.effect, if_neg fun heq => hkey (congrArg Call.delete heq.symm)]
              exact hmem
      | failed => exact hmem
      | elsewhere _ _ _ h => exact absurd rfl (h c)

theorem get (key : String) (s : σ) : held (o.store (.get key) s).2 = held s ∧
    ∀ a, (o.store (.get key) s).1 = some (.ok a) → a = (held s).get? key := by
  cases hx : (o.store (.get key) s).1 with
  | none => exact ⟨ho.dies _ s hx, nofun⟩
  | some x =>
      have hshared := ho.answers _ s x hx
      generalize held (o.store (.get key) s).2 = m at hshared ⊢
      cases hshared with
      | answered => exact ⟨rfl, fun a ha => by cases ha; rfl⟩
      | failed => exact ⟨rfl, nofun⟩
      | elsewhere _ _ _ h => exact absurd rfl (h _)

theorem put (key : String) (value : Bytes) (s : σ) :
    (o.store (.put key value) s).1 = some (.ok ()) ∧
        held (o.store (.put key value) s).2 = (held s).insert key value ∨
      (o.store (.put key value) s).1 ≠ some (.ok ()) ∧ held (o.store (.put key value) s).2 = held s := by
  cases hx : (o.store (.put key value) s).1 with
  | none => exact .inr ⟨nofun, ho.dies _ s hx⟩
  | some x =>
      have hshared := ho.answers _ s x hx
      generalize held (o.store (.put key value) s).2 = m at hshared ⊢
      cases hshared with
      | answered => exact .inl ⟨rfl, rfl⟩
      | failed => exact .inr ⟨nofun, rfl⟩
      | elsewhere _ _ _ h => exact absurd rfl (h _)

end Outside.Stores

end Upkeep
