import Upkeep.Caretaker
import Upkeep.Proofs.Session.ExpiryOwner
import Upkeep.Proofs.Session.Renewal
import Upkeep.Proofs.Timer.Registry

/-!
What spares the upkeep of one identifier: requests that neither write its row nor take it out of its
registry, and all that leads to no other requests. A refresh of somebody else spares it.
-/

namespace Upkeep

def Chore.Spares (d : Did) : Chore → Prop
  | .refresh d' => d' ≠ d
  | .sweep => False
  | .ring _ => True
  | .recur _ _ c => c.Spares d

namespace Work

/-- Whether a request leaves the row of an identifier alone, and its place in a registry. -/
def Request.Spares (registry : Nat) (d : Did) : Request → Prop
  | .store c => ¬ c.Changes (Rows.key d)
  | .launch c | .after _ _ c | .every _ _ c => c.Spares d
  | .strike n d' => n = registry → d' ≠ d
  | .shut n | .clear n => n ≠ registry
  | _ => True

theorem Request.Spares.not_changes {registry : Nat} {d : Did} {r : Request}
    (h : r.Spares registry d) : ¬ r.Changes d := by
  cases r with
  | store c => exact h
  | _ => exact id

def Spares {α : Type} (registry : Nat) (d : Did) (p : Work α) : Prop :=
  p.Keeps (fun _ _ => True) (Request.Spares registry d) fun _ => True

variable {α β : Type} {registry : Nat} {d : Did}

theorem spares_done (a : α) : Spares registry d (.done a) := trivial

theorem spares_ask {r : Request} (hr : r.Spares registry d) : Spares registry d (ask r) :=
  ⟨hr, fun _ _ => trivial⟩

theorem Spares.bind {p : Work α} (hp : Spares registry d p) {f : α → Work β}
    (hf : ∀ a, Spares registry d (f a)) : Spares registry d (p.bind f) :=
  Program.Keeps.bind hp fun a _ => hf a

end Work

def Job.Spares (registry : Nat) (d : Did) : Job → Prop
  | .chore p => Work.Spares registry d p
  | .call _ p => Work.Spares registry d p
  | .tick .. => False

open Work

variable {registry : Nat} {d d' : Did}

/-- Restoring somebody else. -/
theorem Rotation.spares_restore {ε : Type} (ro : Rotation ε) (h : d' ≠ d) :
    Spares registry d (ro.restore d') := by
  have hkey : Rows.key d' ≠ Rows.key d := fun he => h (Rows.key_injective he)
  have hrestore : (ro.restore d').KeepsOk (fun _ _ => True) (Request.Spares registry d)
      fun _ => True := ro.restore_keepsOk trivial (fun _ => trivial) id fun _ => hkey
  exact hrestore.mono fun _ _ => trivial

/-- What a caretaker does for a sparing chore. -/
theorem Caretaker.spares_perform {ε ε' : Type} {k : Caretaker ε} {ro : Rotation ε'}
    (hprovider : k.provider = ro.restore) {c : Chore} (hc : c.Spares d) :
    Spares registry d (k.perform c) := by
  cases c with
  | refresh d' =>
      have hobtain : Spares registry d (Agent.obtain k.provider k.retry d') :=
        Agent.obtain_keeps trivial (fun _ => trivial) (hprovider ▸ ro.spares_restore hc) k.retry
      exact hobtain.bind fun _ => spares_done _
  | sweep => exact hc.elim
  | ring bell =>
      refine Spares.bind (spares_ask (r := .ring _) trivial) fun goOn => ?_
      cases goOn with
      | false => trivial
      | true => exact spares_done _
  | recur period permit c => exact spares_ask (r := .every ..) hc

end Upkeep
