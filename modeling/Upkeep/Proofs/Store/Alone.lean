import Upkeep.Store.Memory
import Upkeep.Work

/-!
Errands that are alone with a store in memory: each call of the store is answered at once, and none
fails. The equations say what an errand's calls come to; an errand is run by them part by part.
-/

namespace Upkeep

namespace Store.Memory

/-- The surroundings of an errand that is alone with a store. What is asked of others is answered by
`elsewhere`. -/
def alone (elsewhere : (r : Work.Request) → r.Reply) : Program.Answers work Memory
  | .store c, m => answer c m
  | r, m => (elsewhere r, m)

def nobody : (r : Work.Request) → r.Reply
  | .store _ => .error (.refused "")
  | .now => (0 : UInt64)
  | .exchange _ => Grant.Reply.unreachable
  | .consult _ => .ok none
  | .ring _ => false
  | .openRegistry => (0 : Nat)
  | .issue registry => (⟨registry, 0⟩ : Permit)
  | .enroll .. => none
  | .strike .. => false
  | .enrolled _ => []
  | .attempt _ | .sleep _ | .launch _ | .after .. | .every .. | .shut _ | .clear _ => ()

variable (elsewhere : (r : Work.Request) → r.Reply) (m : Memory)

theorem run_scan (start : String) (after : Option String) (limit : Nat) :
    (Work.scan start after limit).run (alone elsewhere) m =
      (some (.ok (scan m start after limit)), m) := rfl

theorem run_get (key : String) :
    (Work.get key).run (alone elsewhere) m = (some (.ok (m.get? key)), m) := rfl

theorem run_put (key : String) (value : Bytes) :
    (Work.put key value).run (alone elsewhere) m = (some (.ok ()), m.insert key value) := rfl

theorem run_now {α : Type} (f : UInt64 → Work α) :
    (Work.now.bind f).run (alone elsewhere) m = (f (elsewhere .now)).run (alone elsewhere) m := rfl

/-- A conditional write goes through when the key holds what is expected. -/
theorem run_compareAndPut {key : String} {held : Bytes} (h : m.get? key = some held) (value : Bytes) :
    (Work.compareAndPut key held value).run (alone elsewhere) m =
      (some (.ok true), m.insert key value) := by
  have hanswer : compareAndPut m key held value = (true, m.insert key value) := if_pos h
  change (some (Except.ok (compareAndPut m key held value).1), (compareAndPut m key held value).2) = _
  rw [hanswer]

end Store.Memory

end Upkeep
