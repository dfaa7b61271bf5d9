import Upkeep.Proofs.Store.Alone
import Upkeep.Proofs.Store.Memory

/-!
A store in memory that clients share, one call at a time. To be alone with a store is a case of it.
-/

namespace Upkeep

/-- A store in memory that clients share: a call is answered at once, or fails and does nothing.
Whatever else is asked may get any reply. -/
inductive Store.Shared : (r : Work.Request) → Memory → r.Reply → Memory → Prop
  | answered (c : Call) (m : Memory) : Shared (.store c) m (Memory.answer c m).1 (Memory.answer c m).2
  | failed (c : Call) (m : Memory) (e : Error) : Shared (.store c) m (.error e) m
  | elsewhere (r : Work.Request) (m : Memory) (x : r.Reply) (h : ∀ c, r ≠ .store c) : Shared r m x m

namespace Store

theorem Shared.ascending {m m' : Memory} {r : Work.Request} {x : r.Reply} (h : Shared r m x m')
    (hm : Table.Ascending m) : Table.Ascending m' := by
  cases h with
  | answered c => exact Memory.ascending_answer hm c
  | failed | elsewhere => exact hm

theorem Memory.alone_shared (elsewhere : (r : Work.Request) → r.Reply) (r : Work.Request)
    (m : Memory) : Shared r m (alone elsewhere r m).1 (alone elsewhere r m).2 := by
  cases r with
  | store c => exact .answered c m
  | _ => exact .elsewhere _ m _ fun c h => nomatch h

end Store

end Upkeep
