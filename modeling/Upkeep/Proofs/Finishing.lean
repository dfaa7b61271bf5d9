import Upkeep.Work

/-!
Runs that come to an end, with all that they ask on the way. A run is followed request by request, and
part by part.
-/

namespace Upkeep

namespace Program

variable {I : Interface} {α β ε σ : Type} {answer : Answers I σ}

/-- A run ends with a result, in a state and after requests that are as `post` says. -/
def Finishes (answer : Answers I σ) : Program I α → σ → (α → σ → List I.Request → Prop) → Prop
  | .done a, s, post => post a s []
  | .ask r next, s, post =>
    (next (answer r s).1).Finishes answer (answer r s).2 fun a s' l => post a s' (r :: l)
  | .abandon, _, _ => False

theorem finishes_iff {p : Program I α} {s : σ} {post : α → σ → List I.Request → Prop} :
    p.Finishes answer s post ↔
      ∃ a s', p.run answer s = (some a, s') ∧ post a s' (p.trace answer s) := by
  induction p generalizing s post with
  | done a =>
      refine ⟨fun h => ⟨a, s, rfl, h⟩, fun ⟨a', s', hrun, h⟩ => ?_⟩
      cases hrun
      exact h
  | ask r next ih => exact ih ..
  | abandon => exact ⟨False.elim, fun ⟨_, _, hrun, _⟩ => nomatch hrun⟩

namespace Finishes

variable {s : σ}

theorem mono {p : Program I α} {post post' : α → σ → List I.Request → Prop}
    (h : p.Finishes answer s post) (hpost : ∀ a s' l, post a s' l → post' a s' l) :
    p.Finishes answer s post' := by
  induction p generalizing s post post' with
  | done a => exact hpost a s [] h
  | ask r next ih => exact ih _ h fun a s' l => hpost a s' (r :: l)
  | abandon => exact h

/-- What a run ends with is what it ends with. -/
theorem exact {p : Program I α} {post : α → σ → List I.Request → Prop}
    (h : p.Finishes answer s post) : p.Finishes answer s fun a s' l =>
      post a s' l ∧ p.run answer s = (some a, s') ∧ l = p.trace answer s := by
  obtain ⟨a, s', hrun, hpost⟩ := finishes_iff.mp h
  exact finishes_iff.mpr ⟨a, s', hrun, hpost, hrun, rfl⟩

theorem bind {p : Program I α} {f : α → Program I β} {post : β → σ → List I.Request → Prop}
    (h : p.Finishes answer s fun a s' l =>
      (f a).Finishes answer s' fun b s'' l' => post b s'' (l ++ l')) :
    (p.bind f).Finishes answer s post := by
  induction p generalizing s post with
  | done a => exact h
  | ask r next ih =>
      change ((next _).bind f).Finishes answer _ fun b s'' l' => post b s'' (r :: l')
      exact ih _ h
  | abandon => exact h

theorem onSuccess {p : Program I (Except ε α)} {f : α → Program I (Except ε β)}
    {post : Except ε β → σ → List I.Request → Prop}
    (h : p.Finishes answer s fun x s' l => match x with
      | .ok a => (f a).Finishes answer s' fun y s'' l' => post y s'' (l ++ l')
      | .error e => post (.error e) s' l) : (p.onSuccess f).Finishes answer s post := by
  refine bind (h.mono fun x s' l hx => ?_)
  cases x with
  | ok a => exact hx
  | error e =>
      change post _ _ (l ++ [])
      rwa [List.append_nil]

end Finishes

end Program

namespace Work

variable {σ α β : Type} {answer : Program.Answers work σ} {s : σ}

theorem finishes_ask {r : Request} {f : r.Reply → Work β} {post : β → σ → List Request → Prop}
    (h : (f (answer r s).1).Finishes answer (answer r s).2 fun b s' l => post b s' (r :: l)) :
    ((ask r).bind f).Finishes answer s post := h

/-- A call of the store is one request; what follows it does so when it is answered. -/
theorem finishes_call {c : Store.Call} {f : c.Answer → Errand β}
    {post : Except Failure β → σ → List Request → Prop}
    (hok : ∀ a s', answer (.store c) s = (.ok a, s') →
      (f a).Finishes answer s' fun y s'' l => post y s'' (.store c :: l))
    (herror : ∀ e s', answer (.store c) s = (.error e, s') →
      post (.error (.store e)) s' [.store c]) :
    ((call c).onSuccess f).Finishes answer s post := by
  rw [call, Program.onSuccess, Program.bind_assoc]
  refine finishes_ask ?_
  cases hturn : answer (.store c) s with
  | mk x s' =>
      cases x with
      | ok a => exact hok a s' hturn
      | error e => exact herror e s' hturn

end Work

end Upkeep
