/-!
Activities as data. A program is a tree of requests: each says what it asks of its
surroundings and how it goes on with each reply. The same tree is run to its end in a given
state, stopped after any request, or interleaved with others; nothing about it depends on who
answers. A program may also end without a result: when a budget runs out or its task dies.
-/

namespace Upkeep

/-- What may be asked, and the type of the reply to each request. -/
structure Interface where
  Request : Type
  Reply : Request → Type

inductive Program (I : Interface) (α : Type) where
  | done (a : α)
  | ask (r : I.Request) (next : I.Reply r → Program I α)
  | abandon

namespace Program

variable {I : Interface} {α β γ σ : Type}

/-- One request, whose reply is the result. -/
def request (r : I.Request) : Program I (I.Reply r) := .ask r .done

def bind (p : Program I α) (f : α → Program I β) : Program I β :=
  match p with
  | .done a => f a
  | .ask r next => .ask r fun x => (next x).bind f
  | .abandon => .abandon

instance : Monad (Program I) where
  pure := .done
  bind := bind

@[simp] theorem pure_eq (a : α) : (pure a : Program I α) = .done a := rfl

@[simp] theorem bind_eq (p : Program I α) (f : α → Program I β) : p >>= f = p.bind f := rfl

@[simp] theorem bind_done (a : α) (f : α → Program I β) : (Program.done a : Program I α).bind f = f a :=
  rfl

theorem bind_ask (r : I.Request) (next : I.Reply r → Program I α) (f : α → Program I β) :
    (Program.ask r next).bind f = .ask r fun x => (next x).bind f := rfl

@[simp] theorem bind_abandon (f : α → Program I β) : (Program.abandon : Program I α).bind f = .abandon :=
  rfl

theorem bind_pure (p : Program I α) : p.bind .done = p := by
  induction p with
  | done a => rfl
  | ask r next ih => simp [bind_ask, ih]
  | abandon => rfl

theorem bind_assoc (p : Program I α) (f : α → Program I β) (g : β → Program I γ) :
    (p.bind f).bind g = p.bind fun a => (f a).bind g := by
  induction p with
  | done a => rfl
  | ask r next ih => simp [bind_ask, ih]
  | abandon => rfl

/-- Surroundings with a state: what each request does to it and replies. -/
abbrev Answers (I : Interface) (σ : Type) := (r : I.Request) → σ → I.Reply r × σ

/-- Runs a program to its end. The result is missing if the program ends without one. -/
def run (answer : Answers I σ) : Program I α → σ → Option α × σ
  | .done a, s => (some a, s)
  | .ask r next, s =>
    let (x, s') := answer r s
    (next x).run answer s'
  | .abandon, s => (none, s)

@[simp] theorem run_done (answer : Answers I σ) (a : α) (s : σ) :
    (Program.done a : Program I α).run answer s = (some a, s) := rfl

@[simp] theorem run_abandon (answer : Answers I σ) (s : σ) :
    (Program.abandon : Program I α).run answer s = (none, s) := rfl

theorem run_ask (answer : Answers I σ) (r : I.Request) (next : I.Reply r → Program I α) (s : σ) :
    (Program.ask r next).run answer s = (next (answer r s).1).run answer (answer r s).2 := rfl

theorem run_bind (answer : Answers I σ) (p : Program I α) (f : α → Program I β) (s : σ) :
    (p.bind f).run answer s =
      match p.run answer s with
      | (some a, s') => (f a).run answer s'
      | (none, s') => (none, s') := by
  induction p generalizing s with
  | done a => rfl
  | ask r next ih => simp only [bind_ask, run_ask, ih]
  | abandon => rfl

/-- Goes on with a result, and passes a failure through. -/
def onSuccess {ε : Type} (p : Program I (Except ε α)) (f : α → Program I (Except ε β)) :
    Program I (Except ε β) :=
  p.bind fun
    | .ok a => f a
    | .error e => .done (.error e)

theorem run_onSuccess {ε : Type} (answer : Answers I σ) (p : Program I (Except ε α))
    (f : α → Program I (Except ε β)) (s : σ) :
    (p.onSuccess f).run answer s =
      match p.run answer s with
      | (some (.ok a), s') => (f a).run answer s'
      | (some (.error e), s') => (some (.error e), s')
      | (none, s') => (none, s') := by
  rw [onSuccess, run_bind]
  rcases p.run answer s with ⟨_ | _ | a, s'⟩ <;> rfl

/-- The requests of a run, in order. -/
def trace (answer : Answers I σ) : Program I α → σ → List I.Request
  | .done _, _ => []
  | .ask r next, s =>
    let (x, s') := answer r s
    r :: (next x).trace answer s'
  | .abandon, _ => []

theorem trace_bind (answer : Answers I σ) (p : Program I α) (f : α → Program I β) (s : σ) :
    (p.bind f).trace answer s = p.trace answer s ++
      match p.run answer s with
      | (some a, s') => (f a).trace answer s'
      | (none, _) => [] := by
  induction p generalizing s with
  | done a => rfl
  | ask r next ih => exact congrArg (r :: ·) (ih ..)
  | abandon => rfl

end Program

end Upkeep
