import Upkeep.Program

/-!
Activities side by side. They share surroundings and take turns, one request at a time and in any
order; new ones may join at any moment. What each of them keeps to as long as the others do holds
of every state they can reach.
-/

namespace Upkeep

theorem getElem?_push {α : Type} {l : List α} {i : Nat} {a : α} (h : l[i]? = some a) (b : α) :
    (l ++ [b])[i]? = some a :=
  (List.getElem?_append_left (List.getElem?_eq_some_iff.mp h).1).trans h

theorem getElem?_push_cases {α : Type} {l : List α} {i : Nat} {a b : α}
    (h : (l ++ [b])[i]? = some a) : l[i]? = some a ∨ i = l.length ∧ a = b := by
  rcases Nat.lt_or_ge i l.length with hlt | hge
  · exact .inl ((List.getElem?_append_left hlt).symm.trans h)
  · have hlength := (List.getElem?_eq_some_iff.mp h).1
    rw [List.length_append, List.length_singleton] at hlength
    obtain rfl : i = l.length := Nat.le_antisymm (Nat.le_of_lt_succ hlength) hge
    rw [List.getElem?_concat_length] at h
    exact .inr ⟨rfl, (Option.some.inj h).symm⟩

/-- What stands in a log in this order and ends within its first part stands there. -/
theorem pair_sublist_left {α : Type} {l₁ l₂ : List α} {a b : α} (h : [a, b].Sublist (l₁ ++ l₂))
    (hb : b ∉ l₂) : [a, b].Sublist l₁ := by
  obtain ⟨k₁, k₂, hk, h₁, h₂⟩ := List.sublist_append_iff.mp h
  rcases List.eq_nil_or_concat k₂ with rfl | ⟨k, b', rfl⟩
  · rwa [hk, List.append_nil]
  · change [a] ++ [b] = k₁ ++ k.concat b' at hk
    rw [List.concat_eq_append, ← List.append_assoc] at hk
    obtain rfl : b = b' := by simpa using (List.append_inj' hk rfl).2
    exact absurd (h₂.subset (by simp)) hb

/-- What surroundings with a state may do when a client of kind `κ` asks: the reply, and the state
they are left in. -/
abbrev Surroundings (κ : Type) (I : Interface) (σ : Type) :=
  κ → (r : I.Request) → σ → I.Reply r → σ → Prop

/-- Activities with their kinds, each at what it has still to do, in shared surroundings. -/
structure Pool (κ : Type) (I : Interface) (α σ : Type) where
  state : σ
  running : List (κ × Program I α)

namespace Pool

variable {κ : Type} {I : Interface} {α σ : Type}

inductive Step (env : Surroundings κ I σ) (admitted : κ → Program I α → Prop) :
    Pool κ I α σ → Pool κ I α σ → Prop
  | start {s : σ} {ps : List (κ × Program I α)} {k : κ} {p : Program I α} (h : admitted k p) :
      Step env admitted ⟨s, ps⟩ ⟨s, ps ++ [(k, p)]⟩
  | move {s s' : σ} (before after : List (κ × Program I α)) {k : κ} {r : I.Request}
      {next : I.Reply r → Program I α} {x : I.Reply r} (h : env k r s x s') :
      Step env admitted ⟨s, before ++ (k, .ask r next) :: after⟩
        ⟨s', before ++ (k, next x) :: after⟩

inductive Reachable (env : Surroundings κ I σ) (admitted : κ → Program I α → Prop)
    (start : Pool κ I α σ) : Pool κ I α σ → Prop
  | refl : Reachable env admitted start start
  | step {P Q : Pool κ I α σ} (h : Reachable env admitted start P) (hs : Step env admitted P Q) :
      Reachable env admitted start Q

/-- What holds at first and is kept by every step holds of every pool that is reached. -/
theorem Reachable.invariant {env : Surroundings κ I σ} {admitted : κ → Program I α → Prop}
    {start P : Pool κ I α σ} (inv : Pool κ I α σ → Prop) (h : Reachable env admitted start P)
    (h0 : inv start) (hstep : ∀ P Q, inv P → Step env admitted P Q → inv Q) : inv P := by
  induction h with
  | refl => exact h0
  | step _ hs ih => exact hstep _ _ ih hs

def turn (answer : Program.Answers I σ) (P : Pool κ I α σ) (place : Nat) : Pool κ I α σ :=
  match P.running[place]? with
  | some (k, .ask r next) =>
    ⟨(answer r P.state).2, P.running.set place (k, next (answer r P.state).1)⟩
  | _ => P

theorem Reachable.turn {env : Surroundings κ I σ} {admitted : κ → Program I α → Prop}
    {start P : Pool κ I α σ} (h : Reachable env admitted start P) {answer : Program.Answers I σ}
    (henv : ∀ k r s, env k r s (answer r s).1 (answer r s).2) (place : Nat) :
    Reachable env admitted start (Pool.turn answer P place) := by
  unfold Pool.turn
  split
  next k r next hplace =>
    obtain ⟨hlt, hasks⟩ := List.getElem?_eq_some_iff.mp hplace
    have hsplit : P.running =
        P.running.take place ++ (k, .ask r next) :: P.running.drop (place + 1) := by
      rw [← hasks, ← List.drop_eq_getElem_cons, List.take_append_drop]
    have hmove : Step env admitted
        ⟨P.state, P.running.take place ++ (k, .ask r next) :: P.running.drop (place + 1)⟩
        ⟨(answer r P.state).2,
          P.running.take place ++ (k, next (answer r P.state).1) :: P.running.drop (place + 1)⟩ :=
      .move _ _ (henv k r P.state)
    rw [List.set_eq_take_append_cons_drop, if_pos hlt]
    refine h.step ?_
    rwa [← hsplit] at hmove
  next => exact h

/-- Turns that are answered as the surroundings may. -/
theorem Reachable.turns {env : Surroundings κ I σ} {admitted : κ → Program I α → Prop}
    {start P : Pool κ I α σ} (h : Reachable env admitted start P) {answer : Program.Answers I σ}
    (henv : ∀ k r s, env k r s (answer r s).1 (answer r s).2) (places : List Nat) :
    Reachable env admitted start (places.foldl (Pool.turn answer) P) := by
  induction places generalizing P with
  | nil => exact h
  | cons place places ih => exact ih (h.turn henv place)

end Pool

namespace Program

variable {I : Interface} {α β ε : Type}

/-- As long as the replies are as `rely` says, the requests are `safe` and the result is as `post`
says. -/
def Keeps (rely : (r : I.Request) → I.Reply r → Prop) (safe : I.Request → Prop)
    (post : α → Prop) : Program I α → Prop
  | .done a => post a
  | .ask r next => safe r ∧ ∀ x, rely r x → (next x).Keeps rely safe post
  | .abandon => True

variable {rely : (r : I.Request) → I.Reply r → Prop} {safe : I.Request → Prop}

theorem Keeps.bind {post : α → Prop} {post' : β → Prop} {p : Program I α} {f : α → Program I β}
    (hp : p.Keeps rely safe post) (hf : ∀ a, post a → (f a).Keeps rely safe post') :
    (p.bind f).Keeps rely safe post' := by
  induction p with
  | done a => exact hf a hp
  | ask r next ih => exact ⟨hp.1, fun x hx => ih x (hp.2 x hx)⟩
  | abandon => trivial

theorem keeps_true (p : Program I α) : p.Keeps rely (fun _ => True) fun _ => True := by
  induction p with
  | done a => trivial
  | ask r next ih => exact ⟨trivial, fun x _ => ih x⟩
  | abandon => trivial

theorem Keeps.mono {post post' : α → Prop} {p : Program I α} (hp : p.Keeps rely safe post)
    (h : ∀ a, post a → post' a) : p.Keeps rely safe post' := by
  induction p with
  | done a => exact h a hp
  | ask r next ih => exact ⟨hp.1, fun x hx => ih x (hp.2 x hx)⟩
  | abandon => trivial

theorem Keeps.mono_safe {safe' : I.Request → Prop} {post : α → Prop} {p : Program I α}
    (hp : p.Keeps rely safe post) (h : ∀ r, safe r → safe' r) : p.Keeps rely safe' post := by
  induction p with
  | done a => exact hp
  | ask r next ih => exact ⟨h r hp.1, fun x hx => ih x (hp.2 x hx)⟩
  | abandon => trivial

theorem Keeps.mono_rely {rely' : (r : I.Request) → I.Reply r → Prop} {post : α → Prop}
    {p : Program I α} (hp : p.Keeps rely safe post) (h : ∀ r x, rely' r x → rely r x) :
    p.Keeps rely' safe post := by
  induction p with
  | done a => exact hp
  | ask r next ih => exact ⟨hp.1, fun x hx => ih x (hp.2 x (h r x hx))⟩
  | abandon => trivial

/-- Alone, a program keeps what its surroundings keep as long as it asks what is safe. -/
theorem Keeps.run {σ : Type} {answer : Answers I σ} {post : α → Prop} {p : Program I α}
    (hp : p.Keeps rely safe post) (inv : σ → Prop)
    (hanswer : ∀ r s, safe r → inv s → rely r (answer r s).1 ∧ inv (answer r s).2) {s : σ}
    (hs : inv s) : inv (p.run answer s).2 := by
  induction p generalizing s with
  | done a => exact hs
  | ask r next ih =>
      obtain ⟨hx, hnext⟩ := hanswer r s hp.1 hs
      exact ih _ (hp.2 _ hx) hnext
  | abandon => exact hs

/-- What is asked is safe when whatever is replied can be relied on. -/
theorem Keeps.safe_of_mem_trace {σ : Type} {answer : Answers I σ} {post : α → Prop} {p : Program I α}
    (hp : p.Keeps (fun _ _ => True) safe post) {s : σ} : ∀ r ∈ p.trace answer s, safe r := by
  induction p generalizing s with
  | done a => exact List.forall_mem_nil _
  | ask r next ih => exact List.forall_mem_cons.mpr ⟨hp.1, ih _ (hp.2 _ trivial)⟩
  | abandon => exact List.forall_mem_nil _

def KeepsOk (rely : (r : I.Request) → I.Reply r → Prop) (safe : I.Request → Prop)
    (post : α → Prop) (p : Program I (Except ε α)) : Prop :=
  p.Keeps rely safe fun x => ∀ a, x = .ok a → post a

theorem KeepsOk.onSuccess {post : α → Prop} {post' : β → Prop} {p : Program I (Except ε α)}
    {f : α → Program I (Except ε β)} (hp : p.KeepsOk rely safe post)
    (hf : ∀ a, post a → (f a).KeepsOk rely safe post') :
    (p.onSuccess f).KeepsOk rely safe post' := by
  refine Keeps.bind hp fun x hx => ?_
  cases x with
  | error e => exact fun a h => nomatch h
  | ok a => exact hf a (hx a rfl)

end Program

/-- When every activity admitted keeps to what is safe for its kind, and the surroundings keep their
invariant and reply as relied on to what is safe, the invariant holds in every state that is reached,
and every activity still keeps to it. -/
theorem Pool.Reachable.keepsEach {κ : Type} {I : Interface} {α σ : Type} {env : Surroundings κ I σ}
    {admitted : κ → Program I α → Prop} (rely : κ → (r : I.Request) → I.Reply r → Prop)
    (safe : κ → I.Request → Prop) (inv : σ → Prop)
    (henv : ∀ k r s x s', inv s → safe k r → env k r s x s' → rely k r x ∧ inv s')
    (hadm : ∀ k p, admitted k p → p.Keeps (rely k) (safe k) fun _ => True) {s : σ}
    {P : Pool κ I α σ} (h : Reachable env admitted ⟨s, []⟩ P) (hs : inv s) :
    inv P.state ∧ ∀ q ∈ P.running, q.2.Keeps (rely q.1) (safe q.1) fun _ => True := by
  refine h.invariant (fun P => inv P.state ∧
    ∀ q ∈ P.running, q.2.Keeps (rely q.1) (safe q.1) fun _ => True) ⟨hs, fun q hq => nomatch hq⟩ ?_
  rintro P Q ⟨hinv, hall⟩ hstep
  cases hstep with
  | start ha =>
      refine ⟨hinv, fun q hq => ?_⟩
      rcases List.mem_append.mp hq with hq | hq
      · exact hall q hq
      · rw [List.mem_singleton.mp hq]
        exact hadm _ _ ha
  | @move s s' before after k r next x ha =>
      have hmoved := hall (k, .ask r next) (List.mem_append_right _ List.mem_cons_self)
      obtain ⟨hx, hinv⟩ := henv k r s x s' hinv hmoved.1 ha
      refine ⟨hinv, fun q hq => ?_⟩
      rcases List.mem_append.mp hq with hq | hq
      · exact hall q (List.mem_append_left _ hq)
      · rcases List.mem_cons.mp hq with rfl | hq
        · exact hmoved.2 x hx
        · exact hall q (List.mem_append_right _ (List.mem_cons_of_mem _ hq))

/-- When one rule is kept to by all, whatever their kind. -/
theorem Pool.Reachable.keeps {κ : Type} {I : Interface} {α σ : Type} {env : Surroundings κ I σ}
    {admitted : κ → Program I α → Prop} (rely : (r : I.Request) → I.Reply r → Prop)
    (safe : I.Request → Prop) (inv : σ → Prop)
    (henv : ∀ k r s x s', inv s → safe r → env k r s x s' → rely r x ∧ inv s')
    (hadm : ∀ k p, admitted k p → p.Keeps rely safe fun _ => True) {s : σ} {P : Pool κ I α σ}
    (h : Reachable env admitted ⟨s, []⟩ P) (hs : inv s) : inv P.state :=
  (h.keepsEach (fun _ => rely) (fun _ => safe) inv henv hadm hs).1

end Upkeep
