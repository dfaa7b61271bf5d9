import Upkeep.Proofs.StartSequence
import Upkeep.Proofs.Store.Pager

/-!
A store that answers. It holds a table that nobody else changes, and each call of it does what it is to
do; of a scan no more is asked than that it finds what a scan is to find. An errand that fails only when
the store does succeeds there, if it comes to its end.
-/

namespace Upkeep

namespace Store

section Scans

variable {present : String → Prop} {start : String} {after : Option String} {limit : Nat}
  {page page' : List String}

/-- A scan that is right leaves out no key that another one gives. -/
private theorem Scans.mem_of_mem (h : Scans present start after limit page)
    (h' : Scans present start after limit page') {k : String} (hk : k ∈ page) : k ∈ page' := by
  by_contra hnot
  obtain ⟨hpresent, hstart, hafter⟩ := h.sound k hk
  obtain ⟨hfull, hlt⟩ := h'.complete k hpresent hstart hafter hnot
  -- the other page is full of smaller keys, and for none of them can this one give the greater key
  have hsubset : page' ⊆ page := by
    intro k' hk'
    by_contra hnot'
    obtain ⟨hpresent', hstart', hafter'⟩ := h'.sound k' hk'
    have hlt' := (h.complete k' hpresent' hstart' hafter' hnot').2 k hk
    exact Std.lt_irrefl (Std.lt_trans (hlt k' hk') hlt')
  have hnodup : (k :: page').Nodup :=
    List.nodup_cons.mpr ⟨hnot, h'.ascending.imp Std.ne_of_lt⟩
  have hlength := (hnodup.subperm (List.cons_subset.mpr ⟨hk, hsubset⟩)).length_le
  have hlimit := h.length_le
  rw [List.length_cons, hfull] at hlength
  omega

/-- What a scan is to give is settled by the keys that are there. -/
theorem Scans.unique (h : Scans present start after limit page)
    (h' : Scans present start after limit page') : page = page' := by
  apply List.Pairwise.eq_of_mem_iff h.ascending h'.ascending
  intro k
  exact ⟨h.mem_of_mem h', h'.mem_of_mem h⟩

end Scans

/-- A store that holds a table, answers what it is asked of it, and is changed by nobody else. -/
structure Reliable {σ : Type} (answer : Program.Answers work σ) (held : σ → Memory) : Prop where
  scan : ∀ start after limit s, Table.Ascending (held s) → ∃ (page : List String) (s' : σ),
    answer (.store (.scan start after limit)) s = (.ok page, s') ∧ held s' = held s ∧
      Scans (· ∈ (held s).keys) start after limit page
  get : ∀ key s, ∃ s', answer (.store (.get key)) s = (.ok ((held s).get? key), s') ∧ held s' = held s
  put : ∀ key value s, ∃ s', answer (.store (.put key value)) s = (.ok (), s') ∧
    held s' = (held s).insert key value
  delete : ∀ key s, ∃ s', answer (.store (.delete key)) s = (.ok ((held s).get? key).isSome, s') ∧
    held s' = (held s).erase key

theorem Memory.reliable_alone (elsewhere : (r : Work.Request) → r.Reply) :
    Reliable (alone elsewhere) id where
  scan start after limit m hm := ⟨_, m, rfl, rfl, Memory.scans hm start after limit⟩
  get _ m := ⟨m, rfl, rfl⟩
  put _ _ _ := ⟨_, rfl, rfl⟩
  delete _ _ := ⟨_, rfl, rfl⟩

end Store

open Store

namespace Program

variable {I : Interface} {α : Type} {rely rely' : (r : I.Request) → I.Reply r → Prop}
  {safe safe' : I.Request → Prop}

/-- What follows a success runs from where that leaves off. -/
theorem run_onSuccess_ok {β ε σ : Type} {answer : Answers I σ} {p : Program I (Except ε α)}
    {f : α → Program I (Except ε β)} {s s' : σ} {a : α} (h : p.run answer s = (some (.ok a), s')) :
    (p.onSuccess f).run answer s = (f a).run answer s' := by
  rw [run_onSuccess, h]

/-- What comes to an end under one reliance and keeps to a rule under another does both under both. -/
theorem Completes.and_keeps {post post' : α → Prop} {p : Program I α}
    (hp : p.Completes rely safe post) (hkeeps : p.Keeps rely' safe' post') :
    p.Completes (fun r x => rely r x ∧ rely' r x) safe fun a => post a ∧ post' a := by
  induction p with
  | done a => exact ⟨hp, hkeeps⟩
  | ask r next ih =>
      refine ⟨hp.1, ?_⟩
      intro x hx
      exact ih x (hp.2 x hx.1) (hkeeps.2 x hx.2)
  | abandon => exact hp

end Program

namespace Work

variable {α β : Type}

theorem run_call_of_ok {σ : Type} {answer : Program.Answers work σ} {c : Call} {s s' : σ} {a : c.Answer}
    (h : answer (.store c) s = ((.ok a : Reply c), s')) :
    (call c).run answer s = (some (.ok a), s') := by
  rw [run_call]
  exact congrArg (fun turn : Reply c × σ => (some (Except.mapError Failure.store turn.1), turn.2)) h

def Answered : (r : Request) → r.Reply → Prop
  | .store c, x => ∃ a : c.Answer, x = .ok a
  | _, _ => True

/-- An errand that succeeds, if it comes to its end, as long as the store does not fail. -/
def Succeeds (p : Errand α) : Prop := p.Keeps Answered (fun _ => True) fun x => ∃ a, x = .ok a

theorem succeeds_ok (a : α) : Succeeds (ok a) := ⟨a, rfl⟩

theorem succeeds_call (c : Call) : Succeeds (call c) := by
  refine ⟨trivial, ?_⟩
  intro x hx
  obtain ⟨a, rfl⟩ := hx
  exact ⟨a, rfl⟩

theorem Succeeds.onSuccess {p : Errand α} {f : α → Errand β} (hp : Succeeds p)
    (hf : ∀ a, Succeeds (f a)) : Succeeds (p.onSuccess f) := by
  apply Program.Keeps.bind hp
  intro x hx
  obtain ⟨a, rfl⟩ := hx
  exact hf a

end Work

namespace Store.Reliable

variable {σ α : Type} {answer : Program.Answers work σ} {held : σ → Memory}
  (h : Reliable answer held) {s : σ}

include h

theorem run_get (key : String) : ∃ s', (Work.get key).run answer s =
    (some (.ok ((held s).get? key)), s') ∧ held s' = held s := by
  obtain ⟨s', hanswer, hheld⟩ := h.get key s
  exact ⟨s', Work.run_call_of_ok (c := .get key) hanswer, hheld⟩

theorem run_put (key : String) (value : Bytes) : ∃ s', (Work.put key value).run answer s =
    (some (.ok ()), s') ∧ held s' = (held s).insert key value := by
  obtain ⟨s', hanswer, hheld⟩ := h.put key value s
  exact ⟨s', Work.run_call_of_ok (c := .put key value) hanswer, hheld⟩

theorem run_delete (key : String) : ∃ s', (Work.delete key).run answer s =
    (some (.ok ((held s).get? key).isSome), s') ∧ held s' = (held s).erase key := by
  obtain ⟨s', hanswer, hheld⟩ := h.delete key s
  exact ⟨s', Work.run_call_of_ok (c := .delete key) hanswer, hheld⟩

/-- Whoever looks at the store finds what is in it. -/
theorem look (hm : Table.Ascending (held s)) {r : Work.Request} (hr : r.Looks) :
    Shared r (held s) (answer r s).1 (held s) ∧ Work.Answered r (answer r s).1 ∧
      held (answer r s).2 = held s := by
  cases r with
  | store c =>
      cases c with
      | scan start after limit =>
          obtain ⟨page, s', hanswer, hheld, hscans⟩ := h.scan start after limit s hm
          have hpage := hscans.unique (Memory.scans hm start after limit)
          rw [hanswer, hpage]
          exact ⟨.answered (.scan start after limit) (held s), ⟨_, rfl⟩, hheld⟩
      | get key =>
          obtain ⟨s', hanswer, hheld⟩ := h.get key s
          rw [hanswer]
          exact ⟨.answered (.get key) (held s), ⟨_, rfl⟩, hheld⟩
      | put | compareAndPut | delete => exact hr.elim
  | _ => exact hr.elim

/-- An errand that only looks at the store, and fails only when the store does, comes to its result and
leaves the store as it is. -/
theorem run_looking (hm : Table.Ascending (held s)) {rely : (r : Work.Request) → r.Reply → Prop}
    {post : α → Prop} {p : Errand α} (hp : p.CompletesOk rely Work.Request.Looks post)
    (hsucceeds : Work.Succeeds p)
    (hrely : ∀ r x, Shared r (held s) x (held s) → rely r x) :
    ∃ a s', p.run answer s = (some (.ok a), s') ∧ post a ∧ held s' = held s ∧
      ∀ r ∈ p.trace answer s, r.Looks := by
  have hlook (r : Work.Request) (t : σ) (hr : r.Looks) (ht : held t = held s) :
      (rely r (answer r t).1 ∧ Work.Answered r (answer r t).1) ∧ held (answer r t).2 = held s := by
    obtain ⟨hturn, hanswered, hheld⟩ := h.look (ht ▸ hm) hr
    rw [ht] at hturn hheld
    exact ⟨⟨hrely r _ hturn, hanswered⟩, hheld⟩
  have hfinishes := (Program.Completes.and_keeps hp hsucceeds).finishes
    (fun t => held t = held s) hlook rfl
  obtain ⟨x, s', hrun, ⟨hpost, a, rfl⟩, hheld, hlooks⟩ := Program.finishes_iff.mp hfinishes
  exact ⟨a, s', hrun, hpost a rfl, hheld, hlooks⟩

end Store.Reliable

end Upkeep
