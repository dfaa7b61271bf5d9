import Upkeep.Proofs.Interleaving
import Upkeep.Proofs.Store.Alone

/-!
A store in memory that fails. Any call may be refused, and then does nothing; whether it is may depend
on all calls before it. The calls and their replies are kept in a log. A store that refuses nothing is
one that an errand is alone with.
-/

namespace Upkeep

/-- A call of the store is one request, whose failure is passed on. -/
theorem Work.run_call {σ : Type} (answer : Program.Answers work σ) (c : Store.Call) (s : σ) :
    (Work.call c).run answer s =
      let (reply, s') := answer (.store c) s
      (some (Except.mapError Failure.store reply), s') := by
  cases hturn : answer (.store c) s with
  | mk reply s' =>
      have hask : (Work.ask (.store c)).run answer s = (some reply, s') :=
        congrArg (fun turn : Store.Reply c × σ => (some turn.1, turn.2)) hturn
      rw [Work.call, Program.run_bind, hask]
      cases reply <;> rfl

namespace Store

structure Event where
  call : Call
  reply : Reply call

def Event.error? (e : Event) : Option Error :=
  match e.reply with
  | .ok _ => none
  | .error error => some error

/-- The calls that are refused, given those made before. -/
abbrev Faults := List Event → Call → Option Error

def Faults.none : Faults := fun _ _ => .none

structure Logged where
  memory : Memory
  log : List Event

namespace Logged

def refuse (s : Logged) (c : Call) (error : Error) : Logged :=
  ⟨s.memory, s.log ++ [⟨c, .error error⟩]⟩

def answer (s : Logged) (c : Call) : Logged :=
  ⟨(Memory.answer c s.memory).2, s.log ++ [⟨c, (Memory.answer c s.memory).1⟩]⟩

def failing (faults : Faults) (elsewhere : (r : Work.Request) → r.Reply) :
    Program.Answers work Logged
  | .store c, s =>
    match faults s.log c with
    | some error => (.error error, s.refuse c error)
    | none => ((Memory.answer c s.memory).1, s.answer c)
  | r, s => (elsewhere r, s)

section Run

variable (faults : Faults) (elsewhere : (r : Work.Request) → r.Reply) (s : Logged)

/-- A call is refused, and its errand fails, or it is answered as ever. -/
theorem run_call (c : Call) :
    (Work.call c).run (failing faults elsewhere) s =
      match faults s.log c with
      | some error => (some (.error (.store error)), s.refuse c error)
      | none => (some (Except.mapError Failure.store (Memory.answer c s.memory).1), s.answer c) := by
  rw [Work.run_call]
  cases hfault : faults s.log c with
  | some error =>
      simp only [failing, hfault]
      rfl
  | none => simp only [failing, hfault]

theorem run_scan (start : String) (after : Option String) (limit : Nat) :
    (Work.scan start after limit).run (failing faults elsewhere) s =
      match faults s.log (.scan start after limit) with
      | some error => (some (.error (.store error)), s.refuse (.scan start after limit) error)
      | none => (some (.ok (Memory.scan s.memory start after limit)), s.answer (.scan start after limit)) :=
  run_call faults elsewhere s (.scan start after limit)

theorem run_get (key : String) :
    (Work.get key).run (failing faults elsewhere) s =
      match faults s.log (.get key) with
      | some error => (some (.error (.store error)), s.refuse (.get key) error)
      | none => (some (.ok (s.memory.get? key)), s.answer (.get key)) :=
  run_call faults elsewhere s (.get key)

theorem run_put (key : String) (value : Bytes) :
    (Work.put key value).run (failing faults elsewhere) s =
      match faults s.log (.put key value) with
      | some error => (some (.error (.store error)), s.refuse (.put key value) error)
      | none => (some (.ok ()), s.answer (.put key value)) :=
  run_call faults elsewhere s (.put key value)

theorem run_compareAndPut (key : String) (expected value : Bytes) :
    (Work.compareAndPut key expected value).run (failing faults elsewhere) s =
      match faults s.log (.compareAndPut key expected value) with
      | some error => (some (.error (.store error)), s.refuse (.compareAndPut key expected value) error)
      | none => (some (.ok (Memory.compareAndPut s.memory key expected value).1),
          s.answer (.compareAndPut key expected value)) :=
  run_call faults elsewhere s (.compareAndPut key expected value)

private def call? : Work.Request → Option Call
  | .store c => some c
  | _ => none

private theorem call?_eq_some {r : Work.Request} {c : Call} : call? r = some c ↔ r = .store c := by
  cases r <;> simp [call?]

private theorem run_none {α : Type} (p : Work α) :
    ∃ s', p.run (failing .none elsewhere) s =
        ((p.run (Memory.alone elsewhere) s.memory).1, s') ∧
      s'.memory = (p.run (Memory.alone elsewhere) s.memory).2 ∧
      s'.log.map Event.call =
        s.log.map Event.call ++ (p.trace (Memory.alone elsewhere) s.memory).filterMap call? := by
  induction p generalizing s with
  | done a => exact ⟨s, rfl, rfl, (List.append_nil _).symm⟩
  | abandon => exact ⟨s, rfl, rfl, (List.append_nil _).symm⟩
  | ask r next ih =>
      cases r with
      | store c =>
          obtain ⟨s', hrun, hmemory, hcalls⟩ := ih _ (s.answer c)
          refine ⟨s', hrun, hmemory, ?_⟩
          rw [hcalls, answer, List.map_append, List.append_assoc]
          rfl
      | _ => exact ih _ s

/-- A store that refuses nothing is one that an errand is alone with, and its log has the calls that
the errand makes. -/
theorem run_alone {α : Type} {p : Work α} {m : Memory} {result : Option α} {s : Logged}
    (h : p.run (failing .none elsewhere) ⟨m, []⟩ = (result, s)) :
    p.run (Memory.alone elsewhere) m = (result, s.memory) ∧
      ∀ c, Work.Request.store c ∈ p.trace (Memory.alone elsewhere) m ↔
        c ∈ s.log.map Event.call := by
  obtain ⟨s', hrun, hmemory, hcalls⟩ := run_none elsewhere ⟨m, []⟩ p
  obtain ⟨hresult, rfl⟩ := Prod.mk.inj (h.symm.trans hrun)
  have hlog : s.log.map Event.call = (p.trace (Memory.alone elsewhere) m).filterMap call? := hcalls
  refine ⟨Prod.ext hresult.symm hmemory.symm, fun c => ⟨fun hc => ?_, fun hc => ?_⟩⟩
  · rw [hlog]
    exact List.mem_filterMap.mpr ⟨.store c, hc, rfl⟩
  · rw [hlog] at hc
    obtain ⟨r, hr, hcall⟩ := List.mem_filterMap.mp hc
    exact call?_eq_some.mp hcall ▸ hr

variable {s} in
theorem error?_of_none {α : Type} (p : Work α) (h : ∀ e ∈ s.log, e.error? = none) :
    ∀ e ∈ (p.run (failing .none elsewhere) s).2.log, e.error? = none := by
  have hp : p.Keeps (fun _ _ => True) (fun _ => True) fun _ => True := p.keeps_true
  refine hp.run (fun s : Logged => ∀ e ∈ s.log, e.error? = .none) (fun r s _ hs => ?_) h
  refine ⟨trivial, ?_⟩
  cases r with
  | store c =>
      intro e he
      rcases List.mem_append.mp he with he | he
      · exact hs e he
      · rw [List.mem_singleton.mp he]
        cases c <;> rfl
  | _ => exact hs

end Run

end Logged

end Store

end Upkeep
