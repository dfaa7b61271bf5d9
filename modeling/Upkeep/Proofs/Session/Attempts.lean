import Upkeep.Agent
import Upkeep.Proofs.Store.Alone

/-!
How an agent is acquired. The provider is called until it gives a session, a bounded number of times
and at least once, with a pause between one call and the next and none after the last. If no call
gives one, what is reported is what the last call came to.
-/

namespace Upkeep

namespace Program

variable {I : Interface} {α β σ : Type} (answer : Answers I σ) (time : σ → Nat)

def timed : Program I α → σ → List (I.Request × Nat)
  | .done _, _ => []
  | .ask r next, s => (r, time s) :: (next (answer r s).1).timed (answer r s).2
  | .abandon, _ => []

theorem timed_bind (p : Program I α) (f : α → Program I β) (s : σ) :
    (p.bind f).timed answer time s = p.timed answer time s ++
      match p.run answer s with
      | (some a, s') => (f a).timed answer time s'
      | (none, _) => [] := by
  induction p generalizing s with
  | done a => rfl
  | ask r next ih => exact congrArg ((r, time s) :: ·) (ih ..)
  | abandon => rfl

end Program

namespace Agent

def call (provider : Provider) (d : Did) : Errand (Option Session) :=
  (Work.ask (.attempt d)).bind fun _ => provider d

/-- A call and `more` further ones, each a pause after the one before, whatever that came to. The
result is that of the last one. -/
def calls (provider : Provider) (backoff : Duration) (d : Did) :
    (more : Nat) → Errand (Option Session)
  | 0 => call provider d
  | more + 1 =>
    (calls provider backoff d more).bind fun _ =>
      (Work.ask (.sleep backoff)).bind fun _ => call provider d

def verdict : Except Failure (Option Session) → Except (Option String) Session
  | .ok (some s) => .ok s
  | .ok none => .error none
  | .error f => .error (some f.message)

/-- A call has come to its end and given no session. -/
def Misses (x : Option (Except Failure (Option Session))) : Prop :=
  ∃ y, x = some y ∧ ∀ session, y ≠ .ok (some session)

theorem Misses.exists_error {x : Option (Except Failure (Option Session))} (h : Misses x) :
    ∃ y e, x = some y ∧ verdict y = .error e := by
  obtain ⟨y, hy, hno⟩ := h
  rcases y with f | _ | session
  · exact ⟨_, _, hy, rfl⟩
  · exact ⟨_, _, hy, rfl⟩
  · exact absurd rfl (hno session)

variable (provider : Provider) (backoff : Duration) (d : Did)

theorem attempt_eq : attempt provider d = (call provider d).bind fun x => .done (verdict x) := by
  unfold attempt call
  rw [Program.bind_assoc]
  congr 1
  funext _
  congr 1
  funext x
  rcases x with f | _ | session <;> rfl

theorem calls_succ (more : Nat) : calls provider backoff d (more + 1) =
    (call provider d).bind fun _ =>
      (Work.ask (.sleep backoff)).bind fun _ => calls provider backoff d more := by
  induction more with
  | zero => rfl
  | succ more ih =>
      refine (congrArg (Program.bind · fun _ =>
        (Work.ask (.sleep backoff)).bind fun _ => call provider d) ih).trans ?_
      simp only [Program.bind_assoc]
      rfl

variable {σ : Type} {answer : Program.Answers work σ} {time : σ → Nat} {s s' : σ}

section First

variable {x : Except Failure (Option Session)} (hcall : (call provider d).run answer s = (some x, s'))

include hcall

theorem run_calls_succ (more : Nat) : (calls provider backoff d (more + 1)).run answer s =
    (calls provider backoff d more).run answer (answer (.sleep backoff) s').2 := by
  rw [calls_succ, Program.run_bind, hcall]
  rfl

theorem timed_calls_succ (more : Nat) : (calls provider backoff d (more + 1)).timed answer time s =
    (call provider d).timed answer time s ++ (.sleep backoff, time s') ::
      (calls provider backoff d more).timed answer time (answer (.sleep backoff) s').2 := by
  rw [calls_succ, Program.timed_bind, hcall]
  rfl

theorem run_attempt : (attempt provider d).run answer s = (some (verdict x), s') := by
  rw [attempt_eq, Program.run_bind, hcall]
  rfl

theorem timed_attempt :
    (attempt provider d).timed answer time s = (call provider d).timed answer time s := by
  rw [attempt_eq, Program.timed_bind, hcall]
  exact List.append_nil _

end First

variable (time) in
/-- Attempts end with the first call that gives a session, or with the last one. -/
theorem attempts_end {k more : Nat} (hk : k ≤ more) {x : Except Failure (Option Session)}
    (hbefore : ∀ i < k, Misses ((calls provider backoff d i).run answer s).1)
    (hlast : ((calls provider backoff d k).run answer s).1 = some x)
    (hends : k = more ∨ ∃ session, verdict x = .ok session) :
    (attempts provider backoff d more).run answer s =
        (some (verdict x), ((calls provider backoff d k).run answer s).2) ∧
      (attempts provider backoff d more).timed answer time s =
        (calls provider backoff d k).timed answer time s := by
  induction more generalizing s k with
  | zero =>
      obtain rfl := Nat.le_zero.mp hk
      have hcall : (call provider d).run answer s = (some x, ((call provider d).run answer s).2) :=
        Prod.ext hlast rfl
      exact ⟨run_attempt provider d hcall, timed_attempt provider d hcall⟩
  | succ more ih =>
      cases k with
      | zero =>
          have hcall : (call provider d).run answer s = (some x, ((call provider d).run answer s).2) :=
            Prod.ext hlast rfl
          obtain ⟨session, hsession⟩ := hends.resolve_left nofun
          rw [attempts, Program.run_bind, Program.timed_bind, run_attempt provider d hcall,
            timed_attempt provider d hcall, hsession]
          exact ⟨rfl, List.append_nil _⟩
      | succ k =>
          obtain ⟨y, e, hfirst, he⟩ := (hbefore 0 (Nat.succ_pos k)).exists_error
          have hcall : (call provider d).run answer s = (some y, ((call provider d).run answer s).2) :=
            Prod.ext hfirst rfl
          have hrun := run_calls_succ provider backoff d hcall
          obtain ⟨hrest, htimed⟩ := ih (Nat.le_of_succ_le_succ hk)
            (fun i hi => hrun i ▸ hbefore (i + 1) (Nat.succ_lt_succ hi)) (hrun k ▸ hlast)
            (hends.imp_left Nat.succ.inj)
          rw [attempts, Program.run_bind, Program.timed_bind, run_attempt provider d hcall,
            timed_attempt provider d hcall, he, timed_calls_succ provider backoff d hcall, hrun]
          exact ⟨hrest, congrArg (_ ++ _ :: ·) htimed⟩

def lastError : Except Failure (Option Session) → Option String
  | .error f => some f.message
  | .ok _ => none

theorem verdict_of_misses {x : Except Failure (Option Session)} (h : Misses (some x)) :
    verdict x = .error (lastError x) := by
  obtain ⟨y, hy, hno⟩ := h
  cases hy
  rcases x with f | _ | session
  · rfl
  · rfl
  · exact absurd rfl (hno session)

def conclude (retry : Retry) (d : Did) : Except (Option String) Session → Except Unavailable Agent
  | .ok session => .ok ⟨session⟩
  | .error last => .error ⟨d, max retry.maxAttempts 1, last⟩

theorem obtain_eq (retry : Retry) : obtain provider retry d =
    (attempts provider retry.backoff d (retry.maxAttempts - 1)).bind fun x =>
      .done (conclude retry d x) := by
  unfold obtain
  congr 1
  funext x
  cases x <;> rfl

theorem obtain_of_attempts {retry : Retry} {x : Except (Option String) Session}
    {p : Errand (Option Session)}
    (h : (attempts provider retry.backoff d (retry.maxAttempts - 1)).run answer s = (some x, s') ∧
      (attempts provider retry.backoff d (retry.maxAttempts - 1)).timed answer time s =
        p.timed answer time s) :
    (obtain provider retry d).run answer s = (some (conclude retry d x), s') ∧
      (obtain provider retry d).timed answer time s = p.timed answer time s := by
  rw [obtain_eq, Program.run_bind, Program.timed_bind, h.1, h.2]
  exact ⟨rfl, List.append_nil _⟩

/-- Where sleep lasts as long as it is asked for, an agent is acquired by the calls up to the first
that gives a session, or by as many as there may be; each call after the first begins a pause after
the one before it has ended, and the last one is the end of it. -/
theorem obtain_retries
    (hsleep : ∀ span s, time (answer (.sleep span) s).2 = time s + span.toNanos) (retry : Retry)
    (s : σ) :
    let n := max retry.maxAttempts 1
    let made := calls provider retry.backoff d
    let came i := ((made i).run answer s).1
    let state i := ((made i).run answer s).2
    (∀ k session, k < n → (∀ i < k, Misses (came i)) → came k = some (.ok (some session)) →
      (obtain provider retry d).run answer s = (some (.ok ⟨session⟩), state k) ∧
        (obtain provider retry d).timed answer time s = (made k).timed answer time s) ∧
    (∀ x, (∀ i < n, Misses (came i)) → came (n - 1) = some x →
      (obtain provider retry d).run answer s =
          (some (.error ⟨d, n, lastError x⟩), state (n - 1)) ∧
        (obtain provider retry d).timed answer time s = (made (n - 1)).timed answer time s) ∧
    (made 0).timed answer time s =
      (.attempt d, time s) :: (provider d).timed answer time (answer (.attempt d) s).2 ∧
    ∀ i x, came i = some x →
      (made (i + 1)).timed answer time s = (made i).timed answer time s ++
        (.sleep retry.backoff, time (state i)) ::
        (.attempt d, time (state i) + retry.backoff.toNanos) ::
        (provider d).timed answer time
          (answer (.attempt d) (answer (.sleep retry.backoff) (state i)).2).2 := by
  intro n made came state
  have hn : n - 1 = retry.maxAttempts - 1 := by omega
  refine ⟨fun k session hk hbefore hlast => ?_, fun x hmisses hlast => ?_, rfl, fun i x hx => ?_⟩
  · exact obtain_of_attempts provider d
      (attempts_end provider retry.backoff d time (by omega) hbefore hlast (.inr ⟨session, rfl⟩))
  · have hlast' : Misses (some x) := hlast ▸ hmisses (n - 1) (by omega)
    have hends := attempts_end provider retry.backoff d time (Nat.le_of_eq hn)
      (fun i hi => hmisses i (by omega)) hlast (.inl hn)
    rw [verdict_of_misses hlast'] at hends
    exact obtain_of_attempts provider d hends
  · have hrun : (made i).run answer s = (some x, state i) := Prod.ext hx rfl
    change Program.timed answer time ((made i).bind _) s = _
    rw [Program.timed_bind, hrun, ← hsleep]
    rfl

/-- Surroundings with a clock, in nanoseconds, and what each call of a provider elsewhere is to take
and to come to. -/
def scripted : Program.Answers work (Nat × List (Nat × Except Failure (Option Session)))
  | .sleep span, (instant, script) => ((), instant + span.toNanos, script)
  | .consult _, (instant, (span, x) :: script) => (x, instant + span, script)
  | r, s => (Store.Memory.nobody r, s)

/-- Three calls and two pauses until a session is there, and one call that fails. -/
theorem obtain_retries_scripted :
    let d : Did := ⟨"did:a:b", by decide⟩
    let session : Session := ⟨d, ⟨"\x7b\x7d"⟩⟩
    let provider : Provider := fun d => Work.ask (.consult d)
    let script : List (Nat × Except Failure (Option Session)) :=
      [(2000000000, .error (.reported ["restore", "reset"])), (1000000000, .ok none),
        (0, .ok (some session))]
    (∀ span s, (scripted (.sleep span) s).2.1 = s.1 + span.toNanos) ∧
      (obtain provider ⟨3, .ofSeconds 1⟩ d).run scripted (0, script) =
        (some (.ok ⟨session⟩), 5000000000, []) ∧
      ((obtain provider ⟨3, .ofSeconds 1⟩ d).timed scripted Prod.fst (0, script)).map Prod.snd =
        [0, 0, 2000000000, 3000000000, 3000000000, 4000000000, 5000000000, 5000000000] ∧
      ((obtain provider ⟨0, .ofSeconds 1⟩ d).run scripted (0, script)).1 =
        some (.error ⟨d, 1, some "restore: reset"⟩) := by
  intro d session provider script
  have hsleep : ∀ span s, (scripted (.sleep span) s).2.1 = s.1 + span.toNanos := fun _ _ => rfl
  have hready := (obtain_retries provider d hsleep ⟨3, .ofSeconds 1⟩ (0, script)).1 2 session
    (by decide)
    (fun i hi => by
      match i, hi with
      | 0, _ => exact ⟨_, rfl, nofun⟩
      | 1, _ => exact ⟨_, rfl, nofun⟩)
    rfl
  have hmissed := (obtain_retries provider d hsleep ⟨0, .ofSeconds 1⟩ (0, script)).2.1
    (.error (.reported ["restore", "reset"]))
    (fun i hi => by
      obtain rfl : i = 0 := Nat.lt_one_iff.mp hi
      exact ⟨_, rfl, nofun⟩)
    rfl
  refine ⟨hsleep, hready.1.trans (Prod.ext rfl (Prod.ext ?_ rfl)), ?_, ?_⟩
  · decide +kernel
  · rw [hready.2]
    decide +kernel
  · have hreported : lastError (.error (.reported ["restore", "reset"])) = some "restore: reset" := by
      decide +kernel
    rw [hmissed.1, hreported]
    rfl

end Agent

end Upkeep
