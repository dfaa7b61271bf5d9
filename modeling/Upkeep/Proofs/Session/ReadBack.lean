import Upkeep.Proofs.Faltering

/-!
What is written is read back. A write of a blob reads the row and then writes it, and fails only when
one of the two calls does; the row that it returns is the one that is read from then on.
-/

namespace Upkeep.Rows

open Store

structure Renewed (m : Memory) (d : Did) (b : Blob) (now : UInt64) (r : Record) : Prop where
  did : r.did = d
  blob : r.blob = b
  updatedAt : r.updatedAt = now
  created_before : ∀ prior, Holds m d prior → r.createdAt = prior.createdAt
  created_now : (∀ prior, ¬ Holds m d prior) → r.createdAt = now
  expires_as_before : ∀ prior, Holds m d prior → prior.blob = b → r.expiresAt = prior.expiresAt
  expires_unknown : (∀ prior, Holds m d prior → prior.blob ≠ b) → r.expiresAt = none

def prior? (m : Memory) (d : Did) : Option Record :=
  (m.get? (key d)).bind fun bs => record? (key d, bs)

variable {m : Memory} {d : Did} {b : Blob} {now : UInt64}

theorem prior?_eq_some {r : Record} : prior? m d = some r ↔ Holds m d r := by
  simp only [prior?, Holds, Option.bind_eq_some_iff, record?_eq_some]

theorem renewed : Renewed m d b now (renew d b now (prior? m d)) := by
  cases hprior : prior? m d with
  | none =>
      have hnone (prior : Record) : ¬ Holds m d prior := by
        rw [← prior?_eq_some, hprior]
        exact nofun
      exact {
        did := rfl
        blob := rfl
        updatedAt := rfl
        created_before := fun prior h => absurd h (hnone prior)
        created_now := fun _ => rfl
        expires_as_before := fun prior h => absurd h (hnone prior)
        expires_unknown := fun _ => rfl }
  | some held =>
      have hheld : Holds m d held := prior?_eq_some.mp hprior
      have hsame {prior : Record} (h : Holds m d prior) : held = prior :=
        Option.some.inj (hprior.symm.trans (prior?_eq_some.mpr h))
      exact {
        did := rfl
        blob := rfl
        updatedAt := rfl
        created_before := fun prior h => hsame h ▸ rfl
        created_now := fun hnone => absurd hheld (hnone held)
        expires_as_before := fun prior h hblob => by
          rw [← hsame h] at hblob ⊢
          exact if_pos hblob
        expires_unknown := fun hother => if_neg (hother held hheld) }

inductive Put (s : Logged) (d : Did) (b : Blob) (now : UInt64) : Except Failure Record → Logged → Prop
  | unread (e : Error) : Put s d b now (.error (.store e)) (s.refuse (.get (key d)) e)
  | unwritten (e : Error) : Put s d b now (.error (.store e))
      ((s.answer (.get (key d))).refuse (.put (key d) (renew d b now (prior? s.memory d)).encode) e)
  | written : Put s d b now (.ok (renew d b now (prior? s.memory d)))
      ((s.answer (.get (key d))).answer (.put (key d) (renew d b now (prior? s.memory d)).encode))

namespace Put

variable {s s' : Logged} {x : Except Failure Record} {r : Record}

/-- A write fails when one of its calls does, and they are calls for the row. -/
theorem calls (h : Put s d b now x s') : ∃ events, s'.log = s.log ++ events ∧
    (∀ e ∈ events, e.call = .get (key d) ∨ ∃ r : Record, e.call = .put (key d) r.encode) ∧
      ((∃ f, x = .error f) ↔ ∃ e ∈ events, e.error? ≠ none) := by
  cases h with
  | unread e =>
      refine ⟨[⟨.get (key d), .error e⟩], rfl, ?_, ?_⟩
      · simp
      · simp [Event.error?]
  | unwritten e =>
      refine ⟨[⟨.get (key d), .ok _⟩, ⟨.put (key d) _, .error e⟩], List.append_assoc .., ?_, ?_⟩
      · simp
      · simp [Event.error?]
  | written =>
      refine ⟨[⟨.get (key d), .ok _⟩, ⟨.put (key d) _, .ok ()⟩], List.append_assoc .., ?_, ?_⟩
      · simp
      · simp [Event.error?]

theorem memory_of_error {f : Failure} (h : Put s d b now (.error f) s') : s'.memory = s.memory := by
  cases h with
  | unread e => rfl
  | unwritten e => rfl

theorem memory_of_ok (h : Put s d b now (.ok r) s') :
    s'.memory = s.memory.insert (key d) r.encode := by
  cases h with
  | written => rfl

theorem renewed_of_ok (h : Put s d b now (.ok r) s') : Renewed s.memory d b now r := by
  cases h with
  | written => exact renewed

end Put

section Run

variable (faults : Faults) (elsewhere : (r : Work.Request) → r.Reply)

/-- A write from when the time is known. -/
private theorem run_put_at (s : Logged) (d : Did) (b : Blob) (now : UInt64) :
    ∃ x s', ((Work.get (key d)).onSuccess fun current =>
        let record := renew d b now (current.bind fun bs => record? (key d, bs))
        (Work.put (key d) record.encode).onSuccess fun () => Work.ok record).run
          (Logged.failing faults elsewhere) s = (some x, s') ∧ Put s d b now x s' := by
  rw [Program.run_onSuccess, Logged.run_get]
  cases faults s.log (.get (key d)) with
  | some e => exact ⟨_, _, rfl, .unread e⟩
  | none =>
      dsimp only
      rw [Program.run_onSuccess, Logged.run_put, ← prior?]
      cases faults (s.answer (.get (key d))).log
          (.put (key d) (renew d b now (prior? s.memory d)).encode) with
      | some e => exact ⟨_, _, rfl, .unwritten e⟩
      | none => exact ⟨_, _, rfl, .written⟩

theorem run_put (s : Logged) (d : Did) (b : Blob) :
    ∃ x s', (put d b).run (Logged.failing faults elsewhere) s = (some x, s') ∧
      Put s d b (elsewhere .now) x s' :=
  run_put_at faults elsewhere s d b (elsewhere .now)

theorem run_get {s : Logged} {d : Did} {r : Record}
    (hheld : s.memory.get? (key d) = some r.encode) (hread : faults s.log (.get (key d)) = none) :
    (get d).run (Logged.failing faults elsewhere) s = (some (.ok (some r)), s.answer (.get (key d))) := by
  rw [get, Program.run_onSuccess, Logged.run_get, hread]
  dsimp only
  rw [hheld]
  dsimp only
  rw [Record.decode_encode]
  rfl

/-- A row that is written is read back as it was returned, whatever was there before and whatever else is
in the store. Only a call that fails makes a write fail, and then nothing is written. -/
theorem put_then_get (s : Logged) (d : Did) (b : Blob) :
    ∃ x s' events, (put d b).run (Logged.failing faults elsewhere) s = (some x, s') ∧
      s'.log = s.log ++ events ∧
      (∀ e ∈ events, e.call = .get (key d) ∨ ∃ r : Record, e.call = .put (key d) r.encode) ∧
      ((∃ f, x = .error f) ↔ ∃ e ∈ events, e.error? ≠ none) ∧
      (∀ f, x = .error f → s'.memory = s.memory) ∧
      ∀ r, x = .ok r → Renewed s.memory d b (elsewhere .now) r ∧
        (∀ k, k ≠ key d → s'.memory.get? k = s.memory.get? k) ∧
        (faults s'.log (.get (key d)) = none →
          ((get d).run (Logged.failing faults elsewhere) s').1 = some (.ok (some r))) := by
  obtain ⟨x, s', hrun, hput⟩ := run_put faults elsewhere s d b
  obtain ⟨events, hlog, hcalls, hfails⟩ := hput.calls
  refine ⟨x, s', events, hrun, hlog, hcalls, hfails, ?_, ?_⟩
  · intro f hf
    subst hf
    exact hput.memory_of_error
  · intro r hr
    subst hr
    have hmemory := hput.memory_of_ok
    refine ⟨hput.renewed_of_ok, ?_, ?_⟩
    · intro k hk
      rw [hmemory, Table.get?_insert_of_ne _ _ hk]
    · intro hread
      have hheld : s'.memory.get? (key d) = some r.encode := by
        rw [hmemory, Table.get?_insert_self]
      rw [run_get faults elsewhere hheld hread]

end Run

end Upkeep.Rows
