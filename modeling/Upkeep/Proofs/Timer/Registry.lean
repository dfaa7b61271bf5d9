import Upkeep.Proofs.Table
import Upkeep.Timer.Registry

/-!
What each step of a registry does to the permits it issued. No step makes a withdrawn permit good
again, and nobody enters a registry that is shut.
-/

namespace Upkeep.Registry

variable (r : Registry) (d : Did)

theorem not_permits_of_isShut {r : Registry} (h : r.isShut = true) (serial : Nat) :
    r.permits serial = false := by
  simp [permits, h]

def enter : Registry :=
  { r with issued := r.issued + 1, entered := r.entered.insert d r.issued }

theorem enroll_eq {r : Registry} {d : Did} (hopen : r.isShut = false)
    (hnew : r.entered.get? d = none) : r.enroll d = (some r.issued, r.enter d) := by
  simp [enroll, hopen, hnew, issue, enter]

theorem enroll_refused {r : Registry} {d : Did}
    (h : r.isShut = true ∨ (r.entered.get? d).isSome = true) : r.enroll d = (none, r) := by
  have hif : (r.isShut || (r.entered.get? d).isSome) = true := by simpa using h
  simp only [enroll, hif, if_true]

@[simp] theorem permits_enter (serial : Nat) : (r.enter d).permits serial = r.permits serial := rfl

def leave (serial : Nat) : Registry := { r.withdraw serial with entered := r.entered.erase d }

theorem strike_eq {r : Registry} {d : Did} {serial : Nat} (h : r.entered.get? d = some serial) :
    r.strike d = (true, r.leave d serial) := by
  simp [strike, h, leave]

theorem strike_missing {r : Registry} {d : Did} (h : r.entered.get? d = none) :
    r.strike d = (false, r) := by
  simp [strike, h]

@[simp] theorem permits_leave (serial serial' : Nat) :
    (r.leave d serial).permits serial' = (r.permits serial' && serial' != serial) := by
  by_cases h : serial' = serial <;> simp [permits, leave, withdraw, h]

@[simp] theorem permits_shut (serial : Nat) : r.shut.permits serial = false :=
  not_permits_of_isShut rfl serial

@[simp] theorem permits_clear (serial : Nat) : r.clear.permits serial = r.permits serial := rfl

variable {r d} in
/-- Entering makes no permit good. -/
theorem permits_of_enroll {serial : Nat} (h : (r.enroll d).2.permits serial = true) :
    r.permits serial = true := by
  by_cases hno : r.isShut = true ∨ (r.entered.get? d).isSome = true
  · rwa [enroll_refused hno] at h
  · obtain ⟨hopen, hnew⟩ : r.isShut = false ∧ r.entered.get? d = none := by simpa using hno
    rwa [enroll_eq hopen hnew] at h

variable {r d} in
theorem permits_of_strike {serial : Nat} (h : (r.strike d).2.permits serial = true) :
    r.permits serial = true := by
  cases hd : r.entered.get? d with
  | none => rwa [strike_missing hd] at h
  | some serial' =>
      rw [strike_eq hd, permits_leave] at h
      exact (Bool.and_eq_true_iff.mp h).1

theorem issued_enroll : r.issued ≤ (r.enroll d).2.issued := by
  by_cases hno : r.isShut = true ∨ (r.entered.get? d).isSome = true
  · exact Nat.le_of_eq (by rw [enroll_refused hno])
  · obtain ⟨hopen, hnew⟩ : r.isShut = false ∧ r.entered.get? d = none := by simpa using hno
    rw [enroll_eq hopen hnew]
    exact Nat.le_succ _

variable {r d} in
/-- The permit of whoever enters is the next one. -/
theorem eq_issued_of_enroll {serial : Nat} (h : (r.enroll d).1 = some serial) :
    serial = r.issued := by
  by_cases hno : r.isShut = true ∨ (r.entered.get? d).isSome = true
  · rw [enroll_refused hno] at h
    cases h
  · obtain ⟨hopen, hnew⟩ : r.isShut = false ∧ r.entered.get? d = none := by simpa using hno
    rw [enroll_eq hopen hnew] at h
    exact (Option.some.inj h).symm

theorem issued_strike : (r.strike d).2.issued = r.issued := by
  cases hd : r.entered.get? d with
  | none => rw [strike_missing hd]
  | some serial =>
      rw [strike_eq hd]
      rfl

variable {r d} in
theorem mem_enrolled_of_strike {d' : Did} (h : d' ∈ (r.strike d).2.enrolled) : d' ∈ r.enrolled := by
  cases hin : r.entered.get? d with
  | none => rwa [strike_missing hin] at h
  | some serial =>
      rw [strike_eq hin] at h
      exact Table.mem_keys_of_erase h

/-- A registry in which no two identifiers have the same permit, and no permit is withdrawn before
it is issued. -/
structure Sound : Prop where
  issued : ∀ p ∈ r.entered, p.2 < r.issued
  withdrawn : ∀ serial ∈ r.withdrawn, serial < r.issued
  apart : ∀ p ∈ r.entered, ∀ q ∈ r.entered, p.2 = q.2 → p.1 = q.1

theorem sound_empty : empty.Sound := ⟨(fun _ hp => nomatch hp), (fun _ hp => nomatch hp), fun _ hp => nomatch hp⟩

def Retains (r' : Registry) : Prop :=
  ∀ serial, r.entered.get? d = some serial → r.permits serial = true →
    r'.entered.get? d = some serial ∧ r'.permits serial = true

theorem Retains.refl : r.Retains d r := fun _ hentered hpermits => ⟨hentered, hpermits⟩

theorem retains_issue : r.Retains d r.issue.2 := Retains.refl r d

/-- Entering anybody takes nothing from those who are there already. -/
theorem retains_enroll (d' : Did) : r.Retains d (r.enroll d').2 := by
  intro serial hentered hpermits
  by_cases hno : r.isShut = true ∨ (r.entered.get? d').isSome = true
  · rw [enroll_refused hno]
    exact ⟨hentered, hpermits⟩
  · obtain ⟨hopen, hnew⟩ : r.isShut = false ∧ r.entered.get? d' = none := by simpa using hno
    have hne : d ≠ d' := by
      rintro rfl
      exact Option.some_ne_none _ (hentered.symm.trans hnew)
    rw [enroll_eq hopen hnew]
    exact ⟨(Table.get?_insert_of_ne _ _ hne).trans hentered, hpermits⟩

section Kept

variable {r : Registry} (h : r.Sound) {d d' : Did}

include h

theorem Sound.issue : r.issue.2.Sound :=
  ⟨fun p hp => Nat.lt_succ_of_lt (h.issued p hp),
    fun serial hs => Nat.lt_succ_of_lt (h.withdrawn serial hs), h.apart⟩

theorem Sound.enter : (r.enter d).Sound where
  issued p hp := by
    rcases Table.mem_of_mem_insert hp with rfl | hp
    · exact Nat.lt_succ_self _
    · exact Nat.lt_succ_of_lt (h.issued p hp)
  withdrawn serial hs := Nat.lt_succ_of_lt (h.withdrawn serial hs)
  apart p hp q hq heq := by
    rcases Table.mem_of_mem_insert hp with rfl | hp <;>
      rcases Table.mem_of_mem_insert hq with rfl | hq
    · rfl
    · exact absurd heq (Nat.ne_of_gt (h.issued q hq))
    · exact absurd heq (Nat.ne_of_lt (h.issued p hp))
    · exact h.apart p hp q hq heq

/-- Whoever enters has a permit that is good. -/
theorem Sound.permits_issued (hopen : r.isShut = false) : r.permits r.issued = true := by
  have hnew : r.issued ∉ r.withdrawn := fun hmem => Nat.lt_irrefl _ (h.withdrawn _ hmem)
  simp [permits, hopen, hnew]

theorem Sound.enroll : (r.enroll d).2.Sound := by
  by_cases hno : r.isShut = true ∨ (r.entered.get? d).isSome = true
  · rwa [enroll_refused hno]
  · obtain ⟨hopen, hnew⟩ : r.isShut = false ∧ r.entered.get? d = none := by simpa using hno
    rw [enroll_eq hopen hnew]
    exact h.enter

theorem Sound.strike : (r.strike d).2.Sound := by
  cases hd : r.entered.get? d with
  | none => rwa [strike_missing hd]
  | some serial =>
      rw [strike_eq hd]
      refine ⟨fun p hp => h.issued p (Table.mem_of_mem_erase hp), ?_, fun p hp q hq =>
        h.apart p (Table.mem_of_mem_erase hp) q (Table.mem_of_mem_erase hq)⟩
      intro serial' hs
      rcases List.mem_cons.mp hs with rfl | hs
      · exact h.issued _ (Table.mem_of_get? hd)
      · exact h.withdrawn serial' hs

/-- Striking somebody else out withdraws another permit. -/
theorem Sound.retains_strike (hne : d' ≠ d) : r.Retains d (r.strike d').2 := by
  intro serial hentered hpermits
  cases hd' : r.entered.get? d' with
  | none =>
      rw [strike_missing hd']
      exact ⟨hentered, hpermits⟩
  | some serial' =>
      have hserial : serial ≠ serial' := by
        rintro rfl
        exact hne (h.apart _ (Table.mem_of_get? hd') _ (Table.mem_of_get? hentered) rfl)
      rw [strike_eq hd']
      refine ⟨(Table.get?_erase_of_ne _ hne.symm).trans hentered, ?_⟩
      simp [hpermits, hserial]

end Kept

end Upkeep.Registry
