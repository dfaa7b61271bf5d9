import Upkeep.Time.Calendar

/-!
The calendar read back. A count of days is a date that exists, and that date is as many days from
the first day as were counted.
-/

namespace Upkeep.Calendar

/-- A year has as many days as its months. -/
theorem daysBefore_succ (year : Nat) :
    daysBefore (year + 1) = daysBefore year + (monthLengths year).foldr (· + ·) 0 := by
  have hsum : (monthLengths year).foldr (· + ·) 0 = if isLeap year then 366 else 365 := by
    unfold monthLengths
    split <;> rfl
  have h4 : (year + 1 + 3) / 4 = (year + 3) / 4 + if year % 4 = 0 then 1 else 0 := by
    split <;> omega
  have h100 : (year + 1 + 99) / 100 = (year + 99) / 100 + if year % 100 = 0 then 1 else 0 := by
    split <;> omega
  have h400 : (year + 1 + 399) / 400 = (year + 399) / 400 + if year % 400 = 0 then 1 else 0 := by
    split <;> omega
  have hroom : (year + 99) / 100 ≤ 365 * year := by omega
  rw [hsum]
  unfold daysBefore isLeap
  rw [h4, h100, h400]
  generalize (year + 3) / 4 = a at *
  generalize (year + 99) / 100 = b at *
  generalize (year + 399) / 400 = c at *
  by_cases hk4 : year % 4 = 0 <;> by_cases hk100 : year % 100 = 0 <;>
    by_cases hk400 : year % 400 = 0 <;> simp [hk4, hk100, hk400] <;> omega

theorem le_of_exists {d : Date} (h : exists? d = true) : d.month ≤ 12 ∧ d.day ≤ 31 := by
  simp only [exists?, Bool.and_eq_true, decide_eq_true_eq] at h
  obtain ⟨⟨hmonth, hday⟩, hle⟩ := h
  cases hlength : (monthLengths d.year)[d.month - 1]? with
  | none =>
      rw [hlength] at hle
      exact absurd (Nat.le_trans hday hle) (by decide)
  | some length =>
      rw [hlength] at hle
      have hlt : d.month - 1 < 12 := (List.getElem?_eq_some_iff.mp hlength).1
      have hall : (monthLengths d.year).all (· ≤ 31) = true := by
        unfold monthLengths
        split <;> rfl
      have hmax := List.all_eq_true.mp hall length (List.mem_of_getElem? hlength)
      exact ⟨by omega, Nat.le_trans hle (of_decide_eq_true hmax)⟩

theorem daysBefore_mono {year year' : Nat} (h : year ≤ year') : daysBefore year ≤ daysBefore year' := by
  induction h with
  | refl => exact Nat.le_refl _
  | step _ ih => exact Nat.le_trans ih (daysBefore_succ _ ▸ Nat.le_add_right _ _)

/-- A day lies in its year. The year is guessed from the mean length of years, and the guess is
wrong by one at most. -/
theorem yearOf_spec (days : Nat) :
    daysBefore (yearOf days) ≤ days ∧ days < daysBefore (yearOf days + 1) := by
  unfold yearOf
  generalize hguess : days * 400 / 146097 = guess
  have hbefore : daysBefore (guess - 1) ≤ days := by
    unfold daysBefore
    omega
  have hafter : days < daysBefore (guess + 2) := by
    unfold daysBefore
    omega
  dsimp only
  split
  next h =>
    have hpos : guess ≠ 0 := fun hzero => by
      rw [hzero] at h
      exact absurd h (Nat.not_lt_zero days)
    rw [Nat.sub_add_cancel (Nat.one_le_iff_ne_zero.mpr hpos)]
    exact ⟨hbefore, h⟩
  next h =>
    split
    next h' => exact ⟨h', hafter⟩
    next h' => exact ⟨Nat.le_of_not_lt h, Nat.lt_of_not_le h'⟩

/-- A day within months is a day of one of them, after all the days of those before it. -/
theorem monthOf_spec {lengths : List Nat} {days : Nat} (h : days < lengths.foldr (· + ·) 0) (first : Nat) :
    ∃ i length, lengths[i]? = some length ∧ (monthOf lengths first days).1 = first + i ∧
      1 ≤ (monthOf lengths first days).2 ∧ (monthOf lengths first days).2 ≤ length ∧
      (lengths.take i).foldr (· + ·) 0 + ((monthOf lengths first days).2 - 1) = days := by
  induction lengths generalizing first days with
  | nil => exact absurd h (Nat.not_lt_zero days)
  | cons length rest ih =>
      unfold monthOf
      split
      next hlt => exact ⟨0, length, rfl, rfl, by simp, hlt, by simp⟩
      next hge =>
        rw [List.foldr_cons] at h
        have hrest : days - length < rest.foldr (· + ·) 0 := by omega
        obtain ⟨i, length', hi, hmonth, hpos, hle, hsum⟩ := ih hrest (first + 1)
        refine ⟨i + 1, length', hi, by omega, hpos, hle, ?_⟩
        rw [List.take_succ_cons, List.foldr_cons]
        omega

/-- What `ofDays` makes of a day: a date that exists, as many days from the first day. -/
theorem ofDays_spec (days : Nat) : exists? (ofDays days) = true ∧ toDays (ofDays days) = days := by
  obtain ⟨hfrom, hto⟩ := yearOf_spec days
  rw [daysBefore_succ] at hto
  obtain ⟨i, length, hi, hmonth, hpos, hle, hsum⟩ :=
    monthOf_spec (Nat.sub_lt_left_of_lt_add hfrom hto) 1
  have hdate : ofDays days = ⟨yearOf days, 1 + i,
      (monthOf (monthLengths (yearOf days)) 1 (days - daysBefore (yearOf days))).2⟩ := by
    rw [← hmonth]
    rfl
  rw [hdate]
  generalize (monthOf (monthLengths (yearOf days)) 1 (days - daysBefore (yearOf days))).2 = day at *
  refine ⟨by simp [exists?, hi, hpos, hle], ?_⟩
  rw [toDays, Nat.add_sub_cancel_left, Nat.add_assoc, hsum, Nat.add_sub_cancel' hfrom]

/-- The year of a day that comes before the first day of a year. -/
theorem year_ofDays_lt {days year : Nat} (h : days < daysBefore year) : (ofDays days).year < year :=
  Nat.lt_of_not_le fun hle =>
    Nat.not_lt.mpr (Nat.le_trans (daysBefore_mono hle) (yearOf_spec days).1) h

end Upkeep.Calendar
