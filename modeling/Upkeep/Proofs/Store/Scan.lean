import Upkeep.Proofs.Table
import Upkeep.Store.Memory

/-!
Scans of a store in memory. The keys are walked in order from the lower end of the scan to the first
key that does not start as asked; since the keys with a common start stand together, what is found
are the keys that qualify, however the cursor compares with the start.
-/

namespace Upkeep.Store

section Monotone

variable {α : Type} {p : α → Bool}

/-- In a list in which `p` never ends once it holds, dropping up to it is filtering. -/
private theorem dropWhile_eq_filter {l : List α} (h : l.Pairwise fun a b => p a → p b) :
    (l.dropWhile fun a => !p a) = l.filter p := by
  induction l with
  | nil => rfl
  | cons a l ih =>
      obtain ⟨ha, hl⟩ := List.pairwise_cons.mp h
      cases hp : p a with
      | false => simpa [hp] using ih hl
      | true =>
          have hall : ∀ b ∈ a :: l, p b := fun b hb => by
            rcases List.mem_cons.mp hb with rfl | hb
            · exact hp
            · exact ha b hb hp
          rw [List.filter_eq_self.mpr hall]
          simp [hp]

/-- In a list in which `p` never begins once it has ended, taking while it holds is filtering. -/
private theorem takeWhile_eq_filter {l : List α} (h : l.Pairwise fun a b => p b → p a) :
    l.takeWhile p = l.filter p := by
  induction l with
  | nil => rfl
  | cons a l ih =>
      obtain ⟨ha, hl⟩ := List.pairwise_cons.mp h
      cases hp : p a with
      | true => simpa [hp] using ih hl
      | false =>
          have hnone : l.filter p = [] := List.filter_eq_nil_iff.mpr fun b hb hpb => by
            have h := ha b hb hpb
            rw [hp] at h
            cases h
          simp [hp, hnone]

end Monotone

private theorem not_append_lt (s r : List Char) : ¬ s ++ r < s := by
  induction s with
  | nil => exact List.not_lt_nil _
  | cons c s ih =>
      intro h
      rcases List.cons_lt_cons_iff.mp h with hlt | ⟨-, hlt⟩
      · exact Std.lt_irrefl hlt
      · exact ih hlt

/-- What stands between a start and something with that start has it too. -/
private theorem isPrefix_of_not_lt_of_lt {s a b : List Char} (hsa : ¬ a < s) (hab : a < b)
    (hsb : s <+: b) : s <+: a := by
  induction s generalizing a b with
  | nil => exact List.nil_prefix
  | cons c s ih =>
      obtain ⟨r, rfl⟩ := hsb
      cases a with
      | nil => exact absurd (List.nil_lt_cons c s) hsa
      | cons d a =>
          rcases List.cons_lt_cons_iff.mp hab with hlt | ⟨rfl, hlt⟩
          · exact absurd (List.cons_lt_cons_iff.mpr (.inl hlt)) hsa
          · have htail : ¬ a < s := fun h => hsa (List.cons_lt_cons_iff.mpr (.inr ⟨rfl, h⟩))
            exact List.cons_prefix_cons.mpr ⟨rfl, ih htail hlt ⟨r, rfl⟩⟩

theorem startsWith_iff {start key : String} :
    startsWith start key = true ↔ start.toList <+: key.toList := List.isPrefixOf_iff_prefix

theorem startsWith_append (start rest : String) : startsWith start (start ++ rest) = true :=
  startsWith_iff.mpr (String.toList_append ▸ List.prefix_append _ _)

theorem le_of_startsWith {start key : String} (h : startsWith start key = true) : start ≤ key := by
  obtain ⟨r, hr⟩ := startsWith_iff.mp h
  refine String.not_lt.mp fun hlt => not_append_lt start.toList r ?_
  rw [hr]
  exact hlt

theorem startsWith_of_le_of_lt {start a b : String} (hsa : start ≤ a) (hab : a < b)
    (hsb : startsWith start b = true) : startsWith start a = true :=
  startsWith_iff.mpr (isPrefix_of_not_lt_of_lt (String.not_lt.mpr hsa) hab (startsWith_iff.mp hsb))

namespace Memory

theorem le_of_isInRange {start key : String} {after : Option String}
    (h : isInRange start after key = true) : start ≤ key := by
  cases after with
  | none => exact of_decide_eq_true h
  | some a =>
      by_cases ha : start ≤ a
      · rw [isInRange, if_pos ha] at h
        exact Std.le_trans ha (Std.le_of_lt (of_decide_eq_true h))
      · rw [isInRange, if_neg ha] at h
        exact of_decide_eq_true h

theorem isInRange_of_lt {start a b : String} {after : Option String} (hab : a < b)
    (h : isInRange start after a = true) : isInRange start after b = true := by
  cases after with
  | none => exact decide_eq_true (Std.le_of_lt (Std.lt_of_le_of_lt (of_decide_eq_true h) hab))
  | some c =>
      by_cases hc : start ≤ c
      · rw [isInRange, if_pos hc] at h ⊢
        exact decide_eq_true (Std.lt_trans (of_decide_eq_true h) hab)
      · rw [isInRange, if_neg hc] at h ⊢
        exact decide_eq_true (Std.le_of_lt (Std.lt_of_le_of_lt (of_decide_eq_true h) hab))

/-- A cursor below the start is no bound for keys with that start. -/
theorem isInRange_eq_isAfter {start key : String} (after : Option String)
    (h : startsWith start key = true) : isInRange start after key = isAfter after key := by
  have hle := le_of_startsWith h
  cases after with
  | none => exact decide_eq_true hle
  | some a =>
      by_cases ha : start ≤ a
      · exact if_pos ha
      · rw [isInRange, if_neg ha, decide_eq_true hle]
        exact (decide_eq_true (Std.lt_of_lt_of_le (Std.not_le.mp ha) hle)).symm

/-- A scan finds the keys that start as asked and come after the cursor, up to its limit. -/
theorem scan_eq {m : Memory} (hm : Table.Ascending m) (start : String) (after : Option String)
    (limit : Nat) :
    scan m start after limit =
      (m.keys.filter fun k => startsWith start k && isAfter after k).take limit := by
  have hkeys : m.keys.Pairwise (· < ·) := Table.ascending_iff_keys.mp hm
  have hdrop : (m.keys.dropWhile fun k => !isInRange start after k) =
      m.keys.filter (isInRange start after) :=
    dropWhile_eq_filter (hkeys.imp fun hab h => isInRange_of_lt hab h)
  have htake : (m.keys.filter (isInRange start after)).takeWhile (startsWith start) =
      (m.keys.filter (isInRange start after)).filter (startsWith start) := by
    refine takeWhile_eq_filter ((hkeys.filter _).imp_of_mem fun ha _ hab hb => ?_)
    exact startsWith_of_le_of_lt (le_of_isInRange (List.mem_filter.mp ha).2) hab hb
  rw [scan, hdrop, htake, List.filter_filter]
  refine congrArg (List.take limit) (List.filter_congr fun k _ => ?_)
  cases h : startsWith start k with
  | false => rfl
  | true => rw [Bool.true_and, Bool.true_and, isInRange_eq_isAfter after h]

theorem filter_isAfter {seen todo : List String} (h : (seen ++ todo).Pairwise (· < ·)) :
    (seen ++ todo).filter (isAfter seen.getLast?) = todo := by
  obtain ⟨hseen, -, hbetween⟩ := List.pairwise_append.mp h
  rw [List.filter_append]
  have hbefore : seen.filter (isAfter seen.getLast?) = [] := by
    refine List.filter_eq_nil_iff.mpr fun k hk => ?_
    rcases seen.eq_nil_or_concat with rfl | ⟨init, last, rfl⟩
    · cases hk
    · rw [List.concat_eq_append] at hseen hk ⊢
      rw [List.getLast?_concat]
      rcases List.mem_append.mp hk with hk | hk
      · have hlt := (List.pairwise_append.mp hseen).2.2 k hk last List.mem_cons_self
        simp only [isAfter, decide_eq_true_eq]
        exact Std.not_gt_of_lt hlt
      · simp [isAfter, List.mem_singleton.mp hk]
  have hafter : todo.filter (isAfter seen.getLast?) = todo := by
    refine List.filter_eq_self.mpr fun k hk => ?_
    cases hlast : seen.getLast? with
    | none => rfl
    | some last => exact decide_eq_true (hbetween last (List.mem_of_getLast? hlast) k hk)
  rw [hbefore, hafter, List.nil_append]

/-- A scan after the keys seen finds those that are to come. -/
theorem scan_rest {m : Memory} (hm : Table.Ascending m) {start : String} {seen todo : List String}
    (hkeys : m.keys.filter (startsWith start) = seen ++ todo) (limit : Nat) :
    scan m start seen.getLast? limit = todo.take limit := by
  have hasc : (seen ++ todo).Pairwise (· < ·) :=
    hkeys ▸ (Table.ascending_iff_keys.mp hm).filter _
  have hfilter : (m.keys.filter fun k => startsWith start k && isAfter seen.getLast? k) = todo := by
    refine Eq.trans ?_ (filter_isAfter hasc)
    rw [← hkeys, List.filter_filter]
    exact List.filter_congr fun k _ => Bool.and_comm _ _
  rw [scan_eq hm, hfilter]

end Memory

end Upkeep.Store
