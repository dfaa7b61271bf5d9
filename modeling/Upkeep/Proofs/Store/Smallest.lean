import Upkeep.Store.Smallest

/-!
The smallest keys of a stream. What is held at any time are the smallest of the keys seen so far, so
what is left at the end does not depend on the order of the stream.
-/

namespace Upkeep.Store.Smallest

theorem push_perm (key : String) (held : List String) : (push key held).Perm (key :: held) := by
  induction held with
  | nil => rfl
  | cons k held ih =>
      by_cases h : k < key
      · rw [push, if_pos h]
      · rw [push, if_neg h]
        exact (ih.cons k).trans (.swap key k held)

theorem push_descending (key : String) {held : List String} (h : held.Pairwise (· ≥ ·)) :
    (push key held).Pairwise (· ≥ ·) := by
  induction held with
  | nil => exact List.pairwise_singleton _ _
  | cons k held ih =>
      obtain ⟨hk, hheld⟩ := List.pairwise_cons.mp h
      by_cases hlt : k < key
      · rw [push, if_pos hlt]
        refine List.pairwise_cons.mpr ⟨fun x hx => ?_, h⟩
        rcases List.mem_cons.mp hx with rfl | hx
        · exact Std.le_of_lt hlt
        · exact Std.le_trans (hk x hx) (Std.le_of_lt hlt)
      · rw [push, if_neg hlt]
        refine List.pairwise_cons.mpr ⟨fun x hx => ?_, ih hheld⟩
        rcases List.mem_cons.mp ((push_perm key held).subset hx) with rfl | hx
        · exact Std.not_lt.mp hlt
        · exact hk x hx

/-- Of the keys `seen`, as many as there is room for are held, and the `rest` is not smaller. -/
structure Holds (limit : Nat) (seen held rest : List String) : Prop where
  descending : held.Pairwise (· ≥ ·)
  perm : (held ++ rest).Perm seen
  length : held.length = min limit seen.length
  smaller : ∀ x ∈ held, ∀ y ∈ rest, x ≤ y

namespace Holds

variable {limit : Nat} {seen held rest : List String}

private theorem perm_add (h : Holds limit seen held rest) (key : String) :
    (held ++ (key :: rest)).Perm (seen ++ [key]) :=
  List.perm_middle.trans ((h.perm.cons key).trans (List.perm_append_singleton key seen).symm)

private theorem length_add (h : Holds limit seen held rest) (hfull : held.length = limit)
    (key : String) : limit = min limit (seen ++ [key]).length := by
  have hlen := h.length
  rw [List.length_append]
  omega

/-- A key for which there is room. -/
theorem push (h : Holds limit seen held []) (hroom : held.length ≠ limit) (key : String) :
    Holds limit (seen ++ [key]) (push key held) [] := by
  have hcount := h.perm.length_eq
  have hlen := h.length
  refine ⟨push_descending key h.descending, ?_, ?_, fun _ _ _ hy => nomatch hy⟩
  · rw [List.append_nil]
    exact (push_perm key held).trans (List.perm_append_comm.trans (h.perm_add key))
  · rw [List.append_nil] at hcount
    rw [(push_perm key held).length_eq, List.length_append, List.length_singleton, List.length_cons]
    omega

/-- A key that is not smaller than those held. -/
theorem skip (h : Holds limit seen held rest) (hfull : held.length = limit) {key : String}
    (hkey : ∀ x ∈ held, x ≤ key) : Holds limit (seen ++ [key]) held (key :: rest) := by
  refine ⟨h.descending, h.perm_add key, hfull.trans (h.length_add hfull key), fun x hx y hy => ?_⟩
  rcases List.mem_cons.mp hy with rfl | hy
  · exact hkey x hx
  · exact h.smaller x hx y hy

/-- A key that is smaller than the largest, whose place it takes. -/
theorem replace {largest key : String} (h : Holds limit seen (largest :: held) rest)
    (hfull : (largest :: held).length = limit) (hlt : key < largest) :
    Holds limit (seen ++ [key]) (Smallest.push key held) (largest :: rest) := by
  obtain ⟨hlargest, hheld⟩ := List.pairwise_cons.mp h.descending
  have hkey : ∀ y ∈ largest :: rest, key ≤ y := fun y hy => by
    rcases List.mem_cons.mp hy with rfl | hy
    · exact Std.le_of_lt hlt
    · exact Std.le_trans (Std.le_of_lt hlt) (h.smaller _ List.mem_cons_self y hy)
  refine ⟨push_descending key hheld, ?_, ?_, fun x hx y hy => ?_⟩
  · refine ((push_perm key held).append_right _).trans (List.Perm.trans ?_ (h.perm_add key))
    exact (@List.perm_middle _ largest (key :: held) rest).trans
      ((@List.perm_middle _ key held rest).symm.cons largest)
  · rw [(push_perm key held).length_eq]
    exact hfull.trans (h.length_add hfull key)
  · rcases List.mem_cons.mp ((push_perm key held).subset hx) with rfl | hx
    · exact hkey y hy
    · rcases List.mem_cons.mp hy with rfl | hy
      · exact hlargest x hx
      · exact h.smaller x (List.mem_cons_of_mem _ hx) y hy

theorem nil (limit : Nat) : Holds limit [] [] [] where
  descending := .nil
  perm := .nil
  length := (Nat.min_zero limit).symm
  smaller := fun _ hx => nomatch hx

theorem offer (h : Holds limit seen held rest) (key : String) :
    ∃ rest', Holds limit (seen ++ [key]) (offer limit held key) rest' := by
  unfold Smallest.offer
  by_cases hfull : held.length = limit
  · rw [if_pos hfull]
    cases held with
    | nil => exact ⟨_, h.skip hfull fun _ hx => nomatch hx⟩
    | cons largest held =>
        dsimp only
        by_cases hlt : key < largest
        · rw [if_pos hlt]
          exact ⟨_, h.replace hfull hlt⟩
        · rw [if_neg hlt]
          refine ⟨_, h.skip hfull fun x hx => ?_⟩
          refine Std.le_trans ?_ (Std.not_lt.mp hlt)
          rcases List.mem_cons.mp hx with rfl | hx
          · exact Std.le_refl _
          · exact (List.pairwise_cons.mp h.descending).1 x hx
  · rw [if_neg hfull]
    -- nothing was left out as long as there was room
    have hrest : rest = [] := by
      have hcount := h.perm.length_eq
      have hlen := h.length
      rw [List.length_append] at hcount
      exact List.eq_nil_of_length_eq_zero (by omega)
    subst hrest
    exact ⟨_, h.push hfull key⟩

theorem foldl (h : Holds limit seen held rest) (keys : List String) :
    ∃ rest', Holds limit (seen ++ keys) (keys.foldl (Smallest.offer limit) held) rest' := by
  induction keys generalizing seen held rest with
  | nil => exact ⟨rest, by rwa [List.append_nil]⟩
  | cons key keys ih =>
      obtain ⟨rest', h'⟩ := h.offer key
      obtain ⟨rest'', h''⟩ := ih h'
      exact ⟨rest'', by rwa [List.append_assoc] at h''⟩

end Holds

private theorem pairwise_mergeSort (keys : List String) :
    (keys.mergeSort (· ≤ ·)).Pairwise (· ≤ ·) := by
  refine (List.pairwise_mergeSort (fun a b c hab hbc => ?_) (fun a b => ?_) keys).imp of_decide_eq_true
  · exact decide_eq_true (Std.le_trans (of_decide_eq_true hab) (of_decide_eq_true hbc))
  · simpa using Std.le_total

/-- The smallest keys of a stream are the first of the same keys in order. -/
theorem select_eq {limit : Nat} {keys sorted : List String} (hperm : keys.Perm sorted)
    (hsorted : sorted.Pairwise (· ≤ ·)) : select limit keys = sorted.take limit := by
  obtain ⟨rest, h⟩ := (Holds.nil limit).foldl keys
  rw [List.nil_append] at h
  rw [select]
  generalize keys.foldl (offer limit) [] = held at h
  have hall : held.reverse ++ rest.mergeSort (· ≤ ·) = sorted := by
    have hle : ∀ a b : String, a ∈ held.reverse ++ rest.mergeSort (· ≤ ·) → b ∈ sorted →
        a ≤ b → b ≤ a → a = b := fun a b _ _ => Std.le_antisymm
    refine List.Perm.eq_of_pairwise hle ?_ hsorted ?_
    · refine List.pairwise_append.mpr ⟨List.pairwise_reverse.mpr h.descending,
        pairwise_mergeSort rest, fun x hx y hy => ?_⟩
      exact h.smaller x (List.mem_reverse.mp hx) y ((List.mergeSort_perm _ _).subset hy)
    · exact ((List.reverse_perm held).append (List.mergeSort_perm rest _)).trans (h.perm.trans hperm)
  have hlen := h.length
  rw [hperm.length_eq] at hlen
  rcases Nat.le_total limit sorted.length with hle | hle
  · rw [← hall, List.take_append_of_le_length (by rw [List.length_reverse]; omega),
      List.take_of_length_le (by rw [List.length_reverse]; omega)]
  · rw [List.take_of_length_le hle, ← hall]
    have hrest : rest = [] := by
      have := h.perm.length_eq
      rw [List.length_append, hperm.length_eq] at this
      exact List.eq_nil_of_length_eq_zero (by omega)
    rw [hrest, List.mergeSort_nil, List.append_nil]

theorem select_zero (keys : List String) : select 0 keys = [] :=
  (select_eq (List.mergeSort_perm keys (· ≤ ·)).symm (pairwise_mergeSort keys)).trans List.take_zero

/-- A key that is the least of a stream comes first, as often as it is there. -/
theorem select_least (limit : Nat) {n : Nat} {key : String} {keys rest : List String}
    (hkeys : keys.Perm (List.replicate n key ++ rest)) (hleast : ∀ k ∈ rest, key ≤ k) :
    ∃ more, select limit keys = (List.replicate n key ++ more).take limit := by
  have hperm := List.mergeSort_perm rest (· ≤ ·)
  refine ⟨rest.mergeSort (· ≤ ·), select_eq (hkeys.trans (hperm.symm.append_left _)) ?_⟩
  refine List.pairwise_append.mpr ⟨?_, pairwise_mergeSort rest, fun a ha b hb => ?_⟩
  · exact List.pairwise_replicate.mpr (.inr (Std.le_refl key))
  · rw [List.eq_of_mem_replicate ha]
    exact hleast b (hperm.subset hb)

end Upkeep.Store.Smallest
