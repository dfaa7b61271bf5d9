import Upkeep.Table

/-!
Tables under insertion and removal. Looking a key up depends on the last insertion of that key
only, in any table; order matters where a key is removed, and where two tables are compared.
-/

namespace Upkeep.Table

variable {κ α β : Type}

section Lookup

variable [DecidableEq κ]

theorem mem_of_get? {t : Table κ α} {k : κ} {v : α} (h : t.get? k = some v) : (k, v) ∈ t := by
  induction t with
  | nil => simp at h
  | cons p t ih =>
      obtain ⟨k', v'⟩ := p
      by_cases hk : k = k'
      · have hv : v' = v := by simpa [get?, hk] using h
        rw [hk, hv]
        exact List.mem_cons_self
      · exact List.mem_cons_of_mem _ (ih (by simpa [get?, hk] using h))

theorem get?_eq_none_iff {t : Table κ α} {k : κ} : t.get? k = none ↔ k ∉ t.keys := by
  induction t with
  | nil => simp
  | cons p t ih => by_cases hk : k = p.1 <;> simp [get?, hk, ih]

theorem mem_keys_iff {t : Table κ α} {k : κ} : k ∈ t.keys ↔ (t.get? k).isSome = true := by
  cases hk : t.get? k with
  | none => simpa using get?_eq_none_iff.mp hk
  | some v => exact iff_of_true (List.mem_map_of_mem (f := Prod.fst) (mem_of_get? hk)) rfl

def mapValues (f : α → β) (t : Table κ α) : Table κ β := t.map fun p => (p.1, f p.2)

theorem get?_mapValues (f : α → β) (t : Table κ α) (k : κ) :
    (mapValues f t).get? k = (t.get? k).map f := by
  induction t with
  | nil => rfl
  | cons p t ih =>
      by_cases hk : k = p.1
      · simp [mapValues, get?, hk]
      · simpa [mapValues, get?, hk] using ih

theorem get?_erase_of_ne (t : Table κ α) {k k' : κ} (h : k' ≠ k) :
    (t.erase k).get? k' = t.get? k' := by
  induction t with
  | nil => rfl
  | cons p t ih =>
      by_cases hk : k = p.1
      · subst hk
        simp [erase, get?, h]
      · by_cases hk' : k' = p.1 <;> simp [erase, get?, hk, hk', ih]

theorem erase_of_not_mem {t : Table κ α} {k : κ} (h : k ∉ t.keys) : t.erase k = t := by
  induction t with
  | nil => rfl
  | cons p t ih =>
      have hk : k ≠ p.1 := fun e => h (e ▸ List.mem_cons_self)
      rw [erase, if_neg hk, ih fun hmem => h (List.mem_cons_of_mem _ hmem)]

theorem mem_of_mem_erase {t : Table κ α} {k : κ} {p : κ × α} (h : p ∈ t.erase k) : p ∈ t := by
  induction t with
  | nil => simp [erase] at h
  | cons q t ih =>
      by_cases hk : k = q.1
      · exact List.mem_cons_of_mem _ (by simpa [erase, hk] using h)
      · rcases List.mem_cons.mp (by simpa [erase, hk] using h) with rfl | h
        · exact List.mem_cons_self
        · exact List.mem_cons_of_mem _ (ih h)

theorem mem_keys_of_erase {t : Table κ α} {k k' : κ} (h : k' ∈ (t.erase k).keys) : k' ∈ t.keys := by
  obtain ⟨p, hp, rfl⟩ := List.mem_map.mp h
  exact List.mem_map_of_mem (mem_of_mem_erase hp)

end Lookup

section Insertion

variable [DecidableEq κ] [LT κ] [DecidableLT κ]

theorem get?_insert (t : Table κ α) (k k' : κ) (v : α) :
    (t.insert k v).get? k' = if k' = k then some v else t.get? k' := by
  induction t with
  | nil => rfl
  | cons p t ih =>
      by_cases hlt : k < p.1
      · simp [insert, hlt, get?]
      · by_cases hk : k = p.1
        · subst hk
          by_cases hk' : k' = p.1 <;> simp [insert, hlt, get?, hk']
        · by_cases hk' : k' = p.1
          · have hne : p.1 ≠ k := fun e => hk e.symm
            simp [insert, hlt, hk, get?, hk', hne]
          · simp [insert, hlt, hk, get?, hk', ih]

theorem get?_insert_self (t : Table κ α) (k : κ) (v : α) : (t.insert k v).get? k = some v := by
  rw [get?_insert, if_pos rfl]

theorem get?_insert_of_ne (t : Table κ α) {k k' : κ} (v : α) (h : k' ≠ k) :
    (t.insert k v).get? k' = t.get? k' := by
  rw [get?_insert, if_neg h]

theorem mem_keys_insert {t : Table κ α} {k k' : κ} {v : α} :
    k' ∈ (t.insert k v).keys ↔ k' = k ∨ k' ∈ t.keys := by
  rw [mem_keys_iff, get?_insert, mem_keys_iff]
  split
  next h => simp [h]
  next h => simp [h]

theorem insert_insert_self [Std.Irrefl (α := κ) (· < ·)] (t : Table κ α) (k : κ) (v w : α) :
    (t.insert k v).insert k w = t.insert k w := by
  induction t with
  | nil => simp [insert, Std.lt_irrefl]
  | cons p t ih =>
      by_cases hlt : k < p.1
      · simp [insert, hlt, Std.lt_irrefl]
      · by_cases hk : k = p.1
        · subst hk
          simp [insert, Std.lt_irrefl]
        · simp [insert, hlt, hk, ih]

theorem insert_perm {t : Table κ α} {k : κ} (h : k ∉ t.keys) (v : α) :
    (t.insert k v).Perm ((k, v) :: t) := by
  induction t with
  | nil => simp [insert]
  | cons p t ih =>
      have hk : k ≠ p.1 := fun e => h (e ▸ List.mem_cons_self)
      by_cases hlt : k < p.1
      · simp [insert, hlt]
      · rw [insert, if_neg hlt, if_neg hk]
        exact ((ih fun hmem => h (List.mem_cons_of_mem _ hmem)).cons p).trans (List.Perm.swap ..)

theorem filter_insert_new {t : Table κ α} [∀ p, Decidable (p ∉ t)] {k : κ} (h : k ∉ t.keys) (v : α) :
    (t.insert k v).filter (fun p => p ∉ t) = [(k, v)] := by
  have hnew : (k, v) ∉ t := fun hmem => h (List.mem_map_of_mem hmem)
  refine List.perm_singleton.mp (((insert_perm h v).filter _).trans ?_)
  rw [List.filter_cons_of_pos (by simpa using hnew), List.filter_eq_nil_iff.mpr (by simp)]

theorem mem_of_mem_insert {t : Table κ α} {k : κ} {v : α} {p : κ × α} (h : p ∈ t.insert k v) :
    p = (k, v) ∨ p ∈ t := by
  induction t with
  | nil => exact .inl (by simpa [insert] using h)
  | cons q t ih =>
      by_cases hlt : k < q.1
      · simpa [insert, hlt] using h
      · by_cases hk : k = q.1
        · rw [insert, if_neg hlt, if_pos hk] at h
          exact (List.mem_cons.mp h).imp_right (List.mem_cons_of_mem _)
        · rcases List.mem_cons.mp (by simpa [insert, hlt, hk] using h) with rfl | h
          · exact .inr List.mem_cons_self
          · exact (ih h).imp_right (List.mem_cons_of_mem _)

end Insertion

section Order

variable [DecidableEq κ] [LT κ]

omit [DecidableEq κ] in
theorem ascending_iff_keys {t : Table κ α} : t.Ascending ↔ t.keys.Pairwise (· < ·) :=
  List.pairwise_map.symm

omit [DecidableEq κ] in
theorem Ascending.of_keys_eq {t t' : Table κ α} (h : t.Ascending) (hkeys : t'.keys = t.keys) :
    t'.Ascending :=
  ascending_iff_keys.mpr (hkeys ▸ ascending_iff_keys.mp h)

theorem ascending_erase {t : Table κ α} (k : κ) (h : t.Ascending) : (t.erase k).Ascending := by
  induction t with
  | nil => exact h
  | cons p t ih =>
      obtain ⟨hp, ht⟩ := List.pairwise_cons.mp h
      by_cases hk : k = p.1
      · rw [erase, if_pos hk]
        exact ht
      · rw [erase, if_neg hk]
        exact List.pairwise_cons.mpr ⟨fun q hq => hp q (mem_of_mem_erase hq), ih ht⟩

theorem get?_erase_self [Std.Irrefl (α := κ) (· < ·)] {t : Table κ α} (k : κ)
    (h : t.Ascending) : (t.erase k).get? k = none := by
  induction t with
  | nil => rfl
  | cons p t ih =>
      obtain ⟨hp, ht⟩ := List.pairwise_cons.mp h
      by_cases hk : k = p.1
      · rw [erase, if_pos hk]
        refine get?_eq_none_iff.mpr fun hmem => ?_
        obtain ⟨q, hq, e⟩ := List.mem_map.mp hmem
        exact Std.lt_irrefl (e ▸ hk ▸ hp q hq)
      · rw [erase, if_neg hk, get?, if_neg hk]
        exact ih ht

omit [DecidableEq κ] in
theorem nodup_keys [Std.Irrefl (α := κ) (· < ·)] {t : Table κ α} (h : t.Ascending) :
    t.keys.Nodup := by
  refine (ascending_iff_keys.mp h).imp fun hlt e => ?_
  rw [e] at hlt
  exact Std.lt_irrefl hlt

omit [DecidableEq κ] in
/-- A key stands in a table once. -/
theorem eq_of_mem [Std.Irrefl (α := κ) (· < ·)] {t : Table κ α} (h : t.Ascending) {p q : κ × α}
    (hp : p ∈ t) (hq : q ∈ t) (hk : p.1 = q.1) : p = q := by
  induction t with
  | nil => cases hp
  | cons r t ih =>
      obtain ⟨hr, ht⟩ := List.pairwise_cons.mp h
      rcases List.mem_cons.mp hp with rfl | hpt <;> rcases List.mem_cons.mp hq with rfl | hqt
      · rfl
      · exact absurd (hk ▸ hr q hqt) Std.lt_irrefl
      · exact absurd (hk ▸ hr p hpt) Std.lt_irrefl
      · exact ih ht hpt hqt

theorem get?_of_mem [Std.Irrefl (α := κ) (· < ·)] {t : Table κ α} (h : t.Ascending) {k : κ} {v : α}
    (hmem : (k, v) ∈ t) : t.get? k = some v := by
  cases hget : t.get? k with
  | none => exact absurd (List.mem_map_of_mem hmem) (get?_eq_none_iff.mp hget)
  | some w => rw [show v = w from congrArg Prod.snd (eq_of_mem h hmem (mem_of_get? hget) rfl)]

variable [DecidableLT κ]

/-- Inserting a key that is there changes its value in place. -/
theorem insert_of_mem [Std.Irrefl (α := κ) (· < ·)] [Std.Asymm (α := κ) (· < ·)]
    {t : Table κ α} {k : κ} (v : α) (h : t.Ascending) (hk : k ∈ t.keys) :
    t.insert k v = t.map fun p => if p.1 = k then (k, v) else p := by
  induction t with
  | nil => cases hk
  | cons p t ih =>
      obtain ⟨hp, ht⟩ := List.pairwise_cons.mp h
      by_cases hkp : k = p.1
      · subst hkp
        have hrest : t.map (fun q => if q.1 = p.1 then (p.1, v) else q) = t := by
          refine (List.map_congr_left fun q hq => ?_).trans (List.map_id t)
          exact if_neg fun e => Std.lt_irrefl (e ▸ hp q hq)
        rw [insert, if_neg Std.lt_irrefl, if_pos rfl, List.map_cons, hrest, if_pos rfl]
      · have hmem : k ∈ keys t := (List.mem_cons.mp hk).resolve_left hkp
        obtain ⟨q, hq, rfl⟩ := List.mem_map.mp hmem
        rw [insert, if_neg (Std.not_gt_of_lt (hp q hq)), if_neg hkp, ih ht hmem, List.map_cons,
          if_neg fun e => hkp e.symm]

theorem keys_insert_of_mem [Std.Irrefl (α := κ) (· < ·)] [Std.Asymm (α := κ) (· < ·)]
    {t : Table κ α} {k : κ} (v : α) (h : t.Ascending) (hk : k ∈ t.keys) :
    (t.insert k v).keys = t.keys := by
  rw [insert_of_mem v h hk, keys, List.map_map]
  refine List.map_congr_left fun p _ => ?_
  by_cases hp : p.1 = k <;> simp [hp]

/-- A key above all others is inserted at the end. -/
theorem insert_of_forall_lt [Std.Asymm (α := κ) (· < ·)] {t : Table κ α} {k : κ} (v : α)
    (h : ∀ p ∈ t, p.1 < k) : t.insert k v = t ++ [(k, v)] := by
  induction t with
  | nil => rfl
  | cons p t ih =>
      have hp : p.1 < k := h p List.mem_cons_self
      have hlt : ¬ k < p.1 := Std.not_gt_of_lt hp
      have hne : k ≠ p.1 := fun e => hlt (e ▸ hp)
      rw [insert, if_neg hlt, if_neg hne, ih fun q hq => h q (List.mem_cons_of_mem _ hq)]
      rfl

theorem ascending_insert [LE κ] [Std.IsLinearOrder κ] [Std.LawfulOrderLT κ] {t : Table κ α}
    (k : κ) (v : α) (h : t.Ascending) : (t.insert k v).Ascending := by
  induction t with
  | nil => exact List.pairwise_singleton _ _
  | cons p t ih =>
      obtain ⟨hp, ht⟩ := List.pairwise_cons.mp h
      by_cases hlt : k < p.1
      · rw [insert, if_pos hlt]
        refine List.pairwise_cons.mpr ⟨fun q hq => ?_, h⟩
        rcases List.mem_cons.mp hq with rfl | hq
        · exact hlt
        · exact Std.lt_trans hlt (hp q hq)
      · by_cases hk : k = p.1
        · rw [insert, if_neg hlt, if_pos hk]
          exact List.pairwise_cons.mpr ⟨fun q hq => hk ▸ hp q hq, ht⟩
        · rw [insert, if_neg hlt, if_neg hk]
          refine List.pairwise_cons.mpr ⟨fun q hq => ?_, ih ht⟩
          rcases mem_of_mem_insert hq with rfl | hq
          · exact Std.lt_of_le_of_ne (Std.not_lt.mp hlt) (Ne.symm hk)
          · exact hp q hq

/-- There is a table of what a function gives for some keys. -/
theorem exists_get?_eq [LE κ] [Std.IsLinearOrder κ] [Std.LawfulOrderLT κ] (ks : List κ)
    (g : κ → Option α) : ∃ t : Table κ α, t.Ascending ∧ ∀ k, t.get? k = if k ∈ ks then g k else none := by
  induction ks with
  | nil => exact ⟨[], ascending_nil, fun _ => rfl⟩
  | cons k ks ih =>
      obtain ⟨t, ht, hget⟩ := ih
      cases hk : g k with
      | none =>
          refine ⟨t, ht, fun k' => ?_⟩
          rw [hget]
          by_cases heq : k' = k <;> simp [heq, hk]
      | some v =>
          refine ⟨t.insert k v, ascending_insert k v ht, fun k' => ?_⟩
          rw [get?_insert, hget]
          by_cases heq : k' = k <;> simp [heq, hk]

end Order

end Upkeep.Table
