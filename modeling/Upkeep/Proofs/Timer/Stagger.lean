import Upkeep.Proofs.Time.Duration
import Upkeep.Timer.Stagger

/-!
Start delays against the products that they stand for. As long as places count and a product has room,
each delay is one stagger longer than the one before; from then on delays stay as they are, and none is
ever shorter than one before it.
-/

namespace Upkeep

variable {stagger longer : Duration} {i j : Nat}

theorem toNanos_startDelay_eq_min (stagger : Duration) (i : Nat) :
    (startDelay stagger i).toNanos = min (min i maxPlace * stagger.toNanos) Duration.max.toNanos :=
  Duration.toNanos_saturatingMul stagger _

/-- Within both limits nothing is cut off. -/
theorem toNanos_startDelay (hplace : i ≤ maxPlace)
    (hfits : i * stagger.toNanos ≤ Duration.max.toNanos) :
    (startDelay stagger i).toNanos = i * stagger.toNanos := by
  rw [toNanos_startDelay_eq_min, Nat.min_eq_left hplace, Nat.min_eq_left hfits]

theorem toNanos_startDelay_succ (hplace : i < maxPlace)
    (hfits : (i + 1) * stagger.toNanos ≤ Duration.max.toNanos) :
    (startDelay stagger (i + 1)).toNanos = (startDelay stagger i).toNanos + stagger.toNanos := by
  have hle : i * stagger.toNanos ≤ (i + 1) * stagger.toNanos :=
    Nat.mul_le_mul_right _ (Nat.le_succ i)
  rw [toNanos_startDelay hplace hfits,
    toNanos_startDelay (Nat.le_of_lt hplace) (hle.trans hfits), Nat.succ_mul]

/-- A later place never has a shorter delay. -/
theorem toNanos_startDelay_mono (hij : i ≤ j) :
    (startDelay stagger i).toNanos ≤ (startDelay stagger j).toNanos := by
  have hplaces : min i maxPlace ≤ min j maxPlace := min_le_min_right maxPlace hij
  rw [toNanos_startDelay_eq_min, toNanos_startDelay_eq_min]
  exact min_le_min_right _ (Nat.mul_le_mul_right _ hplaces)

theorem toNanos_startDelay_mono_stagger (h : stagger.toNanos ≤ longer.toNanos) (i : Nat) :
    (startDelay stagger i).toNanos ≤ (startDelay longer i).toNanos := by
  rw [toNanos_startDelay_eq_min, toNanos_startDelay_eq_min]
  exact min_le_min_right _ (Nat.mul_le_mul_left _ h)

/-- A start delay is the stagger as many times as its place counts, up to the longest span, so it is no
shorter at a later place or with a longer stagger. Up to the last place that counts, and as long as
there is room, delays that follow each other are apart by the stagger. -/
theorem startDelay_exact (stagger : Duration) (i : Nat) :
    (startDelay stagger i).toNanos =
        min (stagger.toNanos * min i (2 ^ 32 - 1)) Duration.max.toNanos ∧
      (∀ j, i ≤ j → (startDelay stagger i).toNanos ≤ (startDelay stagger j).toNanos) ∧
      (∀ longer : Duration, stagger.toNanos ≤ longer.toNanos →
        (startDelay stagger i).toNanos ≤ (startDelay longer i).toNanos) ∧
      ∀ j, 0 < stagger.toNanos → i < j → j < 2 ^ 32 →
        stagger.toNanos * j ≤ Duration.max.toNanos →
          (startDelay stagger i).toNanos < (startDelay stagger j).toNanos ∧
            (startDelay stagger (i + 1)).toNanos =
              (startDelay stagger i).toNanos + stagger.toNanos := by
  refine ⟨?_, fun j => toNanos_startDelay_mono, fun longer h => toNanos_startDelay_mono_stagger h i,
    fun j hpos hij hplace hfits => ?_⟩
  · rw [toNanos_startDelay_eq_min, Nat.mul_comm]
    rfl
  · have hnextfits : (i + 1) * stagger.toNanos ≤ Duration.max.toNanos := by
      rw [Nat.mul_comm]
      exact (Nat.mul_le_mul_left _ hij).trans hfits
    have hnext := toNanos_startDelay_succ (Nat.lt_of_lt_of_le hij (Nat.le_pred_of_lt hplace)) hnextfits
    refine ⟨?_, hnext⟩
    calc (startDelay stagger i).toNanos
        < (startDelay stagger i).toNanos + stagger.toNanos := Nat.lt_add_of_pos_right hpos
      _ = (startDelay stagger (i + 1)).toNanos := hnext.symm
      _ ≤ (startDelay stagger j).toNanos := toNanos_startDelay_mono hij

/-- The fourth stagger just has room, with seconds carried; the fifth is cut off, as all later ones are. -/
theorem startDelay_exact_to_longest :
    let stagger : Duration := ⟨4611686018427387903, 999999999, by decide⟩
    0 < stagger.toNanos ∧ stagger.toNanos * 4 ≤ Duration.max.toNanos ∧
      stagger.toNanos ≤ Duration.max.toNanos ∧ startDelay stagger 5 = Duration.max ∧
      (startDelay stagger 3).toNanos ≤ (startDelay stagger (2 ^ 32)).toNanos ∧
      (startDelay stagger 3).toNanos ≤ (startDelay Duration.max 3).toNanos ∧
      (startDelay stagger 3).toNanos < (startDelay stagger 4).toNanos ∧
      (startDelay stagger 4).toNanos = (startDelay stagger 3).toNanos + stagger.toNanos := by
  intro stagger
  have hpos : 0 < stagger.toNanos := by decide
  have hfits : stagger.toNanos * 4 ≤ Duration.max.toNanos := by decide
  have hlonger : stagger.toNanos ≤ Duration.max.toNanos := by decide
  obtain ⟨-, hlater, hlongest, hapart⟩ := startDelay_exact stagger 3
  exact ⟨hpos, hfits, hlonger, by decide, hlater _ (by decide), hlongest _ hlonger,
    hapart 4 hpos (by decide) (by decide) hfits⟩

end Upkeep
