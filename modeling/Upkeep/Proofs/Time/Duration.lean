import Mathlib.Tactic.Ring
import Upkeep.Time.Duration

/-!
Spans of time and counts that do not overflow. What has no room is the longest span, or the greatest
count; anything shorter is what it should be.
-/

namespace Upkeep

namespace Duration

theorem toNanos_ofMillis (ms : UInt64) : (ofMillis ms).toNanos = ms.toNat * 1000000 := by
  have hdiv : (ms / 1000).toNat = ms.toNat / 1000 := UInt64.toNat_div ..
  have hmod : (ms % 1000).toNat = ms.toNat % 1000 := UInt64.toNat_mod ..
  rw [toNanos, ofMillis]
  dsimp only
  rw [hdiv, hmod, nanosPerSecond]
  omega

/-- Whether a product is too long shows in its whole seconds. -/
private theorem le_max_iff {seconds nanos : Nat} :
    seconds * nanosPerSecond + nanos ≤ max.toNanos ↔ seconds + nanos / nanosPerSecond < 2 ^ 64 := by
  have hmax : max.toNanos = (2 ^ 64 - 1) * nanosPerSecond + 999999999 := rfl
  have hper : nanosPerSecond = 1000000000 := rfl
  rw [hmax, hper]
  omega

/-- A product is what it should be, up to the longest span. -/
theorem toNanos_saturatingMul (span : Duration) (n : Nat) :
    (span.saturatingMul n).toNanos = min (n * span.toNanos) max.toNanos := by
  have hnanos : n * span.toNanos = span.seconds.toNat * n * nanosPerSecond + span.nanos * n := by
    rw [toNanos]
    ring
  rw [hnanos]
  by_cases hseconds : span.seconds.toNat * n + span.nanos * n / nanosPerSecond < 2 ^ 64
  · have hproduct : (span.saturatingMul n).toNanos =
        (UInt64.ofNat (span.seconds.toNat * n + span.nanos * n / nanosPerSecond)).toNat *
          nanosPerSecond + span.nanos * n % nanosPerSecond := by
      simp only [saturatingMul, Nat.pow_eq, hseconds, if_true]
      rfl
    rw [Nat.min_eq_left (le_max_iff.mpr hseconds), hproduct, UInt64.toNat_ofNat_of_lt' hseconds,
      Nat.add_mul, Nat.add_assoc, Nat.mul_comm (_ / _) nanosPerSecond, Nat.div_add_mod]
  · have hproduct : span.saturatingMul n = max := by
      simp only [saturatingMul, Nat.pow_eq, hseconds, if_false]
    rw [hproduct, Nat.min_eq_right (Nat.le_of_not_le (mt le_max_iff.mp hseconds))]

end Duration

/-- A sum is what it should be, up to the greatest count. -/
theorem toNat_saturatingAdd_eq_min (a b : UInt64) :
    (saturatingAdd a b).toNat = min (a.toNat + b.toNat) (2 ^ 64 - 1) := by
  by_cases hsum : a.toNat + b.toNat < 2 ^ 64
  · rw [saturatingAdd, if_pos (show a.toNat + b.toNat < Nat.pow 2 64 from hsum), UInt64.toNat_add,
      Nat.mod_eq_of_lt hsum]
    omega
  · rw [saturatingAdd, if_neg (show ¬ a.toNat + b.toNat < Nat.pow 2 64 from hsum)]
    have hmax : (UInt64.ofNat (Nat.pow 2 64 - 1)).toNat = 2 ^ 64 - 1 := rfl
    omega

theorem toNat_saturatingAdd {a b : UInt64} (h : a.toNat + b.toNat < Nat.pow 2 64) :
    (saturatingAdd a b).toNat = a.toNat + b.toNat := by
  rw [toNat_saturatingAdd_eq_min]
  exact Nat.min_eq_left (Nat.le_pred_of_lt h)

theorem lt_of_saturatingAdd_lt {a b x : UInt64} (h : saturatingAdd a b < x) :
    a.toNat + b.toNat < x.toNat := by
  have hx := x.toNat_lt
  rw [UInt64.lt_iff_toNat_lt, toNat_saturatingAdd_eq_min] at h
  omega

theorem le_saturatingAdd_iff {a b x : UInt64} :
    x ≤ saturatingAdd a b ↔ x.toNat ≤ min (a.toNat + b.toNat) (2 ^ 64 - 1) := by
  rw [UInt64.le_iff_toNat_le, toNat_saturatingAdd_eq_min]

end Upkeep
