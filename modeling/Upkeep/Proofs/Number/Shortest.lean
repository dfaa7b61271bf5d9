import Mathlib.Data.Nat.Cast.Order.Field
import Upkeep.Proofs.Number.Rounding

/-!
The shortest decimal of a binary64 number. Seventeen digits are always enough: the decimals of that
many digits lie closer together than the ends of the interval that rounds to a number. What is
found lies in that interval. That it is the shortest is not shown here.
-/

namespace Upkeep.Binary64

theorem length_toDigits_spec {n : Nat} (h : 0 < n) :
    10 ^ ((Nat.toDigits 10 n).length - 1) ≤ n ∧ n < 10 ^ (Nat.toDigits 10 n).length := by
  have hpos : 0 < (Nat.toDigits 10 n).length := Nat.length_toDigits_pos
  constructor
  · by_contra hc
    rcases Nat.eq_zero_or_pos ((Nat.toDigits 10 n).length - 1) with h0 | h0
    · rw [h0] at hc
      omega
    · have := (Nat.length_toDigits_le_iff (b := 10) (by decide) h0).mpr (not_le.mp hc)
      omega
  · exact (Nat.length_toDigits_le_iff (by decide) hpos).mp (le_refl _)

private theorem cast_div_le (n d : Nat) : ((n / d : Nat) : ℚ) ≤ n / d := Nat.cast_div_le

private theorem lt_cast_div_add_one (n : Nat) {d : Nat} (h : 0 < d) :
    (n : ℚ) / d < ((n / d : Nat) : ℚ) + 1 := by
  rw [div_lt_iff₀ (by exact_mod_cast h)]
  have := Nat.lt_mul_div_succ n h
  rw [mul_comm] at this
  exact_mod_cast this

/-- The decade of a quotient. -/
theorem decade_spec {num den : Nat} (hn : 0 < num) (hd : 0 < den) :
    (10 : ℚ) ^ decade num den ≤ num / den ∧ (num : ℚ) / den < 10 ^ (decade num den + 1) := by
  have hdq : (0 : ℚ) < den := by exact_mod_cast hd
  have hnq : (0 : ℚ) < num := by exact_mod_cast hn
  unfold decade
  dsimp only
  split_ifs with hle hlt
  · obtain ⟨h1, h2⟩ := length_toDigits_spec (Nat.div_pos hle hd)
    have hpos : 0 < (Nat.toDigits 10 (num / den)).length := Nat.length_toDigits_pos
    generalize (Nat.toDigits 10 (num / den)).length = k at *
    constructor
    · rw [show (k : Int) - 1 = ((k - 1 : Nat) : Int) by omega, zpow_natCast]
      exact le_trans (by exact_mod_cast h1) (cast_div_le num den)
    · rw [sub_add_cancel, zpow_natCast]
      refine lt_of_lt_of_le (lt_cast_div_add_one num hd) ?_
      exact_mod_cast h2
  all_goals
    obtain ⟨h1, h2⟩ := length_toDigits_spec (Nat.div_pos (not_le.mp hle).le hn)
    have hpos : 0 < (Nat.toDigits 10 (den / num)).length := Nat.length_toDigits_pos
    generalize (Nat.toDigits 10 (den / num)).length = k at *
    have hden1 : (10 : ℚ) ^ (k - 1) ≤ den / num :=
      le_trans (by exact_mod_cast h1) (cast_div_le den num)
    have hden2 : (den : ℚ) / num < 10 ^ k :=
      lt_of_lt_of_le (lt_cast_div_add_one den hn) (by exact_mod_cast h2)
    rw [le_div_iff₀ hnq] at hden1
    rw [div_lt_iff₀ hnq] at hden2
  · rw [Nat.pow_eq] at hlt
    have hlt : (num : ℚ) * 10 ^ (k - 1) < den := by exact_mod_cast hlt
    rw [show -(k : Int) + 1 = -((k - 1 : Nat) : Int) by omega, zpow_neg, zpow_neg, zpow_natCast,
      zpow_natCast, inv_eq_one_div, inv_eq_one_div, div_le_div_iff₀ (by positivity) hdq,
      div_lt_div_iff₀ hdq (by positivity)]
    exact ⟨by linarith, by linarith⟩
  · rw [Nat.pow_eq] at hlt
    have hge : (den : ℚ) ≤ num * 10 ^ (k - 1) := by exact_mod_cast not_lt.mp hlt
    have hexp : -((k : Int) - 1) = -((k - 1 : Nat) : Int) := by omega
    rw [hexp, zpow_add₀ (by norm_num : (10 : ℚ) ≠ 0), zpow_neg, zpow_natCast, zpow_one,
      inv_eq_one_div, div_mul_eq_mul_div, one_mul, div_le_div_iff₀ (by positivity) hdq,
      div_lt_div_iff₀ hdq (by positivity)]
    have : (0 : ℚ) < den * 10 := by positivity
    exact ⟨by linarith, by linarith⟩

/-! The interval that rounds to a number. -/

/-- An interval over one denominator: its ends and its value are multiples of the place. -/
private theorem interval_eq (x : Binary64) :
    ∃ p den : Nat, 0 < p ∧ 0 < den ∧ (p : ℚ) / den = 2 ^ x.exponent ∧
      x.interval = ⟨(4 * x.mantissa -
        if x.mantissa = Nat.pow 2 52 && decide (-1074 < x.exponent) then 1 else 2) * p,
        4 * x.mantissa * p, (4 * x.mantissa + 2) * p, 4 * den, x.mantissa % 2 == 0⟩ := by
  unfold interval
  rcases Int.lt_or_le x.exponent 0 with hneg | hpos
  · refine ⟨1, 2 ^ x.exponent.natAbs, one_pos, Nat.pow_pos two_pos, ?_, ?_⟩
    · obtain ⟨k, hk⟩ := Int.eq_ofNat_of_zero_le (show 0 ≤ -x.exponent by omega)
      have he : x.exponent = -(k : Int) := by omega
      rw [he, Int.natAbs_neg, Int.natAbs_natCast, zpow_neg, zpow_natCast]
      push_cast
      rw [one_div]
    · simp only [if_pos hneg, Nat.pow_eq]
  · refine ⟨2 ^ x.exponent.natAbs, 1, Nat.pow_pos two_pos, one_pos, ?_, ?_⟩
    · obtain ⟨k, hk⟩ := Int.eq_ofNat_of_zero_le hpos
      rw [hk, Int.natAbs_natCast, zpow_natCast]
      push_cast
      rw [div_one]
    · simp only [if_neg (not_lt.mpr hpos), Nat.pow_eq]

/-- Below a power of two the places are half as wide. -/
private theorem placeBelow_spec {x : Binary64} (hx : x.Valid) :
    ∃ below : Nat,
      (if x.mantissa = Nat.pow 2 52 && decide (-1074 < x.exponent) then 1 else 2) = below ∧
      1 ≤ below ∧ below ≤ 2 ∧ x.mantissa ≤ 2 ^ 52 * below := by
  have h53 := hx.1
  split_ifs with hc
  · have h52 : x.mantissa = 2 ^ 52 := of_decide_eq_true ((Bool.and_eq_true _ _).mp hc).1
    exact ⟨1, rfl, by decide, by decide, by omega⟩
  · exact ⟨2, rfl, by decide, by decide, by omega⟩

/-- The ends of an interval lie apart from its value by more than one part in `2 ^ 54`, and its
upper end by half a place. -/
theorem interval_spec {x : Binary64} (hx : x.Valid) (h0 : 0 < x.mantissa) :
    0 < x.interval.den ∧ 0 < x.interval.value ∧ 0 < x.interval.low ∧
      (x.interval.value : ℚ) / x.interval.den = x.magnitude ∧
      (x.interval.high : ℚ) / x.interval.den = (x.mantissa + 1 / 2) * 2 ^ x.exponent ∧
      x.magnitude / 2 ≤ (x.interval.low : ℚ) / x.interval.den ∧
      (x.interval.low : ℚ) / x.interval.den ≤ x.magnitude * (1 - 1 / 2 ^ 54) := by
  obtain ⟨p, den, hp, hden, hpd, hi⟩ := x.interval_eq
  obtain ⟨below, hb, hbelow, hle, hm⟩ := placeBelow_spec hx
  rw [hi, hb]
  dsimp only
  have hscale : ∀ q : ℚ, q * p / (4 * den : Nat) = q / 4 * 2 ^ x.exponent := by
    intro q
    rw [← hpd]
    push_cast
    rw [mul_div_mul_comm]
  have hlow : (((4 * x.mantissa - below) * p : Nat) : ℚ) / (4 * den : Nat) =
      (x.mantissa - below / 4) * 2 ^ x.exponent := by
    rw [Nat.cast_mul, hscale, Nat.cast_sub (by omega)]
    push_cast
    ring
  have hpow : (0 : ℚ) < 2 ^ x.exponent := zpow_pos two_pos _
  have hmq : (x.mantissa : ℚ) ≤ 2 ^ 52 * below := by exact_mod_cast hm
  have hleq : (below : ℚ) ≤ 2 := by exact_mod_cast hle
  have hone : (1 : ℚ) ≤ x.mantissa := by exact_mod_cast h0
  refine ⟨by omega, by positivity, Nat.mul_pos (by omega) hp, ?_, ?_, ?_, ?_⟩
  · rw [Nat.cast_mul, hscale, magnitude]
    push_cast
    ring
  · rw [Nat.cast_mul, hscale]
    push_cast
    ring
  · rw [hlow, magnitude, mul_div_right_comm]
    exact mul_le_mul_of_nonneg_right (by linarith) hpow.le
  · rw [hlow, magnitude, mul_right_comm]
    exact mul_le_mul_of_nonneg_right (by linarith) hpow.le

/-- Half a place is more than one part in `2 ^ 54`. -/
theorem magnitude_lt_high {x : Binary64} (hx : x.Valid) :
    x.magnitude * (1 + 1 / 2 ^ 54) < (x.mantissa + 1 / 2) * 2 ^ x.exponent := by
  have hm : (x.mantissa : ℚ) < 2 ^ 53 := by exact_mod_cast hx.1
  rw [magnitude, mul_right_comm]
  exact mul_lt_mul_of_pos_right (by linarith) (zpow_pos two_pos _)

section Grid

variable {i : Interval} (hden : 0 < i.den)

include hden in
/-- What lies strictly between the ends is contained, and what is contained between them. -/
theorem contains_spec (digits : Nat) (e : Int) :
    (i.contains digits e = true → (i.low : ℚ) / i.den ≤ digits * 10 ^ e ∧
      (digits : ℚ) * 10 ^ e ≤ i.high / i.den) ∧
      ((i.low : ℚ) / i.den < digits * 10 ^ e → (digits : ℚ) * 10 ^ e < i.high / i.den →
        i.contains digits e = true) := by
  obtain ⟨n, d, hd, hnd, hi⟩ : ∃ n d : Nat, 0 < d ∧ (n : ℚ) / d = digits * 10 ^ e ∧
      i.contains digits e = if i.closed then i.low * d ≤ n * i.den && n * i.den ≤ i.high * d
        else i.low * d < n * i.den && n * i.den < i.high * d := by
    unfold Interval.contains
    rcases Int.lt_or_le e 0 with hneg | hpos
    · refine ⟨digits, 10 ^ e.natAbs, by positivity, ?_, by simp only [if_pos hneg, Nat.pow_eq]⟩
      obtain ⟨k, hk⟩ := Int.eq_ofNat_of_zero_le (show 0 ≤ -e by omega)
      have he : e = -(k : Int) := by omega
      rw [he, Int.natAbs_neg, Int.natAbs_natCast, zpow_neg, zpow_natCast]
      push_cast
      rw [div_eq_mul_inv]
    · refine ⟨digits * 10 ^ e.natAbs, 1, one_pos, ?_,
        by simp only [if_neg (not_lt.mpr hpos), Nat.pow_eq]⟩
      obtain ⟨k, rfl⟩ := Int.eq_ofNat_of_zero_le hpos
      rw [Int.natAbs_natCast, zpow_natCast]
      push_cast
      rw [div_one]
  have hdq : (0 : ℚ) < d := by exact_mod_cast hd
  have hdenq : (0 : ℚ) < i.den := by exact_mod_cast hden
  rw [← hnd, hi, div_le_div_iff₀ hdenq hdq, div_le_div_iff₀ hdq hdenq, div_lt_div_iff₀ hdenq hdq,
    div_lt_div_iff₀ hdq hdenq]
  norm_cast
  constructor
  · intro h
    split_ifs at h
    · simpa using h
    · simp only [Bool.and_eq_true, decide_eq_true_eq] at h
      exact ⟨h.1.le, h.2.le⟩
  · intro h1 h2
    split_ifs
    · simp [h1.le, h2.le]
    · simp [h1, h2]

private theorem nearest_le_succ (n d : Nat) : nearest n d ≤ n / d + 1 := by
  unfold nearest
  dsimp only
  split_ifs <;> omega

include hden in
/-- The value of an interval in units of `10 ^ e`. -/
private theorem grid_units (e : Int) :
    ∃ n d : Nat, 0 < d ∧ (n : ℚ) / d = i.value / i.den / 10 ^ e ∧
      i.onGrid? e = if i.contains (nearest n d) e then some (nearest n d)
        else if i.contains (n / d) e then some (n / d)
        else if i.contains (n / d + 1) e then some (n / d + 1)
        else none := by
  unfold Interval.onGrid?
  rcases Int.lt_or_le e 0 with hneg | hpos
  · refine ⟨i.value * 10 ^ e.natAbs, i.den, hden, ?_, by simp only [if_pos hneg, Nat.pow_eq]⟩
    obtain ⟨k, hk⟩ := Int.eq_ofNat_of_zero_le (show 0 ≤ -e by omega)
    have he : e = -(k : Int) := by omega
    rw [he, Int.natAbs_neg, Int.natAbs_natCast, zpow_neg, zpow_natCast]
    push_cast
    rw [div_inv_eq_mul, div_mul_eq_mul_div]
  · refine ⟨i.value, i.den * 10 ^ e.natAbs, by positivity, ?_,
      by simp only [if_neg (not_lt.mpr hpos), Nat.pow_eq]⟩
    obtain ⟨k, rfl⟩ := Int.eq_ofNat_of_zero_le hpos
    rw [Int.natAbs_natCast, zpow_natCast]
    push_cast
    rw [div_div]

include hden in
/-- What is found on a grid is contained, and has no more digits than the value before the grid. -/
theorem onGrid?_spec {e : Int} {digits : Nat} (h : i.onGrid? e = some digits) :
    i.contains digits e = true ∧
      ∀ count : Nat, (i.value : ℚ) / i.den < 10 ^ (e + count) → digits ≤ 10 ^ count := by
  obtain ⟨n, d, hd, hnd, hi⟩ := grid_units hden e
  have hle : i.contains digits e = true ∧ digits ≤ n / d + 1 := by
    rw [hi] at h
    split_ifs at h with h1 h2 h3 <;> cases h
    · exact ⟨h1, nearest_le_succ n d⟩
    · exact ⟨h2, Nat.le_succ _⟩
    · exact ⟨h3, le_refl _⟩
  refine ⟨hle.1, fun count hcount => le_trans hle.2 (Nat.succ_le_of_lt ?_)⟩
  have hlt : (n : ℚ) / d < 10 ^ count := by
    rw [hnd, div_lt_iff₀ (zpow_pos (by norm_num) _), ← zpow_natCast, ← zpow_add₀ (by norm_num),
      add_comm]
    exact hcount
  have : ((n / d : Nat) : ℚ) < 10 ^ count := lt_of_le_of_lt (cast_div_le n d) hlt
  exact_mod_cast this

include hden in
/-- A grid finer than one part in `10 ^ 16` meets an interval that is wider. -/
theorem onGrid?_isSome {e : Int} (hfine : (10 : ℚ) ^ (e + 16) ≤ i.value / i.den)
    (hlow : (i.low : ℚ) / i.den ≤ i.value / i.den * (1 - 1 / 2 ^ 54))
    (hhigh : (i.value : ℚ) / i.den * (1 + 1 / 2 ^ 54) < i.high / i.den) :
    ∃ digits, i.onGrid? e = some digits := by
  obtain ⟨n, d, hd, hnd, hi⟩ := grid_units hden e
  have hpow : (0 : ℚ) < 10 ^ e := zpow_pos (by norm_num) _
  obtain ⟨hn1, hn2⟩ := nearest_spec n hd
  rw [hnd] at hn1 hn2
  have hv : (i.value : ℚ) / i.den = i.value / i.den / 10 ^ e * 10 ^ e :=
    (div_mul_cancel₀ _ hpow.ne').symm
  have hup := mul_le_mul_of_nonneg_right hn1 hpow.le
  have hdown := mul_le_mul_of_nonneg_right hn2 hpow.le
  rw [add_mul, ← hv] at hup
  rw [sub_mul, ← hv] at hdown
  rw [zpow_add₀ (by norm_num), show (10 : ℚ) ^ (16 : ℤ) = 10 ^ 16 by norm_cast] at hfine
  have hbest : i.contains (nearest n d) e = true := by
    refine (contains_spec hden _ e).2 (lt_of_le_of_lt hlow (lt_of_lt_of_le ?_ hdown))
      (lt_of_le_of_lt hup (lt_trans ?_ hhigh))
    · linarith
    · linarith
  exact ⟨nearest n d, by rw [hi, if_pos hbest]⟩

include hden in
/-- The search ends at a grid that meets the interval, at seventeen digits if not before. -/
theorem search_spec {top : Int} (htop : (10 : ℚ) ^ top ≤ i.value / i.den)
    (htop' : (i.value : ℚ) / i.den < 10 ^ (top + 1))
    (hlow : (i.low : ℚ) / i.den ≤ i.value / i.den * (1 - 1 / 2 ^ 54))
    (hhigh : (i.value : ℚ) / i.den * (1 + 1 / 2 ^ 54) < i.high / i.den)
    (fuel count : Nat) (h1 : count ≤ 17) (h2 : 17 < fuel + count) :
    i.contains (i.search top fuel count).1 (i.search top fuel count).2 = true ∧
      (i.search top fuel count).1 ≤ 10 ^ 17 := by
  induction fuel generalizing count with
  | zero => omega
  | succ fuel ih =>
      unfold Interval.search
      dsimp only
      cases hgrid : i.onGrid? (top - count + 1) with
      | some digits =>
          obtain ⟨hc, hle⟩ := onGrid?_spec hden hgrid
          refine ⟨hc, le_trans (hle count ?_) (Nat.pow_le_pow_right (by decide) h1)⟩
          rwa [show top - count + 1 + count = top + 1 by ring]
      | none =>
          refine ih (count + 1) ?_ (by omega)
          by_contra hc
          have h17 : count = 17 := by omega
          obtain ⟨digits, hd⟩ := onGrid?_isSome (e := top - count + 1) hden
            (by rwa [h17, show top - (17 : Nat) + 1 + 16 = top by push_cast; ring]) hlow hhigh
          rw [hgrid] at hd
          cases hd

end Grid

/-- The zeros at the end of the digits go into the exponent. -/
theorem dropZeros_spec (fuel digits : Nat) (e : Int) (h0 : 0 < digits) :
    0 < (dropZeros fuel digits e).1 ∧ (dropZeros fuel digits e).1 ≤ digits ∧
      ((dropZeros fuel digits e).1 : ℚ) * 10 ^ (dropZeros fuel digits e).2 = digits * 10 ^ e := by
  induction fuel generalizing digits e with
  | zero => exact ⟨h0, le_refl _, rfl⟩
  | succ fuel ih =>
      unfold dropZeros
      split_ifs with hc
      · have hmod : digits % 10 = 0 := of_decide_eq_true ((Bool.and_eq_true _ _).mp hc).1
        obtain ⟨hpos, hle, heq⟩ := ih (digits / 10) (e + 1) (by omega)
        refine ⟨hpos, by omega, ?_⟩
        have hdiv : (digits : ℚ) = (digits / 10 : Nat) * 10 := by
          exact_mod_cast (Nat.div_mul_cancel (Nat.dvd_of_mod_eq_zero hmod)).symm
        rw [heq, hdiv, zpow_add₀ (by norm_num)]
        ring
      · exact ⟨h0, le_refl _, rfl⟩

/-- The shortest decimal has at most seventeen digits or is `10 ^ 17`, and lies between the ends. -/
theorem shortest_spec {x : Binary64} (hx : x.Valid) (h0 : 0 < x.mantissa) :
    0 < x.shortest.1 ∧ x.shortest.1 ≤ 10 ^ 17 ∧
      x.magnitude / 2 ≤ x.shortest.1 * 10 ^ x.shortest.2 ∧
      (x.shortest.1 : ℚ) * 10 ^ x.shortest.2 ≤ (x.mantissa + 1 / 2) * 2 ^ x.exponent := by
  obtain ⟨hden, hvalue, hlow0, hv, hhigh, hlow, hlow'⟩ := interval_spec hx h0
  obtain ⟨htop, htop'⟩ := decade_spec hvalue hden
  obtain ⟨hc, hle⟩ := search_spec hden htop htop' (by rwa [hv])
    (by rw [hv, hhigh]; exact magnitude_lt_high hx) 20 1 (by decide) (by decide)
  obtain ⟨hc1, hc2⟩ := (contains_spec hden _ _).1 hc
  unfold shortest
  dsimp only
  generalize x.interval.search _ 20 1 = found at *
  have hpos : 0 < found.1 := by
    refine Nat.pos_of_ne_zero fun e => ?_
    rw [e, Nat.cast_zero, zero_mul] at hc1
    have : (0 : ℚ) < x.interval.low / x.interval.den := by positivity
    linarith
  obtain ⟨hd0, hdle, hdeq⟩ := dropZeros_spec 20 found.1 found.2 hpos
  rw [hdeq]
  exact ⟨hd0, le_trans hdle hle, le_trans hlow hc1, le_trans hc2 (le_of_eq hhigh)⟩

private theorem zpow_lt_of_pow_lt {a b m n : Nat} (h : Nat.pow a m < Nat.pow b n) :
    (a : ℚ) ^ (m : ℤ) < b ^ (n : ℤ) := by
  rw [zpow_natCast, zpow_natCast]
  exact_mod_cast h

private theorem two_zpow_lt : (2 : ℚ) ^ (1024 : ℤ) < 10 ^ (309 : ℤ) := by
  have h : Nat.pow 2 1024 < Nat.pow 10 309 := by decide +kernel
  simpa only [Nat.cast_ofNat] using zpow_lt_of_pow_lt h

/-- The exponent of the shortest decimal. -/
theorem shortest_exponent {x : Binary64} (hx : x.Valid) (h0 : 0 < x.mantissa) :
    -1092 ≤ x.shortest.2 ∧ x.shortest.2 ≤ 308 := by
  obtain ⟨hd0, hd17, hlow, hhigh⟩ := shortest_spec hx h0
  obtain ⟨hm, hmin, hmax⟩ := hx
  have hpow : (0 : ℚ) < 10 ^ x.shortest.2 := zpow_pos (by norm_num) _
  constructor
  · have hmag : (10 : ℚ) ^ (-1075 : ℤ) ≤ x.magnitude / 2 := by
      have hmono : (10 : ℚ) ^ (-1075 : ℤ) ≤ 2 ^ (-1075 : ℤ) := by
        rw [zpow_neg, zpow_neg]
        exact inv_anti₀ (zpow_pos two_pos _)
          (zpow_le_zpow_left₀ (by norm_num) zero_le_two (by norm_num))
      have hhalf : (2 : ℚ) ^ (-1075 : ℤ) ≤ 2 ^ x.exponent / 2 := by
        rw [div_eq_mul_inv, ← zpow_sub_one₀ two_ne_zero]
        exact zpow_le_zpow_right₀ one_le_two (by omega)
      have hone : (1 : ℚ) ≤ x.mantissa := by exact_mod_cast h0
      have := mul_le_mul_of_nonneg_right hone (zpow_nonneg zero_le_two x.exponent : (0 : ℚ) ≤ _)
      rw [magnitude]
      linarith
    have hup : (x.shortest.1 : ℚ) * 10 ^ x.shortest.2 ≤ 10 ^ (x.shortest.2 + 17) := by
      rw [zpow_add₀ (by norm_num), mul_comm]
      exact mul_le_mul_of_nonneg_left (by exact_mod_cast hd17) hpow.le
    have := (zpow_le_zpow_iff_right₀ (by norm_num : (1 : ℚ) < 10)).mp
      (le_trans hmag (le_trans hlow hup))
    omega
  · have hone : (10 : ℚ) ^ x.shortest.2 ≤ x.shortest.1 * 10 ^ x.shortest.2 :=
      le_mul_of_one_le_left hpow.le (by exact_mod_cast hd0)
    have hmq : (x.mantissa : ℚ) + 1 ≤ 2 ^ 53 := by exact_mod_cast hm
    have hlt : (x.mantissa + 1 / 2 : ℚ) * 2 ^ x.exponent < 10 ^ (309 : ℤ) := by
      have h1 : (x.mantissa + 1 / 2 : ℚ) * 2 ^ x.exponent ≤ 2 ^ (53 : ℤ) * 2 ^ (971 : ℤ) := by
        refine mul_le_mul ?_ (zpow_le_zpow_right₀ one_le_two hmax) (zpow_nonneg zero_le_two _)
          (zpow_nonneg zero_le_two _)
        rw [show (2 : ℚ) ^ (53 : ℤ) = 2 ^ 53 by norm_cast]
        linarith
      rw [← zpow_add₀ two_ne_zero, show (53 + 971 : ℤ) = 1024 by rfl] at h1
      exact lt_of_le_of_lt h1 two_zpow_lt
    have := (zpow_lt_zpow_iff_right₀ (by norm_num : (1 : ℚ) < 10)).mp
      (lt_of_le_of_lt hone (lt_of_le_of_lt hhigh hlt))
    omega

end Upkeep.Binary64
