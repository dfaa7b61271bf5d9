import Mathlib.Algebra.Order.Floor.Semiring
import Mathlib.Data.Nat.Log
import Mathlib.Data.Rat.Cast.Order
import Mathlib.Tactic.FieldSimp
import Mathlib.Tactic.Linarith
import Mathlib.Tactic.NormNum
import Mathlib.Tactic.Positivity
import Mathlib.Tactic.Ring
import Upkeep.Number.Binary64

/-!
Rounding to binary64, as exact rational arithmetic. A quotient below the greatest number by less
than half its last place is rounded, never refused, and what is gained by rounding is at most one
part in `2 ^ 53` unless the quotient is below the normal range.
-/

namespace Upkeep.Binary64

def magnitude (x : Binary64) : ℚ := x.mantissa * 2 ^ x.exponent

/-- At most 53 binary digits, and an exponent in range. -/
def Valid (x : Binary64) : Prop := x.mantissa < 2 ^ 53 ∧ -1074 ≤ x.exponent ∧ x.exponent ≤ 971

theorem valid_zero : zero.Valid := ⟨by decide, by decide, by decide⟩

theorem Valid.neg {x : Binary64} (h : x.Valid) : x.neg.Valid := h

theorem Valid.withSign {x : Binary64} (h : x.Valid) (s : Bool) :
    Valid { x with negative := s } := h

def halfPlace : Nat := 970

/-- The first number that is too great: the greatest one, and half its last place. -/
def limit : Nat := (Nat.pow 2 54 - 1) * Nat.pow 2 halfPlace

theorem cast_limit : (limit : ℚ) = (2 ^ 54 - 1) * 2 ^ halfPlace := by
  rw [limit, Nat.cast_mul, Nat.pow_eq, Nat.pow_eq, Nat.cast_pow, Nat.cast_ofNat]
  norm_num

private theorem two_zpow (n : Nat) :
    (2 : ℚ) ^ ((halfPlace + n : Nat) : ℤ) = 2 ^ n * 2 ^ halfPlace := by
  rw [zpow_natCast, pow_add, mul_comm]

theorem scaled_spec (num : Nat) {den : Nat} (h : 0 < den) (e : Int) :
    0 < (scaled num den e).2 ∧
      ((scaled num den e).1 : ℚ) / (scaled num den e).2 = num / den / 2 ^ e := by
  have hden : (den : ℚ) ≠ 0 := by positivity
  rcases Int.lt_or_le e 0 with hneg | hpos
  · obtain ⟨k, hk⟩ := Int.eq_ofNat_of_zero_le (show 0 ≤ -e by omega)
    have he : e = -(k : Int) := by omega
    have habs : e.natAbs = k := by omega
    rw [scaled, if_pos hneg, habs, he, zpow_neg, zpow_natCast, Nat.pow_eq]
    refine ⟨h, ?_⟩
    push_cast
    field_simp
  · obtain ⟨k, rfl⟩ := Int.eq_ofNat_of_zero_le hpos
    rw [scaled, if_neg (by omega), Int.natAbs_natCast, zpow_natCast, Nat.pow_eq]
    refine ⟨by positivity, ?_⟩
    push_cast
    field_simp

private theorem nearest_cross (n : Nat) {d : Nat} (h : 0 < d) :
    2 * (nearest n d * d) ≤ 2 * n + d ∧ 2 * n ≤ 2 * (nearest n d * d) + d := by
  have hsplit : n / d * d + n % d = n := by rw [Nat.mul_comm]; exact Nat.div_add_mod n d
  have hr := Nat.mod_lt n h
  unfold nearest
  generalize n / d = q at *
  generalize n % d = r at *
  dsimp only
  split_ifs with h1 h2
  · omega
  · rw [Nat.add_mul]; omega
  · rcases Nat.mod_two_eq_zero_or_one q with h | h <;> rw [h] <;> simp only [Nat.add_mul] <;> omega

theorem nearest_spec (n : Nat) {d : Nat} (h : 0 < d) :
    (nearest n d : ℚ) ≤ n / d + 1 / 2 ∧ (n : ℚ) / d - 1 / 2 ≤ nearest n d := by
  have hd : (0 : ℚ) < d := by positivity
  obtain ⟨h1, h2⟩ := nearest_cross n h
  have h1 : (2 : ℚ) * (nearest n d * d) ≤ 2 * n + d := by exact_mod_cast h1
  have h2 : (2 : ℚ) * n ≤ 2 * (nearest n d * d) + d := by exact_mod_cast h2
  constructor
  · rw [← sub_le_iff_le_add, le_div_iff₀ hd]
    linarith
  · rw [sub_le_iff_le_add, div_le_iff₀ hd]
    linarith

private theorem log2_bounds {n : Nat} (h : 0 < n) :
    (2 : ℚ) ^ (n.log2 : ℤ) ≤ n ∧ (n : ℚ) < 2 ^ ((n.log2 : ℤ) + 1) := by
  constructor
  · exact_mod_cast Nat.log2_self_le (Nat.ne_of_gt h)
  · exact_mod_cast Nat.lt_log2_self

/-- The exponent at which a quotient has 53 binary digits, least exponent or not. -/
private theorem guess_spec {num den : Nat} (hn : 0 < num) (hd : 0 < den) :
    let g : Int := (Nat.log2 num : Int) - (Nat.log2 den : Int) - 52
    (2 : ℚ) ^ (g + 51) ≤ num / den ∧ (num : ℚ) / den < 2 ^ (g + 53) := by
  obtain ⟨hn1, hn2⟩ := log2_bounds hn
  obtain ⟨hd1, hd2⟩ := log2_bounds hd
  have hdpos : (0 : ℚ) < den := by positivity
  have hne : (2 : ℚ) ≠ 0 := two_ne_zero
  constructor
  · rw [le_div_iff₀ hdpos]
    refine le_trans ?_ hn1
    have h := mul_le_mul_of_nonneg_left hd2.le
      (zpow_nonneg zero_le_two ((Nat.log2 num : Int) - (Nat.log2 den : Int) - 1) : (0 : ℚ) ≤ _)
    rw [← zpow_add₀ hne] at h
    convert h using 2 <;> ring_nf
  · rw [div_lt_iff₀ hdpos]
    refine lt_of_lt_of_le hn2 ?_
    have h := mul_le_mul_of_nonneg_left hd1
      (zpow_nonneg zero_le_two ((Nat.log2 num : Int) - (Nat.log2 den : Int) + 1) : (0 : ℚ) ≤ _)
    rw [← zpow_add₀ hne] at h
    convert h using 2 <;> ring_nf

/-- A quotient has at most 53 binary digits at its exponent, and as many unless that is the least. -/
theorem exponentOf_spec {num den : Nat} (hn : 0 < num) (hd : 0 < den) :
    -1074 ≤ exponentOf num den ∧
      (num : ℚ) / den < 2 ^ (exponentOf num den + 53) ∧
      (exponentOf num den = -1074 ∨ (2 : ℚ) ^ (exponentOf num den + 52) ≤ num / den) := by
  have hg := guess_spec hn hd
  unfold exponentOf
  generalize (Nat.log2 num : Int) - (Nat.log2 den : Int) - 52 = g at *
  obtain ⟨hg1, hg2⟩ := hg
  obtain ⟨hpos, hval⟩ := scaled_spec num hd g
  have hposq : (0 : ℚ) < (scaled num den g).2 := by exact_mod_cast hpos
  have hcmp : (scaled num den g).1 < Nat.pow 2 52 * (scaled num den g).2 ↔
      (num : ℚ) / den < 2 ^ (g + 52) := by
    rw [zpow_add₀ two_ne_zero, ← div_lt_iff₀' (zpow_pos two_pos g), ← hval, div_lt_iff₀ hposq,
      Nat.pow_eq]
    exact_mod_cast Iff.rfl
  have grow : ∀ {a b : Int}, a ≤ b → (num : ℚ) / den < 2 ^ a → (num : ℚ) / den < 2 ^ b :=
    fun hab h => lt_of_lt_of_le h (zpow_le_zpow_right₀ one_le_two hab)
  dsimp only
  by_cases hlt : (num : ℚ) / den < 2 ^ (g + 52)
  · rw [if_pos (hcmp.mpr hlt)]
    split_ifs with hc
    · exact ⟨le_refl _, grow (by omega) hlt, .inl rfl⟩
    · refine ⟨by omega, grow (by omega) hlt, .inr ?_⟩
      rwa [show g - 1 + 52 = g + 51 by ring]
  · rw [if_neg (hcmp.not.mpr hlt)]
    split_ifs with hc
    · exact ⟨le_refl _, grow (by omega) hg2, .inl rfl⟩
    · exact ⟨by omega, hg2, .inr (not_lt.mp hlt)⟩

/-- The mantissa of a quotient before its last carry. -/
private def rounded (num den : Nat) : Nat :=
  nearest (scaled num den (exponentOf num den)).1 (scaled num den (exponentOf num den)).2

private theorem round?_eq {num den : Nat} (hn : 0 < num) :
    round? num den =
      if rounded num den = Nat.pow 2 53 then
        if 971 < exponentOf num den + 1 then none
        else some ⟨false, Nat.pow 2 52, exponentOf num den + 1⟩
      else if 971 < exponentOf num den then none
      else if rounded num den = 0 then some zero
      else some ⟨false, rounded num den, exponentOf num den⟩ := by
  unfold round? rounded
  rw [if_neg (Nat.ne_of_gt hn)]
  dsimp only
  generalize nearest _ _ = m
  generalize exponentOf num den = e
  have h52 : Nat.pow 2 52 ≠ 0 := by decide
  by_cases hm : m = Nat.pow 2 53
  · simp only [if_pos hm, if_neg h52]
  · simp only [if_neg hm]

private theorem rounded_bound {num den : Nat} (hn : 0 < num) (hd : 0 < den) :
    (rounded num den : ℚ) ≤ num / den / 2 ^ exponentOf num den + 1 / 2 ∧
      rounded num den ≤ 2 ^ 53 := by
  obtain ⟨-, hlt, -⟩ := exponentOf_spec hn hd
  obtain ⟨hpos, hval⟩ := scaled_spec num hd (exponentOf num den)
  have hr := (nearest_spec (scaled num den (exponentOf num den)).1 hpos).1
  rw [hval] at hr
  refine ⟨hr, ?_⟩
  have hq : (num : ℚ) / den / 2 ^ exponentOf num den < 2 ^ 53 := by
    rw [div_lt_iff₀ (zpow_pos two_pos _), ← zpow_natCast, ← zpow_add₀ two_ne_zero, add_comm]
    exact hlt
  have h : (rounded num den : ℚ) < ((2 ^ 53 + 1 : Nat) : ℚ) := by
    refine lt_of_le_of_lt hr ?_
    push_cast
    linarith
  exact Nat.le_of_lt_succ (by exact_mod_cast h)

theorem valid_of_round? {num den : Nat} (hd : 0 < den) {y : Binary64}
    (h : round? num den = some y) : y.Valid := by
  rcases Nat.eq_zero_or_pos num with rfl | hn
  · cases h
    exact valid_zero
  · obtain ⟨hmin, -, -⟩ := exponentOf_spec hn hd
    have hle := (rounded_bound hn hd).2
    rw [round?_eq hn] at h
    split_ifs at h with h1 h2 h3 h4 <;> cases h
    · exact ⟨(by norm_num : 2 ^ 52 < 2 ^ 53), by dsimp only; omega, by dsimp only; omega⟩
    · exact valid_zero
    · have h53 : rounded num den ≠ 2 ^ 53 := h1
      exact ⟨by dsimp only; omega, hmin, by dsimp only; omega⟩

theorem round?_isSome {num den : Nat} (hd : 0 < den) (h : (num : ℚ) / den < limit) :
    ∃ y, round? num den = some y := by
  rcases Nat.eq_zero_or_pos num with rfl | hn
  · exact ⟨zero, rfl⟩
  obtain ⟨hmin, hlt, hge⟩ := exponentOf_spec hn hd
  obtain ⟨hr, hle⟩ := rounded_bound hn hd
  have hexp : exponentOf num den ≤ 971 := by
    by_contra hc
    have h972 : (2 : ℚ) ^ (1024 : ℤ) ≤ num / den := by
      refine le_trans (zpow_le_zpow_right₀ one_le_two ?_) (hge.resolve_left (by omega))
      omega
    have hlim : limit ≤ (2 : ℚ) ^ (1024 : ℤ) := by
      rw [show (1024 : ℤ) = ((halfPlace + 54 : Nat) : ℤ) by rfl, two_zpow, cast_limit]
      exact mul_le_mul_of_nonneg_right (sub_le_self _ zero_le_one) (pow_nonneg zero_le_two _)
    linarith
  -- At the greatest exponent nothing is carried: the quotient is below the limit.
  have hcarry : exponentOf num den = 971 → rounded num den ≠ 2 ^ 53 := by
    intro e hc
    have hq : (num : ℚ) / den / 2 ^ exponentOf num den < 2 ^ 53 - 1 / 2 := by
      rw [div_lt_iff₀ (zpow_pos two_pos _), e]
      refine lt_of_lt_of_le h (le_of_eq ?_)
      rw [show (971 : ℤ) = ((halfPlace + 1 : Nat) : ℤ) by rfl, two_zpow, cast_limit]
      generalize (2 : ℚ) ^ halfPlace = p
      ring
    rw [hc] at hr
    push_cast at hr
    linarith
  rw [round?_eq hn]
  split_ifs with h1 h2 h3 h4
  · exact absurd h1 (hcarry (by omega))
  · exact ⟨_, rfl⟩
  · omega
  · exact ⟨_, rfl⟩
  · exact ⟨_, rfl⟩

section Normal

variable {num den : Nat} (hd : 0 < den) (h1 : (1 : ℚ) ≤ num / den)

include h1 in
private theorem num_pos : 0 < num := by
  rcases Nat.eq_zero_or_pos num with rfl | hn
  · rw [Nat.cast_zero, zero_div] at h1
    exact absurd h1 (by norm_num)
  · exact hn

include hd h1 in
/-- A quotient of one or more is in the normal range. -/
private theorem normal_of_one_le : (2 : ℚ) ^ exponentOf num den * 2 ^ 52 ≤ num / den := by
  obtain ⟨hmin, hlt, hge⟩ := exponentOf_spec (num_pos h1) hd
  have h := hge.resolve_left fun e => by
    rw [e] at hlt
    exact absurd (lt_of_le_of_lt h1 hlt)
      (not_lt.mpr (zpow_le_one_of_nonpos₀ one_le_two (by norm_num)))
  rwa [zpow_add₀ two_ne_zero] at h

include hd h1 in
private theorem rounded_pos : 0 < rounded num den := by
  obtain ⟨hpos, hval⟩ := scaled_spec num hd (exponentOf num den)
  have hr := (nearest_spec (scaled num den (exponentOf num den)).1 hpos).2
  have hq : (2 : ℚ) ^ 52 ≤ num / den / 2 ^ exponentOf num den := by
    rw [le_div_iff₀ (zpow_pos two_pos _), mul_comm]
    exact normal_of_one_le hd h1
  rw [hval] at hr
  have h : (0 : ℚ) < rounded num den := by
    refine lt_of_lt_of_le ?_ hr
    linarith
  exact_mod_cast h

include hd h1 in
/-- What a quotient of one or more gains by rounding; it is not rounded to zero. -/
theorem round?_spec {y : Binary64} (h : round? num den = some y) :
    0 < y.mantissa ∧ y.magnitude ≤ num / den * (1 + 1 / 2 ^ 53) := by
  obtain ⟨hr, -⟩ := rounded_bound (num_pos h1) hd
  have hnormal := normal_of_one_le hd h1
  have hpos : (0 : ℚ) < 2 ^ exponentOf num den := zpow_pos two_pos _
  have hbound : (rounded num den : ℚ) * 2 ^ exponentOf num den ≤
      num / den * (1 + 1 / 2 ^ 53) := by
    have h' := mul_le_mul_of_nonneg_right hr hpos.le
    rw [add_mul, div_mul_cancel₀ _ hpos.ne'] at h'
    have : (1 : ℚ) / 2 * 2 ^ exponentOf num den ≤ num / den * (1 / 2 ^ 53) := by
      rw [mul_one_div, le_div_iff₀ (by norm_num)]
      linarith
    linarith
  rw [round?_eq (num_pos h1)] at h
  split_ifs at h with hc _ _ h0 <;> cases h
  · refine ⟨Nat.pow_pos two_pos, le_trans (le_of_eq ?_) hbound⟩
    rw [hc, magnitude, zpow_add₀ two_ne_zero]
    push_cast
    ring
  · exact absurd h0 (Nat.ne_of_gt (rounded_pos hd h1))
  · exact ⟨rounded_pos hd h1, hbound⟩

end Normal

theorem fraction_spec (x : Binary64) :
    0 < x.fraction.2 ∧ (x.fraction.1 : ℚ) / x.fraction.2 = x.magnitude := by
  unfold fraction magnitude
  rcases Int.lt_or_le x.exponent 0 with hneg | hpos
  · obtain ⟨k, hk⟩ := Int.eq_ofNat_of_zero_le (show 0 ≤ -x.exponent by omega)
    have he : x.exponent = -(k : Int) := by omega
    rw [if_pos hneg, he, Int.natAbs_neg, Int.natAbs_natCast, zpow_neg, zpow_natCast, Nat.pow_eq]
    refine ⟨Nat.pow_pos two_pos, ?_⟩
    push_cast
    rw [div_eq_mul_inv]
  · obtain ⟨k, hk⟩ := Int.eq_ofNat_of_zero_le hpos
    rw [if_neg (by omega), hk, Int.natAbs_natCast, zpow_natCast, Nat.pow_eq]
    refine ⟨one_pos, ?_⟩
    push_cast
    rw [div_one]

theorem fraction_fst_pos {x : Binary64} (h : 0 < x.mantissa) : 0 < x.fraction.1 := by
  unfold fraction
  split_ifs
  · exact h
  · exact Nat.mul_pos h (Nat.pow_pos two_pos)

/-- A count below the limit is rounded, and gains little by it. -/
theorem ofNat?_spec {n : Nat} (h0 : 0 < n) (h : (n : ℚ) < limit) :
    ∃ y, ofNat? n = some y ∧ y.Valid ∧ 0 < y.mantissa ∧
      y.magnitude ≤ n * (1 + 1 / 2 ^ 53) := by
  have h1 : (1 : ℚ) ≤ n / (1 : Nat) := by rw [Nat.cast_one, div_one]; exact_mod_cast h0
  obtain ⟨y, hy⟩ := round?_isSome one_pos (show (n : ℚ) / (1 : Nat) < limit by rwa [Nat.cast_one, div_one])
  obtain ⟨hpos, hle⟩ := round?_spec one_pos h1 hy
  rw [Nat.cast_one, div_one] at hle
  exact ⟨y, hy, valid_of_round? one_pos hy, hpos, hle⟩

theorem mul?_isSome {x y : Binary64} (h : x.magnitude * y.magnitude < limit) :
    ∃ z, x.mul? y = some z ∧ z.Valid := by
  obtain ⟨hx, hxm⟩ := fraction_spec x
  obtain ⟨hy, hym⟩ := fraction_spec y
  have hlt : ((x.fraction.1 * y.fraction.1 : Nat) : ℚ) / (x.fraction.2 * y.fraction.2 : Nat)
      < limit := by
    push_cast
    rwa [mul_div_mul_comm, hxm, hym]
  obtain ⟨z, hz⟩ := round?_isSome (Nat.mul_pos hx hy) hlt
  exact ⟨_, congrArg (Option.map _) hz, (valid_of_round? (Nat.mul_pos hx hy) hz).withSign _⟩

theorem valid_of_mul? {x y z : Binary64} (h : x.mul? y = some z) : z.Valid := by
  obtain ⟨w, hw, rfl⟩ := Option.map_eq_some_iff.mp h
  exact (valid_of_round? (Nat.mul_pos (fraction_spec x).1 (fraction_spec y).1) hw).withSign _

theorem valid_of_div? {x y z : Binary64} (hy : 0 < y.mantissa) (h : x.div? y = some z) :
    z.Valid := by
  obtain ⟨w, hw, rfl⟩ := Option.map_eq_some_iff.mp h
  exact (valid_of_round? (Nat.mul_pos (fraction_spec x).1 (fraction_fst_pos hy)) hw).withSign _

end Upkeep.Binary64
