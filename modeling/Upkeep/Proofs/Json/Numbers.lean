import Upkeep.Json.Printer
import Upkeep.Proofs.Json.Digits
import Upkeep.Proofs.Number.Shortest

/-!
Written numbers are read. An integer is read back as itself. The decimal of a binary64 is always
read, as a number that need not be the one it was written from: reading rounds twice, or three
times. `reread` is what comes of a number that is written and read again.
-/

namespace Upkeep.Json

open Utf8 Binary64

/-! Powers of ten. -/

private theorem natPow_le {a m n : Nat} (ha : 0 < a) (h : m ≤ n) : Nat.pow a m ≤ Nat.pow a n :=
  Nat.pow_le_pow_right ha h

private theorem ten_pow_lt_limit {e : Nat} (h : e ≤ 308) : ((Nat.pow 10 e : Nat) : ℚ) < limit := by
  obtain ⟨k, hk, hlt⟩ : ∃ k, 308 ≤ k ∧ Nat.pow 10 k < limit := ⟨308, le_refl _, by decide +kernel⟩
  exact Nat.cast_lt.mpr (Nat.lt_of_le_of_lt (natPow_le (by decide) (Nat.le_trans h hk)) hlt)

theorem power_spec {e : Nat} (h : e ≤ 308) :
    (power e).Valid ∧ 0 < (power e).mantissa ∧
      (power e).magnitude ≤ 10 ^ e * (1 + 1 / 2 ^ 53) := by
  obtain ⟨y, hy, hv, hpos, hle⟩ :=
    ofNat?_spec (n := Nat.pow 10 e) (Nat.pow_pos (by decide)) (ten_pow_lt_limit h)
  have hp : power e = y := by rw [power, hy]; rfl
  rw [hp]
  refine ⟨hv, hpos, le_trans hle (le_of_eq ?_)⟩
  rw [Nat.pow_eq]
  push_cast
  rfl

/-- A quotient by a power of ten is a number, if only zero. -/
private theorem valid_div_power (x : Binary64) {e : Nat} (h : e ≤ 308) :
    ((x.div? (power e)).getD .zero).Valid := by
  cases hd : x.div? (power e) with
  | none => exact valid_zero
  | some y => exact valid_of_div? (power_spec h).2.1 hd

theorem valid_of_scale {fuel : Nat} {x y : Binary64} {e : Int} (hx : x.Valid)
    (h : scale fuel x e = .ok y) : y.Valid := by
  induction fuel generalizing x e with
  | zero => cases h; exact hx
  | succ fuel ih =>
      unfold scale at h
      split_ifs at h with h1 h2 h3 h4
      · cases hm : x.mul? (power e.natAbs) with
        | none => rw [hm] at h; cases h
        | some z =>
            rw [hm] at h
            cases h
            exact valid_of_mul? hm
      · cases h
        exact valid_div_power x h1
      · cases h
        exact hx
      · exact ih (valid_div_power x (by decide)) h

theorem scale_isOk_of_neg (fuel : Nat) (x : Binary64) {e : Int} (h : e < 0) :
    ∃ y, scale fuel x e = .ok y := by
  induction fuel generalizing x e with
  | zero => exact ⟨x, rfl⟩
  | succ fuel ih =>
      unfold scale
      split_ifs with h1 h2 h3 h4
      · omega
      · exact ⟨_, rfl⟩
      · exact ⟨_, rfl⟩
      · omega
      · exact ih _ (by omega)

/-- Scaling up does not fail as long as the product is below the limit. -/
theorem scale_isOk_of_lt (fuel : Nat) {x : Binary64} {e : Int} (h0 : 0 ≤ e) (h1 : e ≤ 308)
    (h : x.magnitude * (power e.natAbs).magnitude < limit) :
    ∃ y, scale (fuel + 1) x e = .ok y := by
  obtain ⟨y, hy, -⟩ := mul?_isSome h
  refine ⟨y, ?_⟩
  unfold scale
  rw [if_pos (by omega), if_pos h0, hy]

/-! Numbers put together. -/

private theorem significand_lt_limit {n : Nat} (h : n ≤ maxSignificand) : (n : ℚ) < limit := by
  have hmax : maxSignificand < limit := by decide +kernel
  exact Nat.cast_lt.mpr (Nat.lt_of_le_of_lt h hmax)

private theorem significand_spec {n : Nat} (h0 : 0 < n) (h : n ≤ maxSignificand) :
    ((ofNat? n).getD .zero).Valid ∧
      ((ofNat? n).getD .zero).magnitude ≤ n * (1 + 1 / 2 ^ 53) := by
  obtain ⟨y, hy, hv, -, hle⟩ := ofNat?_spec h0 (significand_lt_limit h)
  rw [hy]
  exact ⟨hv, hle⟩

theorem valid_significand {n : Nat} (h : n ≤ maxSignificand) :
    ((ofNat? n).getD .zero).Valid := by
  rcases Nat.eq_zero_or_pos n with rfl | h0
  · exact valid_zero
  · exact (significand_spec h0 h).1

/-- What is put together from a scaled significand. -/
private theorem assemble_of_scale (negative : Bool) {n : Nat} {e : Int} {y : Binary64}
    (h : scale 5 ((ofNat? n).getD .zero) e = .ok y) :
    assemble negative n e = .ok (.float (if negative then y.neg else y)) := by
  unfold assemble
  rw [h]
  rfl

theorem valid_of_assemble {negative : Bool} {n : Nat} {e : Int} {m : Number}
    (hn : n ≤ maxSignificand) (h : assemble negative n e = .ok m) :
    ∃ y : Binary64, m = .float y ∧ y.Valid := by
  cases hs : scale 5 ((ofNat? n).getD .zero) e with
  | error err =>
      rw [assemble, hs] at h
      cases h
  | ok y =>
      rw [assemble_of_scale negative hs] at h
      cases h
      have hy := valid_of_scale (valid_significand hn) hs
      refine ⟨_, rfl, ?_⟩
      split_ifs
      · exact hy.neg
      · exact hy

theorem assemble_isOk_of_neg (negative : Bool) (n : Nat) {e : Int} (h : e < 0) :
    ∃ m, assemble negative n e = .ok m := by
  obtain ⟨y, hy⟩ := scale_isOk_of_neg 5 ((ofNat? n).getD .zero) h
  exact ⟨_, assemble_of_scale negative hy⟩

theorem assemble_isOk_of_lt (negative : Bool) {n : Nat} {e : Int} (hn0 : 0 < n)
    (hn : n ≤ maxSignificand) (he0 : 0 ≤ e) (he : e ≤ 308)
    (h : (n : ℚ) * 10 ^ e * (1 + 1 / 2 ^ 53) ^ 2 < limit) :
    ∃ m, assemble negative n e = .ok m := by
  obtain ⟨k, rfl⟩ := Int.eq_ofNat_of_zero_le he0
  obtain ⟨-, -, hp⟩ := power_spec (e := k) (by omega)
  obtain ⟨-, hs⟩ := significand_spec hn0 hn
  have hprod : ((ofNat? n).getD .zero).magnitude * (power (k : Int).natAbs).magnitude < limit := by
    refine lt_of_le_of_lt (mul_le_mul hs hp ?_ (by positivity)) (lt_of_le_of_lt (le_of_eq ?_) h)
    · exact mul_nonneg (Nat.cast_nonneg _) (zpow_nonneg zero_le_two _)
    · rw [zpow_natCast]
      ring
  obtain ⟨y, hy⟩ := scale_isOk_of_lt 4 he0 he hprod
  exact ⟨_, assemble_of_scale negative hy⟩

/-- The two greatest numbers: rounded twice, their decimals come too close to the limit for the
bound on what is gained. -/
private theorem greatest_isOk (negative : Bool) :
    ∀ m ∈ [Nat.pow 2 53 - 2, Nat.pow 2 53 - 1],
      (scale 5 ((ofNat? (shortest ⟨negative, m, 971⟩).1).getD .zero)
        (shortest ⟨negative, m, 971⟩).2).toBool = true := by
  cases negative <;> decide +kernel

/-- Below the two greatest numbers, twice rounded decimals stay below the limit. -/
private theorem twice_rounded_lt_limit {x : Binary64} (hx : x.Valid)
    (h : x.exponent = 971 → x.mantissa + 3 ≤ 2 ^ 53) :
    ((x.mantissa + 1 / 2 : ℚ) * 2 ^ x.exponent) * (1 + 1 / 2 ^ 53) ^ 2 < limit := by
  obtain ⟨hm, -, he⟩ := hx
  have hp : (0 : ℚ) < 2 ^ halfPlace := by positivity
  rw [cast_limit]
  rcases Int.lt_or_eq_of_le he with hlt | heq
  · have hle : (2 : ℚ) ^ x.exponent ≤ 2 ^ halfPlace := by
      rw [← zpow_natCast]
      exact zpow_le_zpow_right₀ one_le_two (Int.lt_add_one_iff.mp hlt)
    have hmq : (x.mantissa : ℚ) + 1 ≤ 2 ^ 53 := by exact_mod_cast hm
    have hprod : (x.mantissa + 1 / 2 : ℚ) * 2 ^ x.exponent ≤ 2 ^ 53 * 2 ^ halfPlace :=
      mul_le_mul (by linarith) hle (zpow_nonneg zero_le_two _) (by positivity)
    generalize (x.mantissa + 1 / 2 : ℚ) * 2 ^ x.exponent = a at *
    generalize (2 : ℚ) ^ halfPlace = p at *
    norm_num
    linarith
  · have hmq : (x.mantissa : ℚ) + 3 ≤ 2 ^ 53 := by exact_mod_cast h heq
    have hexp : (2 : ℚ) ^ x.exponent = 2 * 2 ^ halfPlace := by
      rw [heq, show (971 : ℤ) = ((halfPlace + 1 : Nat) : ℤ) by rfl, zpow_natCast, pow_succ, mul_comm]
    rw [hexp]
    generalize (2 : ℚ) ^ halfPlace = p at *
    have hprod : (x.mantissa + 1 / 2 : ℚ) * (2 * p) ≤ (2 ^ 54 - 5) * p := by
      rw [← mul_assoc]
      exact mul_le_mul_of_nonneg_right (by linarith) hp.le
    generalize (x.mantissa + 1 / 2 : ℚ) * (2 * p) = a at *
    norm_num at hprod ⊢
    linarith

/-- The shortest decimal of a number is put together again. -/
theorem assemble_shortest_isOk (negative : Bool) {x : Binary64} (hx : x.Valid)
    (h0 : 0 < x.mantissa) : ∃ m, assemble negative x.shortest.1 x.shortest.2 = .ok m := by
  rcases Int.lt_or_le x.shortest.2 0 with hneg | hpos
  · exact assemble_isOk_of_neg negative _ hneg
  obtain ⟨hd0, hd17, -, hhigh⟩ := shortest_spec hx h0
  by_cases htop : x.exponent = 971 ∧ 2 ^ 53 < x.mantissa + 3
  · have hm : x.mantissa ∈ [Nat.pow 2 53 - 2, Nat.pow 2 53 - 1] := by
      have := hx.1
      have h53 : Nat.pow 2 53 = 2 ^ 53 := rfl
      simp only [List.mem_cons, List.not_mem_nil, or_false]
      omega
    have hgreatest := greatest_isOk x.negative x.mantissa hm
    have hxe : (⟨x.negative, x.mantissa, 971⟩ : Binary64) = x := by rw [← htop.1]
    rw [hxe] at hgreatest
    cases hs : scale 5 ((ofNat? x.shortest.1).getD .zero) x.shortest.2 with
    | error e => rw [hs] at hgreatest; cases hgreatest
    | ok y => exact ⟨_, assemble_of_scale negative hs⟩
  · refine assemble_isOk_of_lt negative hd0 (Nat.le_trans hd17 (by decide)) hpos
      (shortest_exponent hx h0).2 (lt_of_le_of_lt ?_
        (twice_rounded_lt_limit hx fun e => not_lt.mp fun h => htop ⟨e, h⟩))
    exact mul_le_mul_of_nonneg_right hhigh (by positivity)

/-! Decimals. -/

/-- The written form of `d * 10 ^ e`. -/
def decimalChars (d : Nat) (e : Int) : List Char :=
  let digits := Nat.toDigits 10 d
  let top := e + digits.length - 1
  if isPositional top then positional digits e else scientific digits top

/-- Characters that are read as a significand with an exponent, whatever sign stood before them. -/
def Reads (cs : List Char) (n : Nat) (e : Int) : Prop :=
  ∀ (negative : Bool) (r : Bytes), EndsNumber r →
    readNumber negative (octets cs ++ r) = (assemble negative n e).map (·, r)

private theorem readTail_point (negative : Bool) (n : Nat) (cs : List Char) (r : Bytes) :
    readTail negative n (octets ('.' :: cs) ++ r) = readFraction negative n 0 (octets cs ++ r) :=
  rfl

private theorem readTail_letter (negative : Bool) (n : Nat) (cs : List Char) (r : Bytes) :
    readTail negative n (octets ('e' :: cs) ++ r) = readExponent negative n 0 (octets cs ++ r) :=
  rfl

private theorem length_toDigits_le {d : Nat} (h : d ≤ 10 ^ 17) : (Nat.toDigits 10 d).length ≤ 18 :=
  (Nat.length_toDigits_le_iff (by decide) (by decide)).mpr (Nat.lt_of_le_of_lt h (by decide))

/-- Digits with the point among them. -/
theorem reads_point {c : Char} {ds fs : List Char} (hds : AllDigits (c :: ds)) (h0 : c ≠ '0')
    (hfs : AllDigits fs) (hne : fs ≠ [])
    (hmax : Nat.ofDigitChars 10 (c :: ds ++ fs) 0 ≤ maxSignificand) :
    Reads (c :: ds ++ '.' :: fs) (Nat.ofDigitChars 10 (c :: ds ++ fs) 0) (-(fs.length : Int)) := by
  intro negative r hr
  rw [Nat.ofDigitChars_append] at hmax ⊢
  have hle := Nat.le_trans (le_ofDigitChars fs _) hmax
  rw [octets_append, List.append_assoc, readNumber_cons negative hds h0 hle rfl,
    readTail_point, readFraction_digits negative hfs hne hmax hr]

theorem reads_zero_point {fs : List Char} (hfs : AllDigits fs) (hne : fs ≠ [])
    (hmax : Nat.ofDigitChars 10 fs 0 ≤ maxSignificand) :
    Reads (['0', '.'] ++ fs) (Nat.ofDigitChars 10 fs 0) (-(fs.length : Int)) := by
  intro negative r hr
  rw [octets_append, List.append_assoc]
  exact readFraction_digits negative hfs hne hmax hr

private theorem ofDigitChars_split (d k : Nat) :
    Nat.ofDigitChars 10 ((Nat.toDigits 10 d).take k ++ (Nat.toDigits 10 d).drop k) 0 = d := by
  rw [List.take_append_drop, Nat.ofDigitChars_ten_toDigits]

private theorem reads_positional {d : Nat} (hd0 : 0 < d) (hd : d ≤ 10 ^ 17) {e : Int}
    (htop : e + (Nat.toDigits 10 d).length - 1 < 16) :
    ∃ n k, Reads (positional (Nat.toDigits 10 d) e) n k ∧ n ≤ maxSignificand ∧
      (k < 0 ∨ n = d ∧ k = e) := by
  obtain ⟨c, ds, hcons, hc, h0⟩ := toDigits_eq_cons hd0
  have hall := allDigits_toDigits d
  have hdmax : d ≤ maxSignificand := Nat.le_trans hd (by decide)
  unfold positional
  dsimp only
  split_ifs with he hplaces
  · obtain ⟨k, rfl⟩ := Int.eq_ofNat_of_zero_le he
    have hval : Nat.ofDigitChars 10 (c :: ds ++ List.replicate k '0' ++ ['0']) 0 =
        10 ^ (k + 1) * d := by
      rw [← hcons, List.append_assoc, ← List.replicate_succ', Nat.ofDigitChars_append,
        Nat.ofDigitChars_replicate_zero, Nat.ofDigitChars_ten_toDigits]
    have hbound : 10 ^ (k + 1) * d ≤ maxSignificand := by
      have hlt := (length_toDigits_spec hd0).2
      have hpow : 10 ^ (k + 1) * 10 ^ (Nat.toDigits 10 d).length ≤ 10 ^ 17 := by
        rw [← Nat.pow_add]
        exact Nat.pow_le_pow_right (by decide) (by omega)
      have hmul := Nat.mul_le_mul_left (10 ^ (k + 1)) hlt.le
      exact Nat.le_trans (Nat.le_trans hmul hpow) (by decide)
    refine ⟨10 ^ (k + 1) * d, -1, ?_, hbound, .inl (by decide)⟩
    rw [← hval] at hbound ⊢
    rw [hcons, Int.toNat_natCast]
    refine @reads_point c (ds ++ List.replicate k '0') ['0'] ?_ h0 (allDigits_replicate_zero 1) (by simp) hbound
    exact (hcons ▸ hall).append (allDigits_replicate_zero k)
  · obtain ⟨j, hj⟩ : ∃ j, (Nat.toDigits 10 d).length - e.natAbs = j + 1 :=
      ⟨(Nat.toDigits 10 d).length - e.natAbs - 1, by omega⟩
    have hlen : ((Nat.toDigits 10 d).drop (j + 1)).length = e.natAbs := by
      rw [List.length_drop]
      omega
    have hsplit := ofDigitChars_split d (j + 1)
    refine ⟨d, e, ?_, hdmax, .inr ⟨rfl, rfl⟩⟩
    rw [hj]
    have htake : (Nat.toDigits 10 d).take (j + 1) = c :: ds.take j := by rw [hcons]; rfl
    have hneg : e = -(((Nat.toDigits 10 d).drop (j + 1)).length : Int) := by omega
    have hread := @reads_point c (ds.take j) ((Nat.toDigits 10 d).drop (j + 1))
      (htake ▸ hall.take _) h0 (hall.drop _) (List.ne_nil_of_length_pos (by omega))
      (by rwa [← htake, hsplit])
    rwa [← htake, hsplit, ← hneg] at hread
  · refine ⟨d, e, ?_, hdmax, .inr ⟨rfl, rfl⟩⟩
    have hval : Nat.ofDigitChars 10
        (List.replicate (e.natAbs - (Nat.toDigits 10 d).length) '0' ++ Nat.toDigits 10 d) 0 = d := by
      rw [Nat.ofDigitChars_append, Nat.ofDigitChars_replicate_zero, Nat.mul_zero,
        Nat.ofDigitChars_ten_toDigits]
    have hread := reads_zero_point ((allDigits_replicate_zero _).append hall)
      (List.append_ne_nil_of_right_ne_nil _ Nat.toDigits_ne_nil) (by rwa [hval])
    rw [hval, List.length_append, List.length_replicate] at hread
    rw [List.append_assoc]
    convert hread using 1
    omega

private theorem reads_scientific {d : Nat} (hd0 : 0 < d) (hd : d ≤ 10 ^ 17) {e : Int}
    (he1 : -1092 ≤ e) (he2 : e ≤ 308) :
    Reads (scientific (Nat.toDigits 10 d) (e + (Nat.toDigits 10 d).length - 1)) d e := by
  obtain ⟨c, ds, hcons, hc, h0⟩ := toDigits_eq_cons hd0
  have hall := allDigits_toDigits d
  have hdmax : d ≤ maxSignificand := Nat.le_trans hd (by decide)
  have hlen := length_toDigits_le hd
  have hval := @Nat.ofDigitChars_ten_toDigits d
  rw [hcons] at hall hlen hval ⊢
  generalize htop : e + ((c :: ds).length : Int) - 1 = top
  have hmax : top.natAbs ≤ maxExponent := by
    have : (2000 : Nat) ≤ maxExponent := by decide
    omega
  have hclamp : ∀ k : Int, k = e → clampExponent k = e := by
    rintro k rfl
    unfold clampExponent
    omega
  intro negative r hr
  have hexp : ∀ n start, readExponent negative n start
        (octets ((if top < 0 then '-' else '+') :: Nat.toDigits 10 top.natAbs) ++ r) =
      (assemble negative n (clampExponent (start + top))).map (·, r) := by
    intro n start
    rw [← List.singleton_append, octets_append, List.append_assoc]
    exact readExponent_digits negative n start hmax hr.not_startsWithDigit
  unfold scientific
  dsimp only
  cases ds with
  | nil =>
      have hread := readNumber_cons negative (r := octets ('e' ::
        (if top < 0 then '-' else '+') :: Nat.toDigits 10 top.natAbs) ++ r) hall h0
        (by rwa [hval]) rfl
      rw [hval, readTail_letter, hexp, hclamp _ (by simp at htop; omega), ← List.append_assoc,
        ← octets_append] at hread
      exact hread
  | cons f fs =>
      have hfs : AllDigits (f :: fs) := fun x hx => hall x (List.mem_cons_of_mem _ hx)
      have hsplit : Nat.ofDigitChars 10 (f :: fs) (Nat.ofDigitChars 10 [c] 0) = d := by
        rw [← Nat.ofDigitChars_append]
        exact hval
      have hc1 : AllDigits [c] := fun x hx => hall x (List.mem_cons.mpr (.inl (List.mem_singleton.mp hx)))
      have hle := le_ofDigitChars (f :: fs) (Nat.ofDigitChars 10 [c] 0)
      rw [hsplit] at hle
      have hread := readNumber_cons negative (r := octets ('.' :: ((f :: fs) ++ 'e' ::
        (if top < 0 then '-' else '+') :: Nat.toDigits 10 top.natAbs)) ++ r) hc1 h0
        (Nat.le_trans hle hdmax) rfl
      rw [readTail_point, octets_append, List.append_assoc] at hread
      have hfrac := readFraction_exponent negative (n := Nat.ofDigitChars 10 [c] 0)
        (r := octets ((if top < 0 then '-' else '+') :: Nat.toDigits 10 top.natAbs) ++ r) hfs
        (List.cons_ne_nil _ _) (by rwa [hsplit])
      rw [hsplit, hexp, hclamp _ (by simp at htop ⊢; omega)] at hfrac
      have hchars : (c :: f :: fs).take 1 ++ (if (c :: f :: fs).length = 1 then []
          else '.' :: (c :: f :: fs).drop 1) ++ ['e', if top < 0 then '-' else '+'] ++
          Nat.toDigits 10 top.natAbs = [c] ++ '.' :: ((f :: fs) ++ 'e' ::
          (if top < 0 then '-' else '+') :: Nat.toDigits 10 top.natAbs) := by
        simp
      rw [hchars, octets_append, List.append_assoc]
      exact hread.trans hfrac

private theorem reads_decimal {d : Nat} (hd0 : 0 < d) (hd : d ≤ 10 ^ 17) {e : Int}
    (he1 : -1092 ≤ e) (he2 : e ≤ 308) :
    ∃ n k, Reads (decimalChars d e) n k ∧ n ≤ maxSignificand ∧ (k < 0 ∨ n = d ∧ k = e) := by
  unfold decimalChars
  dsimp only
  split_ifs with h
  · simp only [isPositional, Bool.and_eq_true, decide_eq_true_eq] at h
    exact reads_positional hd0 hd h.2
  · exact ⟨d, e, reads_scientific hd0 hd he1 he2, Nat.le_trans hd (by decide), .inr ⟨rfl, rfl⟩⟩

def unsignedChars (x : Binary64) : List Char :=
  if x.isZero then ['0', '.', '0'] else decimalChars x.shortest.1 x.shortest.2

theorem floatChars_eq (x : Binary64) :
    floatChars x = (if x.negative then ['-'] else []) ++ unsignedChars x := by
  unfold floatChars unsignedChars decimalChars
  split_ifs <;> rfl

/-- A written number of the format is read as one, whatever comes after it. -/
theorem readNumber_unsignedChars {x : Binary64} (hx : x.Valid) :
    ∃ y : Binary64, y.Valid ∧ ∀ r, EndsNumber r →
      readNumber x.negative (octets (unsignedChars x) ++ r) = .ok (.float y, r) := by
  obtain ⟨n, k, hread, hn, m, hm⟩ : ∃ n k, Reads (unsignedChars x) n k ∧ n ≤ maxSignificand ∧
      ∃ m, assemble x.negative n k = .ok m := by
    unfold unsignedChars
    split_ifs with h0
    · obtain ⟨m, hm⟩ := assemble_isOk_of_neg x.negative 0 (e := -1) (by decide)
      exact ⟨0, -1, @reads_zero_point ['0'] (allDigits_replicate_zero 1) (by simp) (by decide),
        by decide, m, hm⟩
    · have hpos : 0 < x.mantissa := Nat.pos_of_ne_zero fun e => h0 (beq_iff_eq.mpr e)
      obtain ⟨hd0, hd, -, -⟩ := shortest_spec hx hpos
      obtain ⟨he1, he2⟩ := shortest_exponent hx hpos
      obtain ⟨n, k, hread, hn, hk | ⟨rfl, rfl⟩⟩ := reads_decimal hd0 hd he1 he2
      · exact ⟨n, k, hread, hn, assemble_isOk_of_neg x.negative n hk⟩
      · exact ⟨_, _, hread, hn, assemble_shortest_isOk x.negative hx hpos⟩
  obtain ⟨y, rfl, hy⟩ := valid_of_assemble hn hm
  refine ⟨y, hy, fun r hr => ?_⟩
  rw [hread x.negative r hr, hm]
  rfl

def rereadFloat (x : Binary64) : Binary64 :=
  match readNumber x.negative (octets (unsignedChars x)) with
  | .ok (.float y, _) => y
  | _ => x

theorem readNumber_float {x : Binary64} (hx : x.Valid) {r : Bytes} (hr : EndsNumber r) :
    readNumber x.negative (octets (unsignedChars x) ++ r) = .ok (.float (rereadFloat x), r) := by
  obtain ⟨y, -, h⟩ := readNumber_unsignedChars hx
  have hnil := h [] trivial
  rw [List.append_nil] at hnil
  rw [h r hr, rereadFloat, hnil]

/-- The greatest number but one is read back as the greatest one. -/
example : rereadFloat ⟨false, Nat.pow 2 53 - 2, 971⟩ = ⟨false, Nat.pow 2 53 - 1, 971⟩ := by
  decide +kernel

/-! Numbers of all kinds. -/

def Number.Readable : Number → Prop
  | .natural _ => True
  | .negative n => 1 ≤ n ∧ n ≤ Nat.pow 2 63
  | .float x => x.Valid

def Number.reread : Number → Number
  | .natural n => .natural n
  | .negative n => .negative n
  | .float x => .float (rereadFloat x)

/-- A number is written as a sign, or none, and what is read back after it. -/
theorem Number.Readable.chars {n : Number} (h : n.Readable) :
    ∃ (negative : Bool) (cs : List Char), n.chars = (if negative then ['-'] else []) ++ cs ∧
      ∀ r, EndsNumber r → readNumber negative (octets cs ++ r) = .ok (n.reread, r) := by
  cases n with
  | natural n => exact ⟨false, _, rfl, fun r hr => readNumber_natural n hr⟩
  | negative n => exact ⟨true, _, rfl, fun r hr => readNumber_negative h.1 h.2 hr⟩
  | float x => exact ⟨x.negative, _, floatChars_eq x, fun r hr => readNumber_float h hr⟩

end Upkeep.Json
