import Upkeep.Json.Reader
import Upkeep.Proofs.Text.Octets

/-!
Decimal digits read back. A count in decimal digits is read as that count, as long as it has room
in what it is read into and no further digit follows.
-/

namespace Upkeep.Json

open Utf8

def AllDigits (ds : List Char) : Prop := ∀ c ∈ ds, c.isDigit = true

theorem allDigits_toDigits (n : Nat) : AllDigits (Nat.toDigits 10 n) :=
  fun _ hc => Nat.isDigit_of_mem_toDigits (by decide) (by decide) hc

theorem allDigits_replicate_zero (n : Nat) : AllDigits (List.replicate n '0') := by
  intro c hc
  rw [List.eq_of_mem_replicate hc]
  rfl

theorem AllDigits.append {ds es : List Char} (hd : AllDigits ds) (he : AllDigits es) :
    AllDigits (ds ++ es) :=
  fun c hc => (List.mem_append.mp hc).elim (hd c) (he c)

theorem AllDigits.take {ds : List Char} (h : AllDigits ds) (n : Nat) : AllDigits (ds.take n) :=
  fun c hc => h c (List.mem_of_mem_take hc)

theorem AllDigits.drop {ds : List Char} (h : AllDigits ds) (n : Nat) : AllDigits (ds.drop n) :=
  fun c hc => h c (List.mem_of_mem_drop hc)

private theorem isDigit_bounds {c : Char} (h : c.isDigit = true) : 48 ≤ c.toNat ∧ c.toNat ≤ 57 := by
  simp only [Char.isDigit, Bool.and_eq_true, decide_eq_true_eq] at h
  exact ⟨h.1, h.2⟩

theorem octets_cons_digit {c : Char} (h : c.isDigit = true) (cs : List Char) :
    octets (c :: cs) = UInt8.ofNat c.toNat :: octets cs :=
  octets_cons_of_lt (Nat.lt_of_le_of_lt (isDigit_bounds h).2 (by decide)) cs

private theorem toNat_digit {c : Char} (h : c.isDigit = true) :
    (UInt8.ofNat c.toNat).toNat = c.toNat :=
  UInt8.toNat_ofNat_of_lt' (Nat.lt_of_le_of_lt (isDigit_bounds h).2 (by decide))

theorem isDigit_ofNat {c : Char} (h : c.isDigit = true) :
    Ascii.isDigit (UInt8.ofNat c.toNat) = true := by
  have hb := isDigit_bounds h
  simp only [Ascii.isDigit, Bool.and_eq_true, decide_eq_true_eq, UInt8.le_iff_toNat_le,
    toNat_digit h]
  exact hb

theorem digitValue_ofNat {c : Char} (h : c.isDigit = true) :
    Ascii.digitValue (UInt8.ofNat c.toNat) = c.toNat - 48 := by
  rw [Ascii.digitValue, toNat_digit h]

/-- Each digit has one octet. -/
theorem octets_digits {ds : List Char} (h : AllDigits ds) :
    octets ds = ds.map fun c => UInt8.ofNat c.toNat := by
  induction ds with
  | nil => rfl
  | cons c ds ih =>
      rw [octets_cons_digit (h c List.mem_cons_self), List.map_cons,
        ih fun d hd => h d (List.mem_cons_of_mem c hd)]

theorem length_octets_digits {ds : List Char} (h : AllDigits ds) :
    (octets ds).length = ds.length := by
  rw [octets_digits h, List.length_map]

theorem isDigit_of_mem_octets {ds : List Char} (h : AllDigits ds) {b : UInt8} (hb : b ∈ octets ds) :
    Ascii.isDigit b = true := by
  rw [octets_digits h] at hb
  obtain ⟨c, hc, rfl⟩ := List.mem_map.mp hb
  exact isDigit_ofNat (h c hc)

/-- More digits never make less. -/
theorem le_ofDigitChars (ds : List Char) (n : Nat) : n ≤ Nat.ofDigitChars 10 ds n := by
  rw [Nat.ofDigitChars_eq_ofDigitChars_zero]
  exact Nat.le_trans (Nat.le_mul_of_pos_left n (Nat.pow_pos (by decide))) (Nat.le_add_right _ _)

theorem digits_of_not_startsWithDigit {r : Bytes} (n : Nat) (h : startsWithDigit r = false) :
    digits n r = (n, r) := by
  cases r with
  | nil => rfl
  | cons b r => simp [digits, show Ascii.isDigit b = false from h]

theorem skipDigits_of_not_startsWithDigit {r : Bytes} (h : startsWithDigit r = false) :
    skipDigits r = r := by
  cases r with
  | nil => rfl
  | cons b r => simp [skipDigits, show Ascii.isDigit b = false from h]

theorem digits_octets {ds : List Char} (h : AllDigits ds) {n : Nat} {r : Bytes}
    (hmax : Nat.ofDigitChars 10 ds n ≤ maxSignificand) (hr : startsWithDigit r = false) :
    digits n (octets ds ++ r) = (Nat.ofDigitChars 10 ds n, r) := by
  induction ds generalizing n with
  | nil => simpa using digits_of_not_startsWithDigit n hr
  | cons c ds ih =>
      have hc := h c List.mem_cons_self
      have hstep : n * 10 + (c.toNat - 48) = 10 * n + (c.toNat - '0'.toNat) := by
        rw [Nat.mul_comm]; rfl
      rw [Nat.ofDigitChars_cons, ← hstep] at hmax ⊢
      have hle := Nat.le_trans (le_ofDigitChars ds _) hmax
      rw [octets_cons_digit hc, List.cons_append, digits, isDigit_ofNat hc, digitValue_ofNat hc,
        Bool.true_and, if_pos (decide_eq_true hle)]
      exact ih (fun d hd => h d (List.mem_cons_of_mem _ hd)) hmax

theorem exponentDigits_octets {ds : List Char} (h : AllDigits ds) {n : Nat} {r : Bytes}
    (hmax : Nat.ofDigitChars 10 ds n ≤ maxExponent) (hr : startsWithDigit r = false) :
    exponentDigits n (octets ds ++ r) = (some (Nat.ofDigitChars 10 ds n), r) := by
  induction ds generalizing n with
  | nil =>
      cases r with
      | nil => rfl
      | cons b r => simp [exponentDigits, show Ascii.isDigit b = false from hr]
  | cons c ds ih =>
      have hc := h c List.mem_cons_self
      have hstep : n * 10 + (c.toNat - 48) = 10 * n + (c.toNat - '0'.toNat) := by
        rw [Nat.mul_comm]; rfl
      rw [Nat.ofDigitChars_cons, ← hstep] at hmax ⊢
      have hle := Nat.le_trans (le_ofDigitChars ds _) hmax
      rw [octets_cons_digit hc, List.cons_append, exponentDigits, isDigit_ofNat hc,
        digitValue_ofNat hc, if_pos rfl, if_pos hle]
      exact ih (fun d hd => h d (List.mem_cons_of_mem _ hd)) hmax

private theorem digitChar_of_pos : ∀ n < 10, 0 < n →
    n.digitChar.isDigit = true ∧ n.digitChar ≠ '0' := by
  decide

/-- A count that is not zero does not start with the digit zero. -/
theorem toDigits_eq_cons {n : Nat} (h : 0 < n) :
    ∃ c ds, Nat.toDigits 10 n = c :: ds ∧ c.isDigit = true ∧ c ≠ '0' := by
  induction n using Nat.strongRecOn with
  | ind n ih =>
      by_cases hn : n < 10
      · exact ⟨n.digitChar, [], Nat.toDigits_of_lt_base hn, digitChar_of_pos n hn h⟩
      · obtain ⟨c, ds, e, hc, h0⟩ := ih (n / 10) (by omega) (by omega)
        exact ⟨c, ds ++ [(n % 10).digitChar],
          by rw [Nat.toDigits_of_base_le (by decide) (by omega), e]; rfl, hc, h0⟩

def EndsNumber : Bytes → Prop
  | [] => True
  | b :: _ => Ascii.isDigit b = false ∧ b ≠ Ascii.point ∧ isExponentLetter b = false

theorem EndsNumber.not_startsWithDigit {r : Bytes} (h : EndsNumber r) :
    startsWithDigit r = false := by
  cases r with
  | nil => rfl
  | cons b r => exact h.1

theorem readTail_of_endsNumber {negative : Bool} {n : Nat} {r : Bytes} (h : EndsNumber r) :
    readTail negative n r = .ok (whole negative n, r) := by
  cases r with
  | nil => rfl
  | cons b r => simp [readTail, h.2.1, h.2.2]

/-- Digits that do not start with zero are read whole; what follows them decides what number they
start. -/
theorem readNumber_cons (negative : Bool) {c : Char} {ds : List Char} {r : Bytes}
    (hds : AllDigits (c :: ds)) (h0 : c ≠ '0')
    (hmax : Nat.ofDigitChars 10 (c :: ds) 0 ≤ maxSignificand) (hr : startsWithDigit r = false) :
    readNumber negative (octets (c :: ds) ++ r) =
      readTail negative (Nat.ofDigitChars 10 (c :: ds) 0) r := by
  have hc := hds c List.mem_cons_self
  have hval : Nat.ofDigitChars 10 (c :: ds) 0 = Nat.ofDigitChars 10 ds (c.toNat - 48) := by
    rw [Nat.ofDigitChars_cons, Nat.mul_zero, Nat.zero_add]
    rfl
  have hz : (UInt8.ofNat c.toNat == Ascii.zero) = false := by
    refine beq_false_of_ne fun e => h0 ?_
    have h48 : c.toNat = 48 := by rw [← toNat_digit hc, e]; rfl
    rw [← Char.ofNat_toNat c, h48]
  rw [hval] at hmax ⊢
  rw [octets_cons_digit hc, List.cons_append, readNumber, hz, isDigit_ofNat hc,
    digitValue_ofNat hc, digits_octets (fun d hd => hds d (List.mem_cons_of_mem _ hd)) hmax hr]
  simp [hr]

/-- The digits of a count are read as the count. -/
theorem readNumber_digits (negative : Bool) {n : Nat} {r : Bytes} (hn : n ≤ maxSignificand)
    (hr : startsWithDigit r = false) :
    readNumber negative (octets (Nat.toDigits 10 n) ++ r) = readTail negative n r := by
  rcases Nat.eq_zero_or_pos n with rfl | hpos
  · have h0 : octets (Nat.toDigits 10 0) ++ r = Ascii.zero :: r := rfl
    rw [h0]
    simp [readNumber, hr]
  · obtain ⟨c, ds, e, hc, h0⟩ := toDigits_eq_cons hpos
    have hval := @Nat.ofDigitChars_ten_toDigits n
    rw [e] at hval
    rw [e, readNumber_cons negative (e ▸ allDigits_toDigits n) h0 (by rwa [hval]) hr, hval]

/-! After the point and after the letter of the exponent. -/

/-- Digits after the point, with nothing left behind. -/
theorem readFraction_digits (negative : Bool) {n : Nat} {ds : List Char} {r : Bytes}
    (hds : AllDigits ds) (hne : ds ≠ []) (hmax : Nat.ofDigitChars 10 ds n ≤ maxSignificand)
    (hr : EndsNumber r) :
    readFraction negative n 0 (octets ds ++ r) =
      (assemble negative (Nat.ofDigitChars 10 ds n) (-(ds.length : Int))).map (·, r) := by
  have hlen : (octets ds ++ r).length - r.length = ds.length := by
    rw [List.length_append, length_octets_digits hds, Nat.add_sub_cancel]
  have htaken : (ds.length == 0) = false := beq_false_of_ne fun e => hne (List.eq_nil_of_length_eq_zero e)
  unfold readFraction
  rw [digits_octets hds hmax hr.not_startsWithDigit]
  simp only [hlen, htaken, skipDigits_of_not_startsWithDigit hr.not_startsWithDigit, Int.zero_sub,
    Bool.false_and, Bool.false_eq_true, if_false]
  cases r with
  | nil => cases assemble negative (Nat.ofDigitChars 10 ds n) (-(ds.length : Int)) <;> rfl
  | cons b r =>
      simp only [hr.2.2, Bool.false_eq_true, if_false]
      cases assemble negative (Nat.ofDigitChars 10 ds n) (-(ds.length : Int)) <;> rfl

/-- Digits after the point, with an exponent behind. -/
theorem readFraction_exponent (negative : Bool) {n : Nat} {ds : List Char} {r : Bytes}
    (hds : AllDigits ds) (hne : ds ≠ []) (hmax : Nat.ofDigitChars 10 ds n ≤ maxSignificand) :
    readFraction negative n 0 (octets ds ++ 0x65 :: r) =
      readExponent negative (Nat.ofDigitChars 10 ds n) (-(ds.length : Int)) r := by
  have hlen : (octets ds ++ 0x65 :: r).length - (0x65 :: r : Bytes).length = ds.length := by
    rw [List.length_append, length_octets_digits hds, Nat.add_sub_cancel]
  have htaken : (ds.length == 0) = false := beq_false_of_ne fun e => hne (List.eq_nil_of_length_eq_zero e)
  have hr : startsWithDigit (0x65 :: r) = false := rfl
  unfold readFraction
  rw [digits_octets hds hmax hr]
  simp only [hlen, htaken, skipDigits_of_not_startsWithDigit hr, Int.zero_sub,
    Bool.false_and, Bool.false_eq_true, if_false]
  rfl

/-- A signed exponent in decimal digits. -/
theorem readExponent_digits (negative : Bool) (n : Nat) (start : Int) {top : Int} {r : Bytes}
    (htop : top.natAbs ≤ maxExponent) (hr : startsWithDigit r = false) :
    readExponent negative n start
        (octets [if top < 0 then '-' else '+'] ++ (octets (Nat.toDigits 10 top.natAbs) ++ r)) =
      (assemble negative n (clampExponent (start + top))).map (·, r) := by
  obtain ⟨c, ds, hcons⟩ := List.exists_cons_of_ne_nil (@Nat.toDigits_ne_nil top.natAbs 10)
  have hc : c.isDigit = true := allDigits_toDigits top.natAbs c (hcons ▸ List.mem_cons_self)
  have hread := exponentDigits_octets (n := 0) (allDigits_toDigits top.natAbs)
    (by rwa [Nat.ofDigitChars_ten_toDigits]) hr
  rw [Nat.ofDigitChars_ten_toDigits] at hread
  rw [hcons, octets_cons_digit hc, List.cons_append] at hread
  rw [hcons, octets_cons_digit hc]
  rcases Int.lt_or_le top 0 with hneg | hpos
  · have hsum : start - (top.natAbs : Int) = start + top := by omega
    have hsign : octets [if top < 0 then '-' else '+'] = [0x2d] := by rw [if_pos hneg]; rfl
    rw [hsign]
    simp only [readExponent, List.cons_append, List.nil_append, isDigit_ofNat hc, hread, hsum,
      Bool.not_true, Bool.false_eq_true, if_false, if_true]
    cases assemble negative n (clampExponent (start + top)) <;> rfl
  · have hsum : start + (top.natAbs : Int) = start + top := by omega
    have hsign : octets [if top < 0 then '-' else '+'] = [0x2b] := by
      rw [if_neg (Int.not_lt.mpr hpos)]; rfl
    rw [hsign]
    simp only [readExponent, List.cons_append, List.nil_append, isDigit_ofNat hc, hread, hsum,
      Bool.not_true, Bool.false_eq_true, if_false]
    cases assemble negative n (clampExponent (start + top)) <;> rfl

theorem readNumber_natural (n : UInt64) {r : Bytes} (hr : EndsNumber r) :
    readNumber false (octets (Nat.toDigits 10 n.toNat) ++ r) = .ok (.natural n, r) := by
  have hn : n.toNat ≤ maxSignificand := Nat.le_of_lt_succ n.toNat_lt
  rw [readNumber_digits false hn hr.not_startsWithDigit, readTail_of_endsNumber hr]
  simp [whole]

theorem readNumber_negative {n : Nat} (h1 : 1 ≤ n) (h2 : n ≤ Nat.pow 2 63) {r : Bytes}
    (hr : EndsNumber r) :
    readNumber true (octets (Nat.toDigits 10 n) ++ r) = .ok (.negative n, r) := by
  have hn : n ≤ maxSignificand := Nat.le_trans h2 (by decide)
  rw [readNumber_digits true hn hr.not_startsWithDigit, readTail_of_endsNumber hr]
  have h : (1 ≤ n && n ≤ Nat.pow 2 63) = true := by rw [decide_eq_true h1, decide_eq_true h2]; rfl
  simp only [whole, Bool.not_true, Bool.false_eq_true, if_false, h, if_true]

end Upkeep.Json
