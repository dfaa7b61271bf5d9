import Upkeep.Proofs.Json.Digits
import Upkeep.Proofs.Time.Calendar
import Upkeep.Time.Rfc3339

/-!
Points in time as text, read back. A count of seconds up to the end of the year 9999 is written with
a year of four digits and is read as that count.
-/

namespace Upkeep.Rfc3339

open Utf8 Json

def lastPlainSecond : Nat := 253402300799

section Digits

theorem foldl_octets {ds : List Char} (h : AllDigits ds) (n : Nat) :
    (octets ds).foldl (fun v b => v * 10 + Ascii.digitValue b) n = Nat.ofDigitChars 10 ds n := by
  induction ds generalizing n with
  | nil => rw [octets_nil, List.foldl_nil, Nat.ofDigitChars_nil]
  | cons c ds ih =>
      have hc := h c List.mem_cons_self
      rw [octets_cons_digit hc, List.foldl_cons, digitValue_ofNat hc, Nat.ofDigitChars_cons,
        Nat.mul_comm n]
      exact ih (fun d hd => h d (List.mem_cons_of_mem _ hd)) _

theorem all_isDigit_octets {ds : List Char} (h : AllDigits ds) :
    (octets ds).all Ascii.isDigit = true := by
  induction ds with
  | nil => rfl
  | cons c ds ih =>
      have hc := h c List.mem_cons_self
      rw [octets_cons_digit hc, List.all_cons, isDigit_ofNat hc, Bool.true_and]
      exact ih fun d hd => h d (List.mem_cons_of_mem _ hd)

theorem number_octets {ds : List Char} (h : AllDigits ds) (r : Bytes) :
    number ds.length (octets ds ++ r) = .ok (Nat.ofDigitChars 10 ds 0, r) := by
  have hlen := length_octets_digits h
  have htake : (octets ds ++ r).take ds.length = octets ds := by rw [← hlen, List.take_left']; rfl
  have hdrop : (octets ds ++ r).drop ds.length = r := by rw [← hlen, List.drop_left']; rfl
  rw [number]
  simp only [htake, hdrop, hlen, Nat.lt_irrefl, if_false, all_isDigit_octets h, if_true,
    foldl_octets h]

theorem length_padded {width n : Nat} (hwidth : 0 < width) (h : n < Nat.pow 10 width) :
    (padded width n).length = width := by
  have hlen : (Nat.toDigits 10 n).length ≤ width :=
    (Nat.length_toDigits_le_iff (by decide) hwidth).mpr h
  rw [padded, List.length_append, List.length_replicate, Nat.sub_add_cancel hlen]

theorem allDigits_padded (width n : Nat) : AllDigits (padded width n) :=
  (allDigits_replicate_zero _).append (allDigits_toDigits n)

theorem ofDigitChars_padded (width n : Nat) : Nat.ofDigitChars 10 (padded width n) 0 = n := by
  rw [padded, Nat.ofDigitChars_append, Nat.ofDigitChars_replicate_zero, Nat.mul_zero,
    Nat.ofDigitChars_ten_toDigits]

theorem number_padded {width n : Nat} (hwidth : 0 < width) (h : n < Nat.pow 10 width) (r : Bytes) :
    number width (octets (padded width n) ++ r) = .ok (n, r) := by
  have hnumber := number_octets (allDigits_padded width n) r
  rwa [length_padded hwidth h, ofDigitChars_padded] at hnumber

end Digits

def dateChars (d : Date) : List Char :=
  padded 4 d.year ++ '-' :: padded 2 d.month ++ '-' :: padded 2 d.day

def clockChars (c : Clock) : List Char :=
  padded 2 c.hour ++ ':' :: padded 2 c.minute ++ ':' :: padded 2 c.second

theorem date_octets {d : Date} (hyear : d.year ≤ 9999) (hexists : Calendar.exists? d = true)
    (r : Bytes) : date (octets (dateChars d) ++ r) = .ok (d, r) := by
  obtain ⟨hmonth, hday⟩ := Calendar.le_of_exists hexists
  have hchars : octets (dateChars d) ++ r = octets (padded 4 d.year) ++ (0x2d ::
      (octets (padded 2 d.month) ++ (0x2d :: (octets (padded 2 d.day) ++ r)))) := by
    simp [dateChars, octets_append, octets_cons_of_lt]
  have hmark (bs : Bytes) : mark [Ascii.minus] (0x2d :: bs) = .ok bs := rfl
  rw [hchars, date, number_padded (by decide) (show d.year < 10 ^ 4 by omega)]
  simp only [bind, Except.bind, hmark, number_padded (n := d.month) (by decide) (show _ < 10 ^ 2 by omega),
    number_padded (n := d.day) (by decide) (show _ < 10 ^ 2 by omega)]
  rw [if_pos hexists]
  rfl

theorem clock_octets {c : Clock} (hvalid : c.isValid = true) (r : Bytes) :
    clock (octets (clockChars c) ++ r) = .ok (c, r) := by
  obtain ⟨⟨hhour, hminute⟩, hsecond⟩ : (c.hour ≤ 23 ∧ c.minute ≤ 59) ∧ c.second ≤ 60 := by
    simpa [Clock.isValid] using hvalid
  have hchars : octets (clockChars c) ++ r = octets (padded 2 c.hour) ++ (0x3a ::
      (octets (padded 2 c.minute) ++ (0x3a :: (octets (padded 2 c.second) ++ r)))) := by
    simp [clockChars, octets_append, octets_cons_of_lt]
  have hmark (bs : Bytes) : mark [Ascii.colon] (0x3a :: bs) = .ok bs := rfl
  rw [hchars, clock, number_padded (by decide) (show c.hour < 10 ^ 2 by omega)]
  simp only [bind, Except.bind, hmark, number_padded (n := c.minute) (by decide) (show _ < 10 ^ 2 by omega),
    number_padded (n := c.second) (by decide) (show _ < 10 ^ 2 by omega)]
  rfl

theorem length_octets_padded_le (width n : Nat) : width ≤ (octets (padded width n)).length := by
  rw [length_octets_digits (allDigits_padded width n), padded, List.length_append,
    List.length_replicate]
  omega

/-- A date and a time of day are read as the seconds they stand for. -/
theorem parse_octets {text : String} {d : Date} {c : Clock} (hyear : d.year ≤ 9999)
    (hexists : Calendar.exists? d = true) (hvalid : c.isValid = true)
    (htext : encode text = octets (dateChars d) ++ (0x54 :: (octets (clockChars c) ++
      [0x2e, 0x30, 0x30, 0x30, 0x5a]))) :
    parse text = .ok (((Calendar.toDays d : Int) - Calendar.epoch) * 86400 + c.seconds) := by
  have hlength : ¬ (encode text).length < 19 := by
    have h4 := length_octets_padded_le 4 d.year
    have h2 := length_octets_padded_le 2
    have := h2 d.month
    have := h2 d.day
    have := h2 c.hour
    have := h2 c.minute
    have := h2 c.second
    simp [htext, dateChars, clockChars, octets_cons_of_lt]
    omega
  have hmark (bs : Bytes) : mark [0x54, 0x74, Ascii.space] (0x54 :: bs) = .ok bs := rfl
  have hfraction : fraction [0x2e, 0x30, 0x30, 0x30, 0x5a] = .ok [0x5a] := rfl
  have hoffset : offset [0x5a] = .ok (0, []) := rfl
  rw [parse, if_neg hlength, htext]
  simp only [bind, Except.bind, pure, Except.pure, date_octets hyear hexists, hmark,
    clock_octets hvalid, hfraction, hvalid, hoffset]
  simp

def clockOf (seconds : Nat) : Clock := ⟨seconds / 3600, seconds / 60 % 60, seconds % 60⟩

theorem isValid_clockOf {seconds : Nat} (h : seconds < 86400) : (clockOf seconds).isValid = true := by
  have hhour : (clockOf seconds).hour ≤ 23 := by
    simp only [clockOf]
    omega
  have hminute : (clockOf seconds).minute ≤ 59 := Nat.le_of_lt_succ (Nat.mod_lt _ (by decide))
  have hsecond : (clockOf seconds).second ≤ 60 := Nat.le_of_lt (Nat.mod_lt _ (by decide))
  simp [Clock.isValid, hhour, hminute, hsecond]

theorem seconds_clockOf (seconds : Nat) : (clockOf seconds).seconds = seconds := by
  simp only [Clock.seconds, clockOf]
  omega

theorem format?_eq {seconds : Nat} (h : seconds ≤ lastSecond) {d : Date}
    (hd : Calendar.ofDays (seconds / 86400 + Calendar.epoch) = d) (hyear : d.year ≤ 9999) :
    format? seconds = some (String.ofList (dateChars d ++
      ('T' :: (clockChars (clockOf (seconds % 86400)) ++ ['.', '0', '0', '0', 'Z'])))) := by
  rw [format?, if_neg (Nat.not_lt.mpr h)]
  dsimp only
  rw [hd, yearChars, if_pos hyear, dateChars, clockChars, clockOf]
  simp only [List.append_assoc, List.cons_append]

/-- A count of seconds up to the end of the year 9999 is read back from its text. -/
theorem parse_format {seconds : Nat} (h : seconds ≤ lastPlainSecond) :
    ∃ text, format? seconds = some text ∧ parse text = .ok seconds := by
  obtain ⟨hexists, hdays⟩ := Calendar.ofDays_spec (seconds / 86400 + Calendar.epoch)
  have hyear : (Calendar.ofDays (seconds / 86400 + Calendar.epoch)).year < 10000 := by
    refine Calendar.year_ofDays_lt ?_
    rw [show Calendar.daysBefore 10000 = 3652425 by decide, Calendar.epoch]
    unfold lastPlainSecond at h
    omega
  have hlast : seconds ≤ lastSecond := Nat.le_trans h (by decide)
  refine ⟨_, format?_eq hlast rfl (Nat.le_of_lt_succ hyear), ?_⟩
  have hvalid := isValid_clockOf (Nat.mod_lt seconds (show 0 < 86400 by decide))
  rw [parse_octets (Nat.le_of_lt_succ hyear) hexists hvalid, hdays, seconds_clockOf]
  · refine congrArg Except.ok ?_
    omega
  · rw [encode_ofList]
    simp [octets_cons_of_lt]

end Upkeep.Rfc3339
