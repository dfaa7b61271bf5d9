import Upkeep.Text.Hex

/-!
Hexadecimal digits read back. What is written of octets is read as those octets, and holds nothing
but digits. The digits are in the order of their values, so octets are written in the order that they
are in, and what some of them start with is written as a start.
-/

namespace Upkeep.Hex

def IsDigit (b : UInt8) : Prop := 0x30 ≤ b.toNat ∧ b.toNat ≤ 0x39 ∨ 0x61 ≤ b.toNat ∧ b.toNat ≤ 0x66

instance (b : UInt8) : Decidable (IsDigit b) := inferInstanceAs (Decidable (_ ∨ _))

theorem toNat_hexDigit {n : Nat} (h : n < 16) :
    (Ascii.hexDigit n).toNat = if n < 10 then 0x30 + n else 0x57 + n := by
  unfold Ascii.hexDigit
  split
  next hn => exact UInt8.toNat_ofNat_of_lt' (show 0x30 + n < 256 by omega)
  next hn => exact UInt8.toNat_ofNat_of_lt' (show 0x57 + n < 256 by omega)

theorem isDigit_hexDigit {n : Nat} (h : n < 16) : IsDigit (Ascii.hexDigit n) := by
  rw [IsDigit, toNat_hexDigit h]
  split <;> omega

theorem hexValue?_hexDigit {n : Nat} (h : n < 16) : Ascii.hexValue? (Ascii.hexDigit n) = some n := by
  have hval := toNat_hexDigit h
  unfold Ascii.hexValue? Ascii.isDigit
  simp only [Bool.and_eq_true, decide_eq_true_eq, UInt8.le_iff_toNat_le, hval]
  by_cases hn : n < 10
  · rw [if_pos hn, if_pos (by simp; omega), Nat.add_sub_cancel_left]
  · rw [if_neg hn, if_neg (by simp; omega), if_pos (by simp; omega), Nat.add_sub_cancel_left]

theorem encode_cons (b : UInt8) (bs : Bytes) :
    encode (b :: bs) = Ascii.hexDigit (b.toNat / 16) :: Ascii.hexDigit (b.toNat % 16) :: encode bs := rfl

theorem decode_encode (bs : Bytes) : decode (encode bs) = some bs := by
  induction bs with
  | nil => rfl
  | cons b bs ih =>
      have hb := b.toNat_lt
      have hhigh := hexValue?_hexDigit (n := b.toNat / 16) (by omega)
      have hlow := hexValue?_hexDigit (n := b.toNat % 16) (by omega)
      have hoctet : UInt8.ofNat (b.toNat / 16 * 16 + b.toNat % 16) = b := by
        rw [Nat.div_add_mod', UInt8.ofNat_toNat]
      rw [encode_cons, decode, hhigh, hlow, ih]
      exact congrArg (fun octet => some (octet :: bs)) hoctet

theorem length_encode (bs : Bytes) : (encode bs).length = 2 * bs.length := by
  induction bs with
  | nil => rfl
  | cons b bs ih =>
      rw [encode_cons, List.length_cons, List.length_cons, ih, List.length_cons]
      omega

theorem hexDigit_lt_iff {n m : Nat} (hn : n < 16) (hm : m < 16) :
    Ascii.hexDigit n < Ascii.hexDigit m ↔ n < m := by
  rw [UInt8.lt_iff_toNat_lt, toNat_hexDigit hn, toNat_hexDigit hm]
  split <;> split <;> omega

theorem hexDigit_inj {n m : Nat} (hn : n < 16) (hm : m < 16) :
    Ascii.hexDigit n = Ascii.hexDigit m ↔ n = m := by
  rw [← UInt8.toNat_inj, toNat_hexDigit hn, toNat_hexDigit hm]
  split <;> split <;> omega

/-- Two octets compare by their first digits, and by the second ones if those are the same. -/
theorem digits_lt_iff (b b' : UInt8) :
    Ascii.hexDigit (b.toNat / 16) < Ascii.hexDigit (b'.toNat / 16) ∨
      Ascii.hexDigit (b.toNat / 16) = Ascii.hexDigit (b'.toNat / 16) ∧
        Ascii.hexDigit (b.toNat % 16) < Ascii.hexDigit (b'.toNat % 16) ↔ b < b' := by
  have hb := b.toNat_lt
  have hb' := b'.toNat_lt
  rw [hexDigit_lt_iff (by omega) (by omega), hexDigit_inj (by omega) (by omega),
    hexDigit_lt_iff (by omega) (by omega), UInt8.lt_iff_toNat_lt]
  omega

theorem digits_inj (b b' : UInt8) :
    Ascii.hexDigit (b.toNat / 16) = Ascii.hexDigit (b'.toNat / 16) ∧
      Ascii.hexDigit (b.toNat % 16) = Ascii.hexDigit (b'.toNat % 16) ↔ b = b' := by
  have hb := b.toNat_lt
  have hb' := b'.toNat_lt
  rw [hexDigit_inj (by omega) (by omega), hexDigit_inj (by omega) (by omega), ← UInt8.toNat_inj]
  omega

/-- Octets are written in the order that they are in, however many they are. -/
theorem encode_lt_iff {bs bs' : Bytes} : encode bs < encode bs' ↔ bs < bs' := by
  induction bs generalizing bs' with
  | nil =>
      cases bs' with
      | nil => exact Iff.rfl
      | cons b' bs' => exact iff_of_true (List.nil_lt_cons ..) (List.nil_lt_cons ..)
  | cons b bs ih =>
      cases bs' with
      | nil => exact iff_of_false (List.not_lt_nil _) (List.not_lt_nil _)
      | cons b' bs' =>
          rw [encode_cons, encode_cons, List.cons_lt_cons_iff, List.cons_lt_cons_iff,
            List.cons_lt_cons_iff, ih, ← digits_lt_iff b b', ← digits_inj b b', and_or_left,
            or_assoc, and_assoc]

/-- What octets are written as starts with what is written of their start, and of no other octets. -/
theorem encode_isPrefix_iff {bs bs' : Bytes} : encode bs <+: encode bs' ↔ bs <+: bs' := by
  induction bs generalizing bs' with
  | nil => exact iff_of_true List.nil_prefix List.nil_prefix
  | cons b bs ih =>
      cases bs' with
      | nil => exact iff_of_false nofun nofun
      | cons b' bs' =>
          rw [encode_cons, encode_cons, List.cons_prefix_cons, List.cons_prefix_cons,
            List.cons_prefix_cons, ih, ← digits_inj b b', and_assoc]

theorem isDigit_of_mem_encode {b : UInt8} {bs : Bytes} (h : b ∈ encode bs) : IsDigit b := by
  obtain ⟨c, -, hb⟩ := List.mem_flatMap.mp h
  have hc := c.toNat_lt
  simp only [List.mem_cons, List.not_mem_nil, or_false] at hb
  rcases hb with rfl | rfl <;> exact isDigit_hexDigit (by omega)

end Upkeep.Hex
