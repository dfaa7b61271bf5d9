import Mathlib.Tactic.IntervalCases
import Upkeep.Json.Reader
import Upkeep.Proofs.Text.Octets

/-!
Strings read back. Whatever characters a string has, its written form is read as that string, and
the reader stops right after the closing quote.
-/

namespace Upkeep.Json

open Utf8

private theorem escape_control (n : Nat) (h : n < 0x20) (r : Bytes) :
    ∃ t, escape (Char.ofNat n) = '\\' :: t ∧
      escaped (octets t ++ r) = .ok (String.utf8EncodeChar (Char.ofNat n), r) := by
  interval_cases n <;> exact ⟨_, rfl, rfl⟩

theorem escape_of_plain {c : Char} (hq : c.toNat ≠ 0x22) (hb : c.toNat ≠ 0x5c)
    (hn : 0x20 ≤ c.toNat) : escape c = [c] := by
  unfold escape
  split <;> first | omega | simp [Nat.not_lt.mpr hn]

/-- A character is written as it is, or as a backslash and an escape that stands for it. -/
theorem escape_cases (c : Char) :
    (escape c = [c] ∧ c.toNat ≠ 0x22 ∧ c.toNat ≠ 0x5c ∧ 0x20 ≤ c.toNat) ∨
      ∃ t, escape c = '\\' :: t ∧
        ∀ r, escaped (octets t ++ r) = .ok (String.utf8EncodeChar c, r) := by
  by_cases hq : c.toNat = 0x22
  · have hc : c = Char.ofNat 0x22 := by rw [← hq, Char.ofNat_toNat]
    subst hc
    exact .inr ⟨_, rfl, fun r => rfl⟩
  · by_cases hb : c.toNat = 0x5c
    · have hc : c = Char.ofNat 0x5c := by rw [← hb, Char.ofNat_toNat]
      subst hc
      exact .inr ⟨_, rfl, fun r => rfl⟩
    · by_cases hn : c.toNat < 0x20
      · obtain ⟨t, ht, -⟩ := escape_control c.toNat hn []
        rw [Char.ofNat_toNat] at ht
        refine .inr ⟨t, ht, fun r => ?_⟩
        obtain ⟨t', ht', hr⟩ := escape_control c.toNat hn r
        rw [Char.ofNat_toNat, ht] at ht'
        rw [Char.ofNat_toNat] at hr
        rwa [(List.cons.inj ht').2]
      · have hn := Nat.not_lt.mp hn
        exact .inl ⟨escape_of_plain hq hb hn, hq, hb, hn⟩

def IsPlain (b : UInt8) : Prop := b ≠ Ascii.quote ∧ b ≠ Ascii.backslash ∧ ¬ b < 0x20

theorem isPlain_of_mem_utf8EncodeChar {c : Char} (hq : c.toNat ≠ 0x22) (hb : c.toNat ≠ 0x5c)
    (hn : 0x20 ≤ c.toNat) : ∀ b ∈ String.utf8EncodeChar c, IsPlain b := by
  intro b hmem
  by_cases h : c.toNat < 0x80
  · rw [utf8EncodeChar_of_lt h, List.mem_singleton] at hmem
    have hval : b.toNat = c.toNat := by
      rw [hmem, UInt8.toNat_ofNat_of_lt' (Nat.lt_of_lt_of_le h (by decide))]
    refine ⟨fun e => hq ?_, fun e => hb ?_, fun e => ?_⟩
    · rw [← hval, e]; rfl
    · rw [← hval, e]; rfl
    · have : b.toNat < 0x20 := UInt8.lt_iff_toNat_lt.mp e
      omega
  · have hle := UInt8.le_iff_toNat_le.mp (le_of_mem_utf8EncodeChar (Nat.not_lt.mp h) b hmem)
    have h80 : (0x80 : UInt8).toNat = 0x80 := rfl
    refine ⟨fun e => ?_, fun e => ?_, fun e => ?_⟩
    · rw [e] at hle; exact absurd hle (by decide)
    · rw [e] at hle; exact absurd hle (by decide)
    · have : b.toNat < 0x20 := UInt8.lt_iff_toNat_lt.mp e
      omega

theorem stringOctets_plain {bs r out rest : Bytes} (h : ∀ b ∈ bs, IsPlain b) {fuel : Nat}
    (hr : stringOctets fuel r = .ok (out, rest)) :
    stringOctets (bs.length + fuel) (bs ++ r) = .ok (bs ++ out, rest) := by
  induction bs with
  | nil => simpa using hr
  | cons b bs ih =>
      obtain ⟨hq, hb, hn⟩ := h b List.mem_cons_self
      have ih := ih fun b' hb' => h b' (List.mem_cons_of_mem _ hb')
      rw [List.length_cons, Nat.add_right_comm]
      simp [stringOctets, hq, hb, hn, ih, bind, Except.bind, pure, Except.pure]

theorem stringOctets_escaped {t r rest out : Bytes} {c : Bytes}
    (ht : escaped t = .ok (c, r)) {fuel : Nat} (hr : stringOctets fuel r = .ok (out, rest)) :
    stringOctets (fuel + 1) (Ascii.backslash :: t) = .ok (c ++ out, rest) := by
  have hne : (Ascii.backslash == Ascii.quote) = false := rfl
  simp [stringOctets, hne, ht, hr, bind, Except.bind, pure, Except.pure]

/-- The octets between the quotes, read back. Each character takes as many steps as its written
form has octets, or fewer. -/
theorem stringOctets_escape (cs : List Char) (rest : Bytes) (fuel : Nat)
    (hf : (octets (cs.flatMap escape)).length < fuel) :
    stringOctets fuel (octets (cs.flatMap escape) ++ Ascii.quote :: rest) =
      .ok (octets cs, rest) := by
  induction cs generalizing fuel with
  | nil =>
      obtain ⟨fuel, rfl⟩ := Nat.exists_eq_succ_of_ne_zero (Nat.ne_of_gt hf)
      rfl
  | cons c cs ih =>
      simp only [List.flatMap_cons, octets_append, List.length_append, List.append_assoc] at hf ⊢
      rcases escape_cases c with ⟨he, hq, hb, hn⟩ | ⟨t, he, ht⟩
      · have hc : octets [c] = String.utf8EncodeChar c := List.append_nil _
        rw [he, hc] at hf ⊢
        obtain ⟨left, rfl⟩ := Nat.exists_eq_add_of_le
          (Nat.le_of_lt (Nat.lt_of_le_of_lt (Nat.le_add_right _ _) hf))
        rw [octets_cons]
        exact stringOctets_plain (isPlain_of_mem_utf8EncodeChar hq hb hn) (ih left (by omega))
      · rw [he, octets_cons_of_lt (by decide)] at hf ⊢
        obtain ⟨left, rfl⟩ := Nat.exists_eq_succ_of_ne_zero (Nat.ne_of_gt (Nat.zero_lt_of_lt hf))
        rw [octets_cons]
        refine stringOctets_escaped (ht _) (ih left ?_)
        simp only [List.length_cons] at hf
        omega

/-- A string is read back from what follows its opening quote. -/
theorem readString_escape (s : String) (rest : Bytes) :
    readString (octets (s.toList.flatMap escape) ++ Ascii.quote :: rest) = .ok (s, rest) := by
  have hs : decode (octets s.toList) = some s := decode_encode s
  have hf := stringOctets_escape s.toList rest
    (octets (s.toList.flatMap escape) ++ Ascii.quote :: rest).length
    (by simp only [List.length_append, List.length_cons]; omega)
  unfold readString
  rw [hf]
  simp only [bind, Except.bind, hs]
  rfl

theorem octets_stringChars (s : String) :
    octets (stringChars s) =
      Ascii.quote :: (octets (s.toList.flatMap escape) ++ [Ascii.quote]) := by
  rw [stringChars, List.cons_append, octets_cons_of_lt (by decide), octets_append,
    octets_cons_of_lt (by decide)]
  rfl

end Upkeep.Json
