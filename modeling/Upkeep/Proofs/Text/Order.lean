import Upkeep.Proofs.Text.Octets

/-!
Texts and their octets are in one order. Of two characters the greater one has the greater octet at the
first place where their octets differ, so that nothing which follows the two counts. The octets of a
text start with those of another only if the text starts with the other.
-/

namespace Upkeep.Utf8

/-- The octets of a number of up to 21 bits, by how many they are. -/
private inductive Written (n : Nat) : Bytes → Prop
  | one (h : n < 0x80) : Written n [UInt8.ofNat n]
  | two (h : 0x80 ≤ n) (h' : n < 0x800) :
      Written n [UInt8.ofNat (n / 64 % 32 + 192), UInt8.ofNat (n % 64 + 128)]
  | three (h : 0x800 ≤ n) (h' : n < 0x10000) :
      Written n [UInt8.ofNat (n / 64 / 64 % 16 + 224), UInt8.ofNat (n / 64 % 64 + 128),
        UInt8.ofNat (n % 64 + 128)]
  | four (h : 0x10000 ≤ n) (h' : n < 0x200000) :
      Written n [UInt8.ofNat (n / 64 / 64 / 64 % 8 + 240), UInt8.ofNat (n / 64 / 64 % 64 + 128),
        UInt8.ofNat (n / 64 % 64 + 128), UInt8.ofNat (n % 64 + 128)]

private theorem written (c : Char) : Written c.val.toNat (String.utf8EncodeChar c) := by
  have hmax : c.val.toNat < 0x110000 := by
    cases c.valid with
    | inl h => omega
    | inr h => exact h.2
  have hsecond (k : Nat) : k / 4096 = k / 64 / 64 := by omega
  have hthird (k : Nat) : k / 262144 = k / 64 / 64 / 64 := by omega
  unfold String.utf8EncodeChar
  simp only [hsecond, hthird]
  split
  next h1 => exact .one (by omega)
  next h1 =>
    split
    next h2 => exact .two (by omega) (by omega)
    next h2 =>
      split
      next h3 => exact .three (by omega) (by omega)
      next h3 => exact .four (by omega) (by omega)

private theorem ofNat_lt_iff {n n' : Nat} (h : n < 256) (h' : n' < 256) :
    UInt8.ofNat n < UInt8.ofNat n' ↔ n < n' := by
  rw [UInt8.lt_iff_toNat_lt, UInt8.toNat_ofNat_of_lt' h, UInt8.toNat_ofNat_of_lt' h']

private theorem ofNat_eq_iff {n n' : Nat} (h : n < 256) (h' : n' < 256) :
    UInt8.ofNat n = UInt8.ofNat n' ↔ n = n' := by
  rw [← UInt8.toNat_inj, UInt8.toNat_ofNat_of_lt' h, UInt8.toNat_ofNat_of_lt' h']

/-- More octets start with a greater one; as many are compared digit by digit. -/
private theorem Written.lt {n n' : Nat} {bs bs' : Bytes} (h : Written n bs) (h' : Written n' bs')
    (hlt : n < n') (r r' : Bytes) : bs ++ r < bs' ++ r' := by
  -- the ranges rule out that the smaller number has more octets
  cases h <;> cases h' <;> first
    | omega
    | simp only [List.cons_append, List.nil_append, List.cons_lt_cons_iff]
      simp (disch := omega) only [ofNat_lt_iff, ofNat_eq_iff]
      omega

theorem octets_lt {cs cs' : List Char} (h : cs < cs') : octets cs < octets cs' := by
  induction cs generalizing cs' with
  | nil =>
      cases cs' with
      | nil => exact absurd h (List.not_lt_nil _)
      | cons c' cs' =>
          have hwritten := written c'
          rw [octets_cons]
          generalize String.utf8EncodeChar c' = bs at hwritten ⊢
          cases hwritten <;> exact List.nil_lt_cons ..
  | cons c cs ih =>
      cases cs' with
      | nil => exact absurd h (List.not_lt_nil _)
      | cons c' cs' =>
          cases List.cons_lt_cons_iff.mp h with
          | inl hlt => exact (written c).lt (written c') hlt _ _
          | inr hrest =>
              rw [octets_cons, octets_cons, hrest.1]
              exact List.append_left_lt (ih hrest.2)

private theorem not_lt_of_append_eq {c c' : Char} {r r' : Bytes}
    (h : String.utf8EncodeChar c ++ r = String.utf8EncodeChar c' ++ r') :
    ¬ c.val.toNat < c'.val.toNat := fun hlt => by
  have hless := (written c).lt (written c') hlt r r'
  rw [h] at hless
  exact List.lt_irrefl _ hless

/-- Octets start with those of one character at most. -/
theorem eq_of_append_eq {c c' : Char} {r r' : Bytes}
    (h : String.utf8EncodeChar c ++ r = String.utf8EncodeChar c' ++ r') : c = c' :=
  Char.ext (UInt32.toNat_inj.mp (Nat.le_antisymm (Nat.not_lt.mp (not_lt_of_append_eq h.symm))
    (Nat.not_lt.mp (not_lt_of_append_eq h))))

theorem octets_isPrefix_iff {cs cs' : List Char} : octets cs <+: octets cs' ↔ cs <+: cs' := by
  refine ⟨fun h => ?_, fun ⟨rest, hrest⟩ => ⟨octets rest, by rw [← octets_append, hrest]⟩⟩
  induction cs generalizing cs' with
  | nil => exact List.nil_prefix
  | cons c cs ih =>
      obtain ⟨r, hr⟩ := h
      cases cs' with
      | nil =>
          have hless := octets_lt (List.nil_lt_cons c cs)
          rw [(List.append_eq_nil_iff.mp hr).1] at hless
          exact absurd hless (List.not_lt_nil _)
      | cons c' cs' =>
          rw [octets_cons, octets_cons, List.append_assoc] at hr
          obtain rfl := eq_of_append_eq hr
          exact List.cons_prefix_cons.mpr ⟨rfl, ih ⟨r, List.append_cancel_left hr⟩⟩

/-- The order of texts is that of their octets. -/
theorem encode_lt_iff {s t : String} : encode s < encode t ↔ s < t := by
  constructor
  · intro h
    refine Decidable.byContradiction fun hnot => ?_
    cases Std.le_iff_lt_or_eq.mp (Std.not_lt.mp hnot) with
    | inl hlt => exact Std.lt_irrefl (Std.lt_trans h (octets_lt hlt))
    | inr heq =>
        rw [heq] at h
        exact Std.lt_irrefl h
  · intro h
    exact octets_lt h

/-- What two texts both start with does not count. -/
theorem append_lt_append_iff {start s t : String} : start ++ s < start ++ t ↔ s < t := by
  change (start ++ s).toList < (start ++ t).toList ↔ s.toList < t.toList
  rw [String.toList_append, String.toList_append]
  constructor
  · intro h
    refine Decidable.byContradiction fun hnot => ?_
    exact List.not_lt.mpr (List.append_left_le (List.not_lt.mp hnot)) h
  · exact List.append_left_lt

end Upkeep.Utf8
