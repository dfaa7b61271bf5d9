import Upkeep.Text.Utf8

/-!
The octets of characters one by one. A character below 128 has one octet, its number; all
octets of any other one are 128 or more, so that no octet of it is taken for an ASCII character.
-/

namespace Upkeep.Utf8

def octets (cs : List Char) : Bytes := cs.flatMap String.utf8EncodeChar

theorem encode_ofList (cs : List Char) : encode (String.ofList cs) = octets cs := by
  simp [encode, octets]

theorem encode_inj {s t : String} : encode s = encode t ↔ s = t := by
  refine ⟨fun h => ?_, congrArg encode⟩
  have hdecoded := congrArg decode h
  rw [decode_encode, decode_encode] at hdecoded
  exact Option.some.inj hdecoded

@[simp] theorem octets_nil : octets [] = [] := rfl

theorem octets_cons (c : Char) (cs : List Char) :
    octets (c :: cs) = String.utf8EncodeChar c ++ octets cs := rfl

@[simp] theorem octets_append (cs ds : List Char) : octets (cs ++ ds) = octets cs ++ octets ds :=
  List.flatMap_append

theorem utf8EncodeChar_of_lt {c : Char} (h : c.toNat < 0x80) :
    String.utf8EncodeChar c = [UInt8.ofNat c.toNat] :=
  if_pos (Nat.le_of_lt_succ h)

theorem octets_cons_of_lt {c : Char} (h : c.toNat < 0x80) (cs : List Char) :
    octets (c :: cs) = UInt8.ofNat c.toNat :: octets cs := by
  rw [octets_cons, utf8EncodeChar_of_lt h]
  rfl

/-- Octets below 128, as characters, are themselves again. -/
theorem octets_map_ofNat {bs : Bytes} (h : ∀ b ∈ bs, b < 0x80) :
    octets (bs.map fun b => Char.ofNat b.toNat) = bs := by
  induction bs with
  | nil => rfl
  | cons b bs ih =>
      have hb : b.toNat < 0x80 := UInt8.lt_iff_toNat_lt.mp (h b List.mem_cons_self)
      have hc : (Char.ofNat b.toNat).toNat = b.toNat := by
        rw [Char.ofNat, dif_pos (.inl (by omega))]
        rfl
      rw [List.map_cons, octets_cons_of_lt (by omega), hc, UInt8.ofNat_toNat,
        ih fun b' hb' => h b' (List.mem_cons_of_mem b hb')]

/-- A sum below 256 is not cut off. -/
private theorem le_ofNat_add (n m : Nat) (hm : 0x80 ≤ m) (h : n + m < 256) :
    (0x80 : UInt8) ≤ UInt8.ofNat (n + m) := by
  rw [UInt8.le_iff_toNat_le, UInt8.toNat_ofNat_of_lt' h]
  exact Nat.le_trans hm (Nat.le_add_left m n)

theorem le_of_mem_utf8EncodeChar {c : Char} (h : 0x80 ≤ c.toNat) :
    ∀ b ∈ String.utf8EncodeChar c, (0x80 : UInt8) ≤ b := by
  have h1 : ¬ c.val.toNat ≤ 0x7f := Nat.not_le.mpr h
  intro b hb
  unfold String.utf8EncodeChar at hb
  by_cases h2 : c.val.toNat ≤ 0x7ff
  · simp only [h1, h2, if_false, if_true, List.mem_cons, List.not_mem_nil, or_false] at hb
    rcases hb with rfl | rfl <;> apply le_ofNat_add <;> omega
  · by_cases h3 : c.val.toNat ≤ 0xffff
    · simp only [h1, h2, h3, if_false, if_true, List.mem_cons, List.not_mem_nil, or_false] at hb
      rcases hb with rfl | rfl | rfl <;> apply le_ofNat_add <;> omega
    · simp only [h1, h2, h3, if_false, List.mem_cons, List.not_mem_nil, or_false] at hb
      rcases hb with rfl | rfl | rfl | rfl <;> apply le_ofNat_add <;> omega

end Upkeep.Utf8
