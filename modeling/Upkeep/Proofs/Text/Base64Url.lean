import Upkeep.Proofs.Text.Octets
import Upkeep.Text.Base64Url

/-!
The URL-safe base64 alphabet read back. Three octets are four symbols; one or two at the end are two
or three, whose last one has unused bits that are zero. Whatever the octets, what is written is read
as them, and it is text in which no point and no equals sign stands.
-/

namespace Upkeep.Base64Url

theorem value?_symbol {n : Nat} (h : n < 64) : value? (symbol n) = some n := by
  have hall : ∀ n < 64, value? (symbol n) = some n := by decide
  exact hall n h

theorem symbol_lt {n : Nat} (h : n < 64) : symbol n < 0x80 := by
  have hall : ∀ n < 64, symbol n < 0x80 := by decide
  exact hall n h

/-- Everything that is written is the symbol of a value. -/
theorem exists_symbol_of_mem (bs : Bytes) : ∀ b ∈ encode bs, ∃ n < 64, b = symbol n := by
  induction bs using encode.induct with
  | case1 => exact fun b hb => nomatch hb
  | case2 a =>
      have ha := a.toNat_lt
      intro b hb
      simp only [encode, List.mem_cons, List.not_mem_nil, or_false] at hb
      rcases hb with rfl | rfl <;> exact ⟨_, by omega, rfl⟩
  | case3 a b =>
      have ha := a.toNat_lt
      have hb := b.toNat_lt
      intro x hx
      simp only [encode, List.mem_cons, List.not_mem_nil, or_false] at hx
      rcases hx with rfl | rfl | rfl <;> exact ⟨_, by omega, rfl⟩
  | case4 a b c r ih =>
      have ha := a.toNat_lt
      have hb := b.toNat_lt
      have hc := c.toNat_lt
      intro x hx
      simp only [encode, List.mem_cons] at hx
      rcases hx with rfl | rfl | rfl | rfl | hx
      · exact ⟨_, by omega, rfl⟩
      · exact ⟨_, by omega, rfl⟩
      · exact ⟨_, by omega, rfl⟩
      · exact ⟨_, by omega, rfl⟩
      · exact ih x hx

/-- No octets take one symbol more than whole groups of four. -/
theorem length_encode_mod (bs : Bytes) : (encode bs).length % 4 ≠ 1 := by
  induction bs using encode.induct with
  | case1 => decide
  | case2 a => simp [encode]
  | case3 a b => simp [encode]
  | case4 a b c r ih =>
      simp only [encode, List.length_cons]
      omega

theorem fault?_encode (bs : Bytes) : fault? (encode bs) = none := by
  have hforeign : foreign? (encode bs) = none := by
    rw [foreign?, List.find?_eq_none]
    rintro ⟨b, i⟩ hb
    obtain ⟨n, hn, rfl⟩ := exists_symbol_of_mem bs b (List.fst_mem_of_mem_zipIdx hb)
    rw [value?_symbol hn]
    simp
  unfold fault?
  split
  next => rfl
  -- the last symbol is looked at by itself only in a text of a length that does not occur
  next last hlast => simp [length_encode_mod bs, hforeign]

/-! The octets of a group, from the values of its symbols. -/

private theorem first_octet (a : UInt8) {m : Nat} (h : m / 16 = a.toNat % 4) :
    UInt8.ofNat (a.toNat / 4 * 4 + m / 16) = a := by
  rw [h, Nat.div_add_mod', UInt8.ofNat_toNat]

private theorem second_octet (b : UInt8) {m n : Nat} (hm : m % 16 = b.toNat / 16)
    (hn : n / 4 = b.toNat % 16) : UInt8.ofNat (m % 16 * 16 + n / 4) = b := by
  rw [hm, hn, Nat.div_add_mod', UInt8.ofNat_toNat]

private theorem third_octet (c : UInt8) {n : Nat} (h : n % 4 = c.toNat / 64) :
    UInt8.ofNat (n % 4 * 64 + c.toNat % 64) = c := by
  rw [h, Nat.div_add_mod', UInt8.ofNat_toNat]

theorem assemble_encode (bs : Bytes) : assemble ((encode bs).filterMap value?) = some bs := by
  induction bs using encode.induct with
  | case1 => rfl
  | case2 a =>
      have ha := a.toNat_lt
      simp only [encode, List.filterMap_cons, List.filterMap_nil]
      simp (disch := omega) only [value?_symbol]
      rw [assemble, if_pos (by omega), first_octet a (by omega)]
  | case3 a b =>
      have ha := a.toNat_lt
      have hb := b.toNat_lt
      simp only [encode, List.filterMap_cons, List.filterMap_nil]
      simp (disch := omega) only [value?_symbol]
      rw [assemble, if_pos (by omega), first_octet a (by omega),
        second_octet b (by omega) (by omega)]
  | case4 a b c r ih =>
      have ha := a.toNat_lt
      have hb := b.toNat_lt
      have hc := c.toNat_lt
      simp only [encode, List.filterMap_cons]
      simp (disch := omega) only [value?_symbol]
      rw [assemble, ih, Option.map_some, first_octet a (by omega),
        second_octet b (by omega) (by omega), third_octet c (by omega)]

/-- Whatever octets are written are read back. -/
theorem decode_encode (bs : Bytes) : decode (encode bs) = .ok bs := by
  rw [decode, fault?_encode]
  dsimp only
  rw [assemble_encode]

/-! The symbols as characters. -/

def text (bs : Bytes) : String := String.ofList ((encode bs).map fun b => Char.ofNat b.toNat)

example : text [0xfb, 0xff, 0xbe, 0x41] = "-_--QQ" := by decide

theorem encode_text (bs : Bytes) : Utf8.encode (text bs) = encode bs := by
  rw [text, Utf8.encode_ofList]
  refine Utf8.octets_map_ofNat fun b hb => ?_
  obtain ⟨n, hn, rfl⟩ := exists_symbol_of_mem bs b hb
  exact symbol_lt hn

theorem plain_of_mem_text {bs : Bytes} : ∀ c ∈ (text bs).toList, c ≠ '.' ∧ c ≠ '=' := by
  intro c hc
  rw [text, String.toList_ofList] at hc
  obtain ⟨b, hb, rfl⟩ := List.mem_map.mp hc
  obtain ⟨n, hn, rfl⟩ := exists_symbol_of_mem bs b hb
  have hall : ∀ n < 64, Char.ofNat (symbol n).toNat ≠ '.' ∧ Char.ofNat (symbol n).toNat ≠ '=' := by
    decide
  exact hall n hn

end Upkeep.Base64Url
