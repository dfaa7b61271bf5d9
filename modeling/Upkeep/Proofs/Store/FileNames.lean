import Mathlib.Data.Nat.Digits.Lemmas
import Upkeep.Proofs.Json.Digits
import Upkeep.Proofs.Text.Hex
import Upkeep.Proofs.Text.Order
import Upkeep.Store.FileNames

/-!
Names of files. A key is read back from its name, so no two keys share one, and names are in the order
of the keys; a temporary name is no key's, and tells the key and both numbers that it was made of. Names
of short keys are short, those of their temporary files too.
-/

namespace Upkeep.Store.FileNames

theorem isTemporary_ofKey (key : String) : isTemporary (ofKey key) = false := by
  refine Bool.eq_false_iff.mpr fun h => ?_
  have hmem : (0x70 : UInt8) ∈ temporaryEnding := by decide
  have hdigit := Hex.isDigit_of_mem_encode ((List.isSuffixOf_iff_suffix.mp h).subset hmem)
  exact absurd hdigit (by decide)

theorem key?_ofKey (key : String) : key? (ofKey key) = some key := by
  rw [key?, isTemporary_ofKey, if_neg Bool.false_ne_true, ofKey, Hex.decode_encode, Option.bind_some,
    Utf8.decode_encode]

theorem ofKey_injective {key key' : String} (h : ofKey key = ofKey key') : key = key' := by
  have h := congrArg key? h
  rw [key?_ofKey, key?_ofKey] at h
  exact Option.some.inj h

theorem isTemporary_temporary (key : String) (process serial : Nat) :
    isTemporary (temporary key process serial) = true :=
  List.isSuffixOf_iff_suffix.mpr (List.suffix_append _ _)

theorem key?_of_isTemporary {name : Bytes} (h : isTemporary name = true) : key? name = none := if_pos h

theorem temporary_ne_nil (key : String) (process serial : Nat) : temporary key process serial ≠ [] :=
  fun e => by
    have h := isTemporary_temporary key process serial
    rw [e] at h
    cases h

theorem ofKey_ne_of_isTemporary {name : Bytes} (h : isTemporary name = true) (key : String) :
    ofKey key ≠ name := fun e => by
  rw [← e, isTemporary_ofKey] at h
  cases h

theorem point_not_mem_ofKey (key : String) : Ascii.point ∉ ofKey key := fun h =>
  absurd (Hex.isDigit_of_mem_encode h) (by decide)

/-- A text is cut at its first point in one way. -/
private theorem append_point_inj {before before' after after' : Bytes} (h : Ascii.point ∉ before)
    (h' : Ascii.point ∉ before') :
    before ++ Ascii.point :: after = before' ++ Ascii.point :: after' ↔
      before = before' ∧ after = after' := by
  induction before generalizing before' with
  | nil =>
      cases before' with
      | nil => simp
      | cons b' before' => simp [List.ne_of_not_mem_cons h']
  | cons b before ih =>
      cases before' with
      | nil => simp [(List.ne_of_not_mem_cons h).symm]
      | cons b' before' =>
          rw [List.cons_append, List.cons_append, List.cons.injEq, List.cons.injEq,
            ih (List.not_mem_of_not_mem_cons h) (List.not_mem_of_not_mem_cons h'), and_assoc]

/-- A number is written in digits. -/
theorem encode_toString (n : Nat) : Utf8.encode (toString n) = Utf8.octets (Nat.toDigits 10 n) := by
  rw [Nat.toString_eq_ofList_toDigits, Utf8.encode_ofList]

theorem encode_toString_inj {n n' : Nat} :
    Utf8.encode (toString n) = Utf8.encode (toString n') ↔ n = n' := by
  rw [Utf8.encode_inj]
  refine ⟨fun h => ?_, congrArg toString⟩
  have hdigits : Nat.toDigits 10 n = Nat.toDigits 10 n' := String.ofList_inj.mp h
  calc n = Nat.ofDigitChars 10 (Nat.toDigits 10 n) 0 := Nat.ofDigitChars_ten_toDigits.symm
    _ = Nat.ofDigitChars 10 (Nat.toDigits 10 n') 0 := by rw [hdigits]
    _ = n' := Nat.ofDigitChars_ten_toDigits

theorem point_not_mem_toString (n : Nat) : Ascii.point ∉ Utf8.encode (toString n) := fun h => by
  rw [encode_toString] at h
  cases Json.isDigit_of_mem_octets (Json.allDigits_toDigits n) h

/-- The key's own name comes first and the ending last, and two numbers between points. -/
theorem temporary_eq (key : String) (process serial : Nat) :
    temporary key process serial = ofKey key ++ Ascii.point :: (Utf8.encode (toString process) ++
      Ascii.point :: (Utf8.encode (toString serial) ++ temporaryEnding)) := by
  have hpoint : Utf8.encode "." = [Ascii.point] := by decide
  simp only [temporary, Utf8.encode_append, hpoint, List.append_assoc, List.cons_append,
    List.nil_append]

/-- A temporary name tells what it was made of: a key's digits stand before the first point, and those
of a number before the next one. -/
theorem temporary_eq_iff {key key' : String} {process process' serial serial' : Nat} :
    temporary key process serial = temporary key' process' serial' ↔
      key = key' ∧ process = process' ∧ serial = serial' := by
  refine ⟨fun h => ?_, fun ⟨hkey, hprocess, hserial⟩ => by rw [hkey, hprocess, hserial]⟩
  rw [temporary_eq, temporary_eq,
    append_point_inj (point_not_mem_ofKey key) (point_not_mem_ofKey key'),
    append_point_inj (point_not_mem_toString process) (point_not_mem_toString process'),
    encode_toString_inj, List.append_left_inj, encode_toString_inj] at h
  exact h.imp_left ofKey_injective

theorem length_ofKey (key : String) : (ofKey key).length = 2 * (Utf8.encode key).length :=
  Hex.length_encode _

/-- A temporary name holds the key twice over, two numbers, two points and the ending. -/
theorem length_temporary (key : String) (process serial : Nat) :
    (temporary key process serial).length = 2 * (Utf8.encode key).length +
      (Nat.toDigits 10 process).length + (Nat.toDigits 10 serial).length + 6 := by
  have hnumber (n : Nat) : (Utf8.encode (toString n)).length = (Nat.toDigits 10 n).length := by
    rw [encode_toString, Json.length_octets_digits (Json.allDigits_toDigits n)]
  have hending : temporaryEnding.length = 4 := by decide
  rw [temporary_eq, List.length_append, List.length_cons, List.length_append, List.length_cons,
    List.length_append, hnumber, hnumber, hending, length_ofKey]
  omega

theorem length_toDigits_le {n : Nat} (h : n < 2 ^ 32) : (Nat.toDigits 10 n).length ≤ 10 :=
  (Nat.length_toDigits_le_iff (by decide) (by decide)).mpr (Nat.lt_trans h (by decide))

/-- A temporary name has room for two numbers of 32 bits. -/
theorem length_temporary_le (key : String) {process serial : Nat} (hp : process < 2 ^ 32)
    (hs : serial < 2 ^ 32) :
    (temporary key process serial).length ≤ 2 * (Utf8.encode key).length + 26 := by
  have hprocess := length_toDigits_le hp
  have hserial := length_toDigits_le hs
  rw [length_temporary]
  omega

/-- A key is read back from its name, names are in the order of their keys, and one starts with another
where the keys do. Temporary names are no key's, and each is made of one key, process and number only. -/
theorem ofKey_embeds_temporary_apart (key key' : String) (process process' serial serial' : Nat) :
    key? (ofKey key) = some key ∧
      (ofKey key < ofKey key' ↔ Utf8.encode key < Utf8.encode key') ∧
      (ofKey key <+: ofKey key' ↔ key.toList <+: key'.toList) ∧
      key? (temporary key process serial) = none ∧
      temporary key process serial ≠ ofKey key' ∧
      (temporary key process serial = temporary key' process' serial' ↔
        key = key' ∧ process = process' ∧ serial = serial') := by
  have htemporary := isTemporary_temporary key process serial
  exact ⟨key?_ofKey key, Hex.encode_lt_iff, Hex.encode_isPrefix_iff.trans Utf8.octets_isPrefix_iff,
    key?_of_isTemporary htemporary, (ofKey_ne_of_isTemporary htemporary key').symm, temporary_eq_iff⟩

end Upkeep.Store.FileNames
