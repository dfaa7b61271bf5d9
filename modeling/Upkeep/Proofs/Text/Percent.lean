import Upkeep.Proofs.Text.Octets
import Upkeep.Text.Percent

/-!
Reading percent escapes. What is read back is what was written when every percent sign is escaped; a
text that is written as it stands is read as itself exactly when nothing in it looks like an escape.
-/

namespace Upkeep

/-- Octets are read as text only if they are the octets of that text. -/
theorem Utf8.encode_of_decode {bs : Bytes} {s : String} (h : Utf8.decode bs = some s) :
    Utf8.encode s = bs := by
  obtain ⟨cs, hcs, rfl⟩ := Option.map_eq_some_iff.mp h
  have hsome : (bs.toByteArray.utf8Decode?).isSome = true := by rw [hcs]; rfl
  have hback : cs.toList.utf8Encode = bs.toByteArray := by
    have hget := ByteArray.utf8Encode_get_utf8Decode? (h := hsome)
    rwa [Option.get_of_eq_some hsome hcs] at hget
  have hdata := congrArg ByteArray.data hback
  rw [List.utf8Encode, List.data_toByteArray, List.data_toByteArray] at hdata
  rw [encode_ofList]
  exact List.toArray_inj hdata

namespace Percent

def HasEscape (bs : Bytes) : Prop :=
  ∃ before a b after, bs = before ++ Ascii.percent :: a :: b :: after ∧
    (Ascii.hexValue? a).isSome ∧ (Ascii.hexValue? b).isSome

theorem not_hasEscape_nil : ¬ HasEscape [] := by
  rintro ⟨before, a, b, after, h, -⟩
  simp at h

theorem hasEscape_cons {x : UInt8} {bs : Bytes} :
    HasEscape (x :: bs) ↔
      (x = Ascii.percent ∧ ∃ a b after, bs = a :: b :: after ∧ (Ascii.hexValue? a).isSome ∧
        (Ascii.hexValue? b).isSome) ∨ HasEscape bs := by
  constructor
  · rintro ⟨before, a, b, after, h, ha, hb⟩
    cases before with
    | nil =>
        obtain ⟨rfl, rfl⟩ := List.cons.inj h
        exact .inl ⟨rfl, a, b, after, rfl, ha, hb⟩
    | cons y before =>
        obtain ⟨rfl, rfl⟩ := List.cons.inj h
        exact .inr ⟨before, a, b, after, rfl, ha, hb⟩
  · rintro (⟨rfl, a, b, after, rfl, ha, hb⟩ | ⟨before, a, b, after, rfl, ha, hb⟩)
    · exact ⟨[], a, b, after, rfl, ha, hb⟩
    · exact ⟨x :: before, a, b, after, rfl, ha, hb⟩

theorem length_decode_le (bs : Bytes) : (decode bs).length ≤ bs.length := by
  fun_induction decode bs with
  | case1 => exact Nat.le_refl _
  | case2 a b r high low _ _ ih => simp only [List.length_cons]; omega
  | case3 a b r _ ih => simp only [List.length_cons] at ih ⊢; omega
  | case4 a r _ ih => simp only [List.length_cons]; omega

theorem length_decode_lt {bs : Bytes} (h : HasEscape bs) : (decode bs).length < bs.length := by
  fun_induction decode bs with
  | case1 => exact absurd h not_hasEscape_nil
  | case2 a b r high low _ _ ih =>
      have hle := length_decode_le r
      simp only [List.length_cons]
      omega
  | case3 a b r hno ih =>
      have hrest : HasEscape (a :: b :: r) := by
        rcases hasEscape_cons.mp h with ⟨-, a', b', after, hab, ha, hb⟩ | hrest
        · cases hab
          obtain ⟨high, hhigh⟩ := Option.isSome_iff_exists.mp ha
          obtain ⟨low, hlow⟩ := Option.isSome_iff_exists.mp hb
          exact absurd hlow (hno high low hhigh)
        · exact hrest
      exact Nat.succ_lt_succ (ih hrest)
  | case4 a r hno ih =>
      have hrest : HasEscape r := by
        rcases hasEscape_cons.mp h with ⟨rfl, a', b', after, rfl, -⟩ | hrest
        · exact absurd rfl (hno a' b' after rfl)
        · exact hrest
      exact Nat.succ_lt_succ (ih hrest)

/-- Octets are read as themselves exactly when nothing in them is an escape. -/
theorem decode_eq_self_iff {bs : Bytes} : decode bs = bs ↔ ¬ HasEscape bs := by
  constructor
  · intro h hescape
    exact Nat.lt_irrefl _ (h ▸ length_decode_lt hescape)
  · intro h
    fun_induction decode bs with
    | case1 => rfl
    | case2 a b r high low hlow hhigh ih =>
        refine absurd (hasEscape_cons.mpr (.inl ⟨rfl, a, b, r, rfl, ?_, ?_⟩)) h
        · rw [hhigh]; rfl
        · rw [hlow]; rfl
    | case3 a b r hno ih => rw [ih fun hrest => h (hasEscape_cons.mpr (.inr hrest))]
    | case4 a r hno ih => rw [ih fun hrest => h (hasEscape_cons.mpr (.inr hrest))]

/-! Escaping. -/

def escapeChar (c : Char) : List Char := if c = '%' then ['%', '2', '5'] else [c]

def escape (s : String) : String := String.ofList (s.toList.flatMap escapeChar)

theorem decode_append_of_plain {plain : Bytes} (h : ∀ b ∈ plain, b ≠ Ascii.percent) (bs : Bytes) :
    decode (plain ++ bs) = plain ++ decode bs := by
  induction plain with
  | nil => rfl
  | cons b plain ih =>
      have hb := h b List.mem_cons_self
      have hrest := ih fun b hb => h b (List.mem_cons_of_mem _ hb)
      rw [List.cons_append, List.cons_append, ← hrest]
      rw [decode.eq_def]
      split
      next h => cases h
      next h => exact absurd (List.cons.inj h).1 hb
      next h =>
        obtain ⟨rfl, rfl⟩ := List.cons.inj h
        rfl

theorem ne_percent_of_mem_utf8EncodeChar {c : Char} (h : c ≠ '%') :
    ∀ b ∈ String.utf8EncodeChar c, b ≠ Ascii.percent := by
  rintro b hb rfl
  by_cases hlt : c.toNat < 0x80
  · rw [Utf8.utf8EncodeChar_of_lt hlt, List.mem_singleton] at hb
    have hval := congrArg UInt8.toNat hb
    rw [UInt8.toNat_ofNat_of_lt' (Nat.lt_of_lt_of_le hlt (by decide))] at hval
    exact h (Char.toNat_inj.mp hval.symm)
  · have hle := Utf8.le_of_mem_utf8EncodeChar (Nat.not_lt.mp hlt) _ hb
    exact absurd hle (by decide)

/-- A text whose percent signs are escaped is read as that text. -/
theorem decode_escape (s : String) : decode (Utf8.encode (escape s)) = Utf8.encode s := by
  have hchars (cs : List Char) :
      decode (Utf8.octets (cs.flatMap escapeChar)) = Utf8.octets cs := by
    induction cs with
    | nil => rfl
    | cons c cs ih =>
        rw [List.flatMap_cons, Utf8.octets_append, Utf8.octets_cons]
        by_cases hc : c = '%'
        · subst hc
          rw [← ih]
          rfl
        · have hplain : escapeChar c = [c] := if_neg hc
          rw [hplain, Utf8.octets_cons, Utf8.octets_nil, List.append_nil,
            decode_append_of_plain (ne_percent_of_mem_utf8EncodeChar hc), ih]
  rw [escape, Utf8.encode_ofList, hchars]
  rfl

end Percent

end Upkeep
