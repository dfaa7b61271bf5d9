import Upkeep.Json.Schema
import Upkeep.Proofs.Json.RoundTrip

/-!
Records read back. When the members of an object are those of a schema, each once and each written
as its field reads it, reading the object fills one slot for each of them.
-/

namespace Upkeep.Json

open Utf8

variable {α : Type}

inductive Schema.Fills (s : Schema α) : Slots α → List (String × Json) → Slots α → Prop
  | nil (slots : Slots α) : Fills s slots [] slots
  | cons {slots filled : Slots α} {key : String} {v : Json} {members : List (String × Json)}
      {field : Field α} {i : Nat} {x : α}
      (hfind : (s.fields.zipIdx.find? fun p => p.1.name == key) = some (field, i))
      (hslot : (slots[i]?.getD none).isSome = false)
      (hread : ∀ r, EndsNumber r → field.read (octets v.chars ++ r) = .ok (x, r))
      (rest : Fills s (slots.set i (some x)) members filled) :
      Fills s slots ((key, v) :: members) filled

theorem Schema.members_succ (s : Schema α) (fuel : Nat) (first : Bool) (slots : Slots α)
    (bs : Bytes) :
    s.members (fuel + 1) first slots bs = (do
      let p ← memberStart first bs
      if p.1 then
        let key ← readString p.2
        match s.fields.zipIdx.find? fun p => p.1.name == key.1 with
        | some (field, i) =>
          if (slots[i]?.getD none).isSome then throw (.repeatedField key.1)
          let q ← field.read (← colon key.2)
          s.members fuel false (slots.set i (some q.1)) q.2
        | none =>
          let r ← skipValue (← colon key.2)
          s.members fuel false slots r
      else return (slots, p.2)) := by
  conv_lhs => unfold Schema.members
  unfold memberStart
  cases first with
  | false =>
      dsimp only
      cases nextMember (skipBlank bs) with
      | error e => rfl
      | ok p =>
          obtain ⟨more, r⟩ := p
          cases more <;> rfl
  | true =>
      rcases skipBlank bs with _ | ⟨b, r⟩
      · rfl
      · by_cases hend : b = 125
        · rw [hend]
          rfl
        · by_cases hquote : b = 34
          · rw [hquote]
            rfl
          · simp [hend, hquote]
            rfl

private theorem members_member {s : Schema α} {key : String} {v : Json} {slots : Slots α}
    {field : Field α} {i : Nat} {x : α} {r : Bytes}
    (hfind : (s.fields.zipIdx.find? fun p => p.1.name == key) = some (field, i))
    (hslot : (slots[i]?.getD none).isSome = false)
    (hread : field.read (octets v.chars ++ r) = .ok (x, r)) (fuel : Nat) {first : Bool} {bs : Bytes}
    (hstart : memberStart first bs = .ok (true, octets (key.toList.flatMap escape) ++ Ascii.quote ::
      0x3a :: (octets v.chars ++ r))) :
    s.members (fuel + 1) first slots bs = s.members fuel false (slots.set i (some x)) r := by
  have hcolon : ∀ r, colon (0x3a :: r) = .ok r := fun _ => rfl
  rw [Schema.members_succ, hstart]
  simp only [bind, Except.bind, if_true]
  rw [readString_escape]
  dsimp only
  rw [hfind]
  dsimp only
  rw [hslot]
  simp only [Bool.false_eq_true, if_false]
  rw [hcolon]
  dsimp only
  rw [hread]

private theorem members_end (s : Schema α) (fuel : Nat) (first : Bool) (slots : Slots α)
    (r : Bytes) : s.members (fuel + 1) first slots (0x7d :: r) = .ok (slots, r) := by
  have hend : memberStart first (0x7d :: r) = .ok (false, r) := by cases first <;> rfl
  rw [Schema.members_succ, hend]
  rfl

private theorem Schema.Fills.members_rest {s : Schema α} {slots filled : Slots α}
    {members : List (String × Json)} (h : s.Fills slots members filled) (fuel : Nat) (r : Bytes)
    (hf : members.length < fuel) :
    s.members fuel false slots (octets (restMembers members) ++ 0x7d :: r) = .ok (filled, r) := by
  induction h generalizing fuel with
  | nil slots =>
      obtain ⟨fuel, rfl⟩ := Nat.exists_eq_succ_of_ne_zero (Nat.ne_of_gt hf)
      rw [restMembers, octets_nil, List.nil_append, members_end]
  | @cons slots filled key v members field i x hfind hslot hread rest ih =>
      obtain ⟨fuel, rfl⟩ := Nat.exists_eq_succ_of_ne_zero (Nat.ne_of_gt (Nat.zero_lt_of_lt hf))
      rw [restMembers, octets_cons_of_lt (by decide), List.cons_append, octets_membersChars,
        members_member hfind hslot (hread _ (endsNumber_restMembers members r)) fuel rfl]
      exact ih fuel (Nat.lt_of_succ_lt_succ hf)

/-- The members of an object that fills slots are read into them. -/
theorem Schema.Fills.members {s : Schema α} {slots filled : Slots α}
    {members : List (String × Json)} (h : s.Fills slots members filled) (fuel : Nat) (r : Bytes)
    (hf : members.length < fuel) :
    s.members fuel true slots (octets (membersChars members) ++ 0x7d :: r) = .ok (filled, r) := by
  obtain ⟨fuel, rfl⟩ := Nat.exists_eq_succ_of_ne_zero (Nat.ne_of_gt (Nat.zero_lt_of_lt hf))
  cases h with
  | nil => rw [membersChars, octets_nil, List.nil_append, members_end]
  | @cons _ _ key v members field i x hfind hslot hread rest =>
      rw [octets_membersChars,
        members_member hfind hslot (hread _ (endsNumber_restMembers members r)) fuel rfl]
      exact rest.members_rest fuel r (Nat.lt_of_succ_lt_succ hf)

private theorem length_le_membersChars (members : List (String × Json)) :
    members.length ≤ (octets (membersChars members)).length := by
  induction members with
  | nil => exact Nat.le_refl _
  | cons p members ih =>
      obtain ⟨key, v⟩ := p
      have h := length_membersChars key v members
      rw [List.length_cons]
      cases members with
      | nil =>
          rw [List.length_nil]
          omega
      | cons q members =>
          rw [restMembers, octets_cons_of_lt (by decide), List.length_cons] at h
          omega

/-- An object that fills the slots of a schema is read as what fills them. -/
theorem Schema.ofBytes_render {s : Schema α} {members : List (String × Json)} {filled : Slots α}
    (h : s.Fills s.empty members filled) :
    s.ofBytes (encode (Json.object members).render) = s.fill filled := by
  have hchars : encode (Json.object members).render =
      0x7b :: (octets (membersChars members) ++ [0x7d]) := by
    rw [render, encode_ofList, chars, List.cons_append, octets_cons_of_lt (by decide), octets_append]
    rfl
  have hlen := length_le_membersChars members
  have hread := h.members ((octets (membersChars members) ++ [0x7d]).length + 1) []
    (by rw [List.length_append]; omega)
  have hopen : ∀ r, s.ofBytes (0x7b :: r) = (do
      let q ← s.members (r.length + 1) true s.empty r
      let vs ← s.fill q.1
      atEnd q.2
      return vs) := fun _ => rfl
  rw [hchars, hopen, hread]
  simp only [bind, Except.bind]
  cases s.fill filled with
  | error e => rfl
  | ok vs => rfl

/-! Fields. -/

theorem readText_chars (s : String) (r : Bytes) :
    readText (octets (Json.text s).chars ++ r) = .ok (s, r) := by
  rw [chars, octets_stringChars, List.cons_append, List.append_assoc, List.singleton_append]
  exact readString_escape s r

theorem readText_eq_ok_iff {bs r : Bytes} {s : String} :
    readText bs = .ok (s, r) ↔ ∃ r', skipBlank bs = Ascii.quote :: r' ∧ readString r' = .ok (s, r) := by
  unfold readText
  constructor
  · intro h
    split at h
    next r' hskip => exact ⟨r', hskip, h⟩
    next => cases h
  · rintro ⟨r', hskip, h⟩
    rw [hskip]
    exact h

/-- A string that is read as a value is read as a string. -/
theorem readText_of_readValue {fuel depth : Nat} {bs r : Bytes} {s : String}
    (h : readValue fuel depth bs = .ok (.text s, r)) : readText bs = .ok (s, r) := by
  cases fuel with
  | zero => cases h
  | succ fuel =>
      unfold readValue at h
      split at h
      next => cases h
      next =>
        cases depth with
        | zero => cases h
        | succ depth =>
            obtain ⟨_, -, h⟩ := exists_ok_of_bind h
            cases h
      next =>
        cases depth with
        | zero => cases h
        | succ depth =>
            obtain ⟨_, -, h⟩ := exists_ok_of_bind h
            cases h
      next b r' _ _ hskip =>
        unfold readScalar at h
        split_ifs at h with _ _ _ hquote <;> obtain ⟨p, hp, heq⟩ := exists_ok_of_map h <;> cases heq
        exact readText_eq_ok_iff.mpr ⟨r', by rw [hskip, eq_of_beq hquote], hp⟩

theorem readValue_of_readText {bs r : Bytes} {s : String} (h : readText bs = .ok (s, r))
    (fuel depth : Nat) : readValue (fuel + 1) depth bs = .ok (.text s, r) := by
  obtain ⟨r', hskip, h⟩ := readText_eq_ok_iff.mp h
  conv_lhs => unfold readValue
  rw [hskip]
  change (readString r').map _ = _
  rw [h]
  rfl

/-- A text holds a string exactly if a string is read from it and nothing but blanks is left. -/
theorem ofBytes_eq_text_iff {bs : Bytes} {s : String} :
    ofBytes bs = .ok (.text s) ↔ ∃ r, readText bs = .ok (s, r) ∧ atEnd r = .ok () := by
  constructor
  · intro h
    obtain ⟨⟨v, r⟩, hread, h⟩ := exists_ok_of_bind h
    obtain ⟨⟨⟩, hend, h⟩ := exists_ok_of_bind h
    cases h
    exact ⟨r, readText_of_readValue hread, hend⟩
  · rintro ⟨r, hread, hend⟩
    unfold ofBytes
    rw [readValue_of_readText hread]
    simp only [bind, Except.bind, hend]
    rfl

theorem readNatural_chars (n : UInt64) {r : Bytes} (hr : EndsNumber r) :
    readNatural (octets (Json.number (.natural n)).chars ++ r) = .ok (n, r) := by
  have hread := readNumber_natural n hr
  obtain ⟨b, bs, hb, hdigit⟩ := isDigit_of_readNumber hread
  rw [chars, Number.chars, hb]
  rw [hb] at hread
  have hminus : (b == Ascii.minus) = false := beq_false_of_ne (ne_of_isDigit hdigit rfl)
  unfold readNatural
  rw [skipBlank_cons (isBlank_of_isDigit hdigit)]
  simp [hminus, hdigit, hread, bind, Except.bind, pure, Except.pure]

theorem readOptional_natural (n : UInt64) {r : Bytes} (hr : EndsNumber r) :
    readOptional readNatural (octets (Json.number (.natural n)).chars ++ r) = .ok (some n, r) := by
  have hread := readNatural_chars n hr
  obtain ⟨b, bs, hb, hdigit⟩ := isDigit_of_readNumber (readNumber_natural n hr)
  rw [chars, Number.chars, hb] at hread ⊢
  unfold readOptional
  rw [skipBlank_cons (isBlank_of_isDigit hdigit)]
  split
  next h => exact absurd (List.cons.inj h).1 (ne_of_isDigit hdigit rfl)
  next h => rw [hread]; rfl

theorem readOptional_text (s : String) (r : Bytes) :
    readOptional readText (octets (Json.text s).chars ++ r) = .ok (some s, r) := by
  have hread := readText_chars s r
  rw [chars, octets_stringChars, List.cons_append] at hread ⊢
  have hopen : ∀ bs, readOptional readText (Ascii.quote :: bs) =
      (readText (Ascii.quote :: bs)).map fun p => (some p.1, p.2) := fun _ => rfl
  rw [hopen, hread]
  rfl

end Upkeep.Json
