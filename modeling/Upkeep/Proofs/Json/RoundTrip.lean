import Upkeep.Proofs.Json.Readable
import Upkeep.Proofs.Json.Text

/-!
Written values read back. The text of any value that reading gives is read again, as the same
value but for its binary64 numbers: those are what their own texts are read as. So a value that is
read, changed in some members and written is read again with the other members as they were.
-/

namespace Upkeep.Json

open Utf8

mutual

def reread : Json → Json
  | .null => .null
  | .bool b => .bool b
  | .number n => .number n.reread
  | .text s => .text s
  | .array items => .array (rereadItems items)
  | .object members => .object (rereadMembers members)

def rereadItems : List Json → List Json
  | [] => []
  | v :: r => reread v :: rereadItems r

def rereadMembers : List (String × Json) → List (String × Json)
  | [] => []
  | (k, v) :: r => (k, reread v) :: rereadMembers r

end

theorem rereadMembers_eq (members : List (String × Json)) :
    rereadMembers members = Table.mapValues reread members := by
  induction members with
  | nil => rfl
  | cons p r ih =>
      rw [rereadMembers, ih]
      rfl

theorem skipBlank_cons {b : UInt8} (h : isBlank b = false) (r : Bytes) :
    skipBlank (b :: r) = b :: r := by
  simp [skipBlank, h]

/-! Words, strings and numbers. -/

structure StartsScalar (b : UInt8) : Prop where
  notBlank : isBlank b = false
  notList : b ≠ 0x5b
  notObject : b ≠ 0x7b
  notEnd : b ≠ 0x5d

theorem readValue_of_readScalar {b : UInt8} (hb : StartsScalar b) (fuel depth : Nat) (r : Bytes) :
    readValue (fuel + 1) depth (b :: r) = readScalar b r := by
  conv_lhs => unfold readValue
  rw [skipBlank_cons hb.notBlank]
  split
  next h => cases h
  next h => exact absurd (List.cons.inj h).1 hb.notList
  next h => exact absurd (List.cons.inj h).1 hb.notObject
  next h => cases h; rfl

/-- A number starts with a digit. -/
theorem isDigit_of_readNumber {negative : Bool} {bs : Bytes} {p : Number × Bytes}
    (h : readNumber negative bs = .ok p) : ∃ b r, bs = b :: r ∧ Ascii.isDigit b = true := by
  cases bs with
  | nil => cases h
  | cons b r =>
      refine ⟨b, r, rfl, ?_⟩
      by_cases hz : b = Ascii.zero
      · rw [hz]
        rfl
      · by_contra hd
        simp [readNumber, hz, hd] at h

theorem ne_of_isDigit {b c : UInt8} (h : Ascii.isDigit b = true)
    (hc : Ascii.isDigit c = false) : b ≠ c := by
  rintro rfl
  rw [h] at hc
  cases hc

theorem isBlank_of_isDigit {b : UInt8} (h : Ascii.isDigit b = true) : isBlank b = false := by
  simp [isBlank, ne_of_isDigit h (c := 0x20) rfl, ne_of_isDigit h (c := 0x0a) rfl,
    ne_of_isDigit h (c := 0x09) rfl, ne_of_isDigit h (c := 0x0d) rfl]

private theorem readScalar_of_isDigit {b : UInt8} (h : Ascii.isDigit b = true) (r : Bytes) :
    readScalar b r = (readNumber false (b :: r)).map fun p => (Json.number p.1, p.2) := by
  unfold readScalar
  simp [ne_of_isDigit h (c := 0x6e) rfl, ne_of_isDigit h (c := 0x74) rfl,
    ne_of_isDigit h (c := 0x66) rfl, ne_of_isDigit h (c := Ascii.quote) rfl,
    ne_of_isDigit h (c := Ascii.minus) rfl, h]

/-- The octets of a value, and how they are read with enough fuel and with `depth` more arrays and
objects to open. -/
structure ReadsBack (depth : Nat) (v : Json) : Prop where
  start : ∃ b bs, octets v.chars = b :: bs ∧ isBlank b = false ∧ b ≠ 0x5d
  read : ∀ fuel r, 2 * (octets v.chars).length ≤ fuel → EndsNumber r →
    readValue fuel depth (octets v.chars ++ r) = .ok (v.reread, r)

/-- What is read as a word, a string or a number is read back. -/
private theorem readsBack_of_readScalar {depth : Nat} {v : Json} {b : UInt8} {bs : Bytes}
    (hv : octets v.chars = b :: bs) (hb : StartsScalar b)
    (h : ∀ r, EndsNumber r → readScalar b (bs ++ r) = .ok (v.reread, r)) : ReadsBack depth v where
  start := ⟨b, bs, hv, hb.notBlank, hb.notEnd⟩
  read := by
    intro fuel r hf hr
    rw [hv, List.length_cons] at hf
    obtain ⟨fuel, rfl⟩ := Nat.exists_eq_succ_of_ne_zero (show fuel ≠ 0 by omega)
    rw [hv, List.cons_append, readValue_of_readScalar hb, h r hr]

private theorem readsBack_number {depth : Nat} {n : Number} (hn : n.Readable) :
    ReadsBack depth (.number n) := by
  obtain ⟨negative, cs, hcs, hread⟩ := hn.chars
  obtain ⟨b, bs, hb, hdigit⟩ := isDigit_of_readNumber (hread [] trivial)
  rw [List.append_nil] at hb
  rw [hb] at hread
  have hchars : (Json.number n).chars = (if negative then ['-'] else []) ++ cs := hcs
  cases negative with
  | false =>
      refine @readsBack_of_readScalar _ _ b bs (by rw [hchars]; exact hb)
        ⟨isBlank_of_isDigit hdigit, ne_of_isDigit hdigit rfl, ne_of_isDigit hdigit rfl,
          ne_of_isDigit hdigit rfl⟩ fun r hr => ?_
      rw [readScalar_of_isDigit hdigit, ← List.cons_append, hread r hr]
      rfl
  | true =>
      refine @readsBack_of_readScalar _ _ Ascii.minus (b :: bs)
        (by rw [hchars, ← hb]; rfl) ⟨rfl, by decide, by decide, by decide⟩ fun r hr => ?_
      have hminus : ∀ r, readScalar Ascii.minus r =
          (readNumber true r).map fun p => (Json.number p.1, p.2) := fun _ => rfl
      rw [hminus, hread r hr]
      rfl

private theorem readsBack_text {depth : Nat} (s : String) : ReadsBack depth (.text s) := by
  refine readsBack_of_readScalar (octets_stringChars s) ⟨rfl, by decide, by decide, by decide⟩
    fun r _ => ?_
  have hquote : ∀ r, readScalar Ascii.quote r =
      (readString r).map fun p => (Json.text p.1, p.2) := fun _ => rfl
  rw [hquote, List.append_assoc, List.singleton_append, readString_escape]
  rfl

/-! Lists. -/

def restChars : List Json → List Char
  | [] => []
  | v :: r => ',' :: itemsChars (v :: r)

theorem itemsChars_cons (v : Json) (items : List Json) :
    itemsChars (v :: items) = chars v ++ restChars items := by
  cases items with
  | nil => simp [itemsChars, restChars]
  | cons w r => rw [itemsChars, restChars]

private theorem itemStart_end (first : Bool) (r : Bytes) :
    itemStart first (0x5d :: r) = .ok (false, r) := by
  cases first <;> rfl

private theorem itemStart_first {b : UInt8} (hb : isBlank b = false) (hend : b ≠ 0x5d) (r : Bytes) :
    itemStart true (b :: r) = .ok (true, b :: r) := by
  unfold itemStart
  rw [skipBlank_cons hb]
  split
  next h => cases h
  next h => exact absurd (List.cons.inj h).1 hend
  next h => rfl
  next h => cases h

private theorem itemStart_rest {b : UInt8} (hb : isBlank b = false) (hend : b ≠ 0x5d) (r : Bytes) :
    itemStart false (0x2c :: b :: r) = .ok (true, b :: r) := by
  change nextItem (0x2c :: b :: r) = _
  unfold nextItem
  simp only [skipBlank_cons (show isBlank 0x2c = false from rfl), skipBlank_cons hb]
  split
  next h => cases h
  next h => exact absurd (List.cons.inj h).1 hend
  next h => rfl

private theorem endsNumber_rest (items : List Json) (r : Bytes) :
    EndsNumber (octets (restChars items) ++ 0x5d :: r) := by
  cases items with
  | nil => exact ⟨rfl, by decide, rfl⟩
  | cons v items => exact ⟨rfl, by decide, rfl⟩

private theorem readItems_rest {depth : Nat} {items : List Json}
    (h : ∀ v ∈ items, ReadsBack depth v) (fuel : Nat) (r : Bytes)
    (hf : 2 * (octets (restChars items)).length + 1 ≤ fuel) :
    readItems fuel depth false (octets (restChars items) ++ 0x5d :: r) =
      .ok (rereadItems items, r) := by
  induction items generalizing fuel with
  | nil =>
      obtain ⟨fuel, rfl⟩ := Nat.exists_eq_succ_of_ne_zero (Nat.ne_of_gt hf)
      rw [restChars, octets_nil, List.nil_append, readItems_succ, itemStart_end]
      rfl
  | cons v items ih =>
      obtain ⟨b, bs, hstart, hb, hend⟩ := (h v List.mem_cons_self).start
      have hv := (h v List.mem_cons_self).read
      rw [restChars, octets_cons_of_lt (by decide), itemsChars_cons, octets_append, List.length_cons,
        List.length_append] at hf
      obtain ⟨fuel, rfl⟩ := Nat.exists_eq_succ_of_ne_zero (show fuel ≠ 0 by omega)
      have hchars : octets (restChars (v :: items)) ++ 0x5d :: r =
          0x2c :: b :: (bs ++ (octets (restChars items) ++ 0x5d :: r)) := by
        rw [restChars, octets_cons_of_lt (by decide), itemsChars_cons, octets_append, hstart,
          List.cons_append, List.append_assoc]
        rfl
      rw [hchars, readItems_succ, itemStart_rest hb hend]
      simp only [bind, Except.bind, if_true]
      rw [← List.cons_append, ← hstart, hv fuel _ (by omega) (endsNumber_rest items r)]
      dsimp only
      rw [ih (fun w hw => h w (List.mem_cons_of_mem _ hw)) fuel (by omega)]
      rfl

/-- A list is read back when its items are. -/
private theorem readsBack_array {depth : Nat} {items : List Json}
    (h : ∀ v ∈ items, ReadsBack depth v) : ReadsBack (depth + 1) (.array items) := by
  have hchars : octets (chars (.array items)) = 0x5b :: (octets (itemsChars items) ++ [0x5d]) := by
    rw [chars, List.cons_append, octets_cons_of_lt (by decide), octets_append]
    rfl
  refine ⟨⟨0x5b, _, hchars, rfl, by decide⟩, fun fuel r hf _ => ?_⟩
  rw [hchars, List.length_cons, List.length_append] at hf
  obtain ⟨fuel, rfl⟩ := Nat.exists_eq_succ_of_ne_zero (show fuel ≠ 0 by omega)
  have hitems : readItems fuel depth true (octets (itemsChars items) ++ 0x5d :: r) =
      .ok (rereadItems items, r) := by
    obtain ⟨fuel, rfl⟩ := Nat.exists_eq_succ_of_ne_zero
      (show fuel ≠ 0 by simp only [List.length_singleton] at hf; omega)
    cases items with
    | nil =>
        rw [itemsChars, octets_nil, List.nil_append, readItems_succ, itemStart_end]
        rfl
    | cons v items =>
        obtain ⟨b, bs, hstart, hb, hend⟩ := (h v List.mem_cons_self).start
        have hv := (h v List.mem_cons_self).read
        rw [itemsChars_cons, octets_append, List.length_append, List.length_singleton] at hf
        rw [itemsChars_cons, octets_append, List.append_assoc, readItems_succ]
        rw [hstart, List.cons_append, itemStart_first hb hend]
        simp only [bind, Except.bind, if_true]
        rw [← List.cons_append, ← hstart, hv fuel _ (by omega) (endsNumber_rest items r)]
        dsimp only
        rw [readItems_rest (fun w hw => h w (List.mem_cons_of_mem _ hw)) fuel r (by omega)]
        rfl
  have hopen : readValue (fuel + 1) (depth + 1)
        (0x5b :: (octets (itemsChars items) ++ 0x5d :: r)) =
      (do
        let q ← readItems fuel depth true (octets (itemsChars items) ++ 0x5d :: r)
        return (.array q.1, q.2)) := rfl
  rw [hchars, List.cons_append, List.append_assoc, List.singleton_append, hopen, hitems]
  rfl

/-! Objects. -/

def restMembers : List (String × Json) → List Char
  | [] => []
  | p :: r => ',' :: membersChars (p :: r)

theorem membersChars_cons (k : String) (v : Json) (members : List (String × Json)) :
    membersChars ((k, v) :: members) = stringChars k ++ ':' :: (chars v ++ restMembers members) := by
  cases members with
  | nil => simp [membersChars, restMembers]
  | cons p r => simp [membersChars, restMembers]

/-- The octets of a member from its opening quote on, and what follows. -/
theorem octets_membersChars (k : String) (v : Json) (members : List (String × Json))
    (r : Bytes) :
    octets (membersChars ((k, v) :: members)) ++ r =
      Ascii.quote :: (octets (k.toList.flatMap escape) ++ Ascii.quote ::
        0x3a :: (octets v.chars ++ (octets (restMembers members) ++ r))) := by
  rw [membersChars_cons, octets_append, octets_cons_of_lt (by decide), octets_stringChars,
    octets_append]
  simp only [List.cons_append, List.append_assoc, List.nil_append]
  rfl

theorem length_membersChars (k : String) (v : Json) (members : List (String × Json)) :
    (octets v.chars).length + (octets (restMembers members)).length + 3 ≤
      (octets (membersChars ((k, v) :: members))).length := by
  have h := congrArg List.length (octets_membersChars k v members [])
  simp only [List.length_append, List.length_cons, List.length_nil] at h
  omega

theorem endsNumber_restMembers (members : List (String × Json)) (r : Bytes) :
    EndsNumber (octets (restMembers members) ++ 0x7d :: r) := by
  cases members with
  | nil => exact ⟨rfl, by decide, rfl⟩
  | cons p members => exact ⟨rfl, by decide, rfl⟩

/-- One member is read and goes to the end of those before it. -/
private theorem readMembers_member {depth : Nat} {k : String} {v : Json} (hv : ReadsBack depth v)
    {fuel : Nat} (hf : 2 * (octets v.chars).length ≤ fuel) {before : Table String Json}
    (hk : ∀ p ∈ before, p.1 < k) {first : Bool} {bs r : Bytes} (hr : EndsNumber r)
    (hstart : memberStart first bs = .ok (true, octets (k.toList.flatMap escape) ++ Ascii.quote ::
      0x3a :: (octets v.chars ++ r))) :
    readMembers (fuel + 1) depth first before bs =
      readMembers fuel depth false (before ++ [(k, v.reread)]) r := by
  have hcolon : ∀ r, colon (0x3a :: r) = .ok r := fun _ => rfl
  rw [readMembers_succ, hstart]
  simp only [bind, Except.bind, if_true]
  rw [readString_escape]
  dsimp only
  rw [hcolon]
  dsimp only
  rw [hv.read fuel r hf hr]
  dsimp only
  rw [Table.insert_of_forall_lt v.reread hk]

private theorem readMembers_end (fuel depth : Nat) (first : Bool) (before : Table String Json)
    (r : Bytes) : readMembers (fuel + 1) depth first before (0x7d :: r) = .ok (before, r) := by
  have hend : memberStart first (0x7d :: r) = .ok (false, r) := by cases first <;> rfl
  rw [readMembers_succ, hend]
  rfl

private theorem readMembers_rest {depth : Nat} {members : List (String × Json)}
    (h : ∀ p ∈ members, ReadsBack depth p.2) (fuel : Nat) (before : Table String Json) (r : Bytes)
    (hasc : Table.Ascending members) (hb : ∀ p ∈ before, ∀ q ∈ members, p.1 < q.1)
    (hf : 2 * (octets (restMembers members)).length + 1 ≤ fuel) :
    readMembers fuel depth false before (octets (restMembers members) ++ 0x7d :: r) =
      .ok (before ++ rereadMembers members, r) := by
  induction members generalizing fuel before with
  | nil =>
      obtain ⟨fuel, rfl⟩ := Nat.exists_eq_succ_of_ne_zero (Nat.ne_of_gt hf)
      rw [restMembers, octets_nil, List.nil_append, readMembers_end, rereadMembers, List.append_nil]
  | cons p members ih =>
      obtain ⟨k, v⟩ := p
      have hv : ReadsBack depth v := h _ List.mem_cons_self
      obtain ⟨hfirst, hasc⟩ := List.pairwise_cons.mp hasc
      have hlen := length_membersChars k v members
      rw [restMembers, octets_cons_of_lt (by decide), List.length_cons] at hf
      obtain ⟨fuel, rfl⟩ := Nat.exists_eq_succ_of_ne_zero (show fuel ≠ 0 by omega)
      rw [restMembers, octets_cons_of_lt (by decide), List.cons_append, octets_membersChars,
        readMembers_member hv (by omega) (fun q hq => hb q hq _ List.mem_cons_self)
          (endsNumber_restMembers members r) rfl,
        ih (fun q hq => h q (List.mem_cons_of_mem _ hq)) fuel _ hasc ?_ (by omega), rereadMembers,
        List.append_assoc, List.singleton_append]
      intro q hq q' hq'
      rcases List.mem_append.mp hq with hq | hq
      · exact hb q hq q' (List.mem_cons_of_mem _ hq')
      · rw [List.mem_singleton.mp hq]
        exact hfirst q' hq'

/-- An object is read back when the values of its members are. -/
private theorem readsBack_object {depth : Nat} {members : List (String × Json)}
    (hasc : Table.Ascending members) (h : ∀ p ∈ members, ReadsBack depth p.2) :
    ReadsBack (depth + 1) (.object members) := by
  have hchars : octets (chars (.object members)) =
      0x7b :: (octets (membersChars members) ++ [0x7d]) := by
    rw [chars, List.cons_append, octets_cons_of_lt (by decide), octets_append]
    rfl
  refine ⟨⟨0x7b, _, hchars, rfl, by decide⟩, fun fuel r hf _ => ?_⟩
  rw [hchars, List.length_cons, List.length_append, List.length_singleton] at hf
  obtain ⟨fuel, rfl⟩ := Nat.exists_eq_succ_of_ne_zero (show fuel ≠ 0 by omega)
  have hmembers : readMembers fuel depth true [] (octets (membersChars members) ++ 0x7d :: r) =
      .ok (rereadMembers members, r) := by
    obtain ⟨fuel, rfl⟩ := Nat.exists_eq_succ_of_ne_zero (show fuel ≠ 0 by omega)
    cases members with
    | nil => rw [membersChars, octets_nil, List.nil_append, readMembers_end, rereadMembers]
    | cons p members =>
        obtain ⟨k, v⟩ := p
        have hv : ReadsBack depth v := h _ List.mem_cons_self
        obtain ⟨hfirst, hasc⟩ := List.pairwise_cons.mp hasc
        have hlen := length_membersChars k v members
        rw [octets_membersChars, readMembers_member hv (by omega) (List.forall_mem_nil _)
            (endsNumber_restMembers members r) rfl,
          readMembers_rest (fun q hq => h q (List.mem_cons_of_mem _ hq)) fuel _ r hasc ?_ (by omega)]
        · rfl
        · intro q hq q' hq'
          rw [List.mem_singleton.mp hq]
          exact hfirst q' hq'
  have hopen : readValue (fuel + 1) (depth + 1)
        (0x7b :: (octets (membersChars members) ++ 0x7d :: r)) =
      (do
        let q ← readMembers fuel depth true [] (octets (membersChars members) ++ 0x7d :: r)
        return (.object q.1, q.2)) := rfl
  rw [hchars, List.cons_append, List.append_assoc, List.singleton_append, hopen, hmembers]
  rfl

/-! All values. -/

/-- Every readable value is read back. -/
theorem readsBack_of_readable {depth : Nat} {v : Json} (h : Readable depth v) :
    ReadsBack depth v := by
  induction h with
  | null =>
      exact readsBack_of_readScalar (b := 0x6e) rfl ⟨rfl, by decide, by decide, by decide⟩
        fun _ _ => rfl
  | bool b =>
      cases b
      · exact readsBack_of_readScalar (b := 0x66) rfl ⟨rfl, by decide, by decide, by decide⟩
          fun _ _ => rfl
      · exact readsBack_of_readScalar (b := 0x74) rfl ⟨rfl, by decide, by decide, by decide⟩
          fun _ _ => rfl
  | number hn => exact readsBack_number hn
  | text s => exact readsBack_text s
  | array _ ih => exact readsBack_array ih
  | object hasc _ ih => exact readsBack_object hasc ih

/-- The written form of a readable value is read as its `reread`. -/
theorem parse_render {v : Json} (h : Readable depthLimit v) : parse v.render = .ok v.reread := by
  have hread := (readsBack_of_readable h).read (2 * (encode v.render).length + 2) []
    (by rw [render, encode_ofList]; omega) trivial
  rw [List.append_nil] at hread
  unfold parse ofBytes
  rw [show encode v.render = octets v.chars from encode_ofList _] at hread ⊢
  rw [hread]
  rfl

end Upkeep.Json
