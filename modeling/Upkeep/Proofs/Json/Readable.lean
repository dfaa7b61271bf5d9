import Upkeep.Proofs.Json.Numbers
import Upkeep.Proofs.Table

/-!
What reading gives. Every number that is read is one of the format, the members of every object
are in ascending order of their keys, and no more arrays and objects nest than the limit allows.
-/

namespace Upkeep.Json

/-- Both parts of a sequence succeed when it does. -/
theorem exists_ok_of_bind {ε α β : Type} {x : Except ε α} {f : α → Except ε β} {b : β}
    (h : x >>= f = .ok b) : ∃ a, x = .ok a ∧ f a = .ok b := by
  cases x with
  | error e => cases h
  | ok a => exact ⟨a, rfl, h⟩

theorem exists_ok_of_map {ε α β : Type} {x : Except ε α} {f : α → β} {b : β}
    (h : x.map f = .ok b) : ∃ a, x = .ok a ∧ f a = b := by
  cases x with
  | error e => cases h
  | ok a => exact ⟨a, rfl, Except.ok.inj h⟩

/-- A value as reading gives it when `depth` more arrays and objects may open. -/
inductive Readable : Nat → Json → Prop
  | null {depth : Nat} : Readable depth .null
  | bool {depth : Nat} (b : Bool) : Readable depth (.bool b)
  | number {depth : Nat} {n : Number} (h : n.Readable) : Readable depth (.number n)
  | text {depth : Nat} (s : String) : Readable depth (.text s)
  | array {depth : Nat} {items : List Json} (h : ∀ v ∈ items, Readable depth v) :
      Readable (depth + 1) (.array items)
  | object {depth : Nat} {members : List (String × Json)} (hasc : Table.Ascending members)
      (h : ∀ p ∈ members, Readable depth p.2) : Readable (depth + 1) (.object members)

theorem Readable.member {depth : Nat} {v : Json} (h : Readable depth v) (key : String) :
    Readable (depth + 1) (.object [(key, v)]) := by
  refine .object (List.pairwise_singleton _ _) fun p hp => ?_
  rw [List.mem_singleton.mp hp]
  exact h

/-! Numbers. -/

theorem digits_le {n : Nat} (bs : Bytes) (h : n ≤ maxSignificand) :
    (digits n bs).1 ≤ maxSignificand := by
  induction bs generalizing n with
  | nil => exact h
  | cons b r ih =>
      unfold digits
      split
      next hc => exact ih (of_decide_eq_true ((Bool.and_eq_true _ _).mp hc).2)
      next => exact h

private theorem readable_of_assemble {negative : Bool} {n : Nat} {e : Int} {m : Number}
    (hn : n ≤ maxSignificand) (h : assemble negative n e = .ok m) : m.Readable := by
  obtain ⟨y, rfl, hy⟩ := valid_of_assemble hn h
  exact hy

private theorem readable_of_assemble_map {negative : Bool} {n : Nat} {e : Int} {r : Bytes}
    {p : Number × Bytes} (hn : n ≤ maxSignificand)
    (h : (assemble negative n e).map (·, r) = .ok p) : p.1.Readable := by
  obtain ⟨m, ha, rfl⟩ := exists_ok_of_map h
  exact readable_of_assemble hn ha

private theorem readable_whole (negative : Bool) {n : Nat} (h : n ≤ maxSignificand) :
    (whole negative n).Readable := by
  unfold whole
  split_ifs with h1 h2
  · trivial
  · simp only [Bool.and_eq_true, decide_eq_true_eq] at h2
    exact h2
  · exact (valid_significand h).neg

def readPower (negative : Bool) (n : Nat) (start : Int) (down : Bool) : Reader Number :=
  fun bs => do
    match bs with
    | [] => throw .endInValue
    | b :: _ =>
      if !Ascii.isDigit b then throw .invalidNumber
      match exponentDigits 0 bs with
      | (some k, r) =>
        let x ← assemble negative n (clampExponent (if down then start - k else start + k))
        return (x, r)
      | (none, r) =>
        if n != 0 && !down then throw .numberOutOfRange
        return (.float (if negative then Binary64.zero.neg else .zero), r)

/-- An exponent is put together with its significand, or passes every bound: then the number is
out of range or zero. -/
private theorem readExponent_ok {negative : Bool} {n : Nat} {start : Int} {bs : Bytes}
    {p : Number × Bytes} (h : readExponent negative n start bs = .ok p) :
    (∃ e r, (assemble negative n e).map (·, r) = .ok p) ∨
      p.1 = .float (if negative then Binary64.zero.neg else .zero) := by
  obtain ⟨down, rest, hbs⟩ : ∃ down rest,
      readExponent negative n start bs = readPower negative n start down rest := ⟨_, _, rfl⟩
  rw [hbs] at h
  unfold readPower at h
  cases rest with
  | nil => cases h
  | cons b tail =>
      by_cases hdigit : (!Ascii.isDigit b) = true
      · simp only [hdigit, if_true] at h
        cases h
      · simp only [hdigit, Bool.false_eq_true, if_false] at h
        generalize exponentDigits 0 (b :: tail) = q at h
        obtain ⟨k, r⟩ := q
        cases k with
        | some k => exact .inl ⟨clampExponent (if down then start - k else start + k), r, h⟩
        | none =>
            by_cases hrange : (n != 0 && !down) = true
            · simp only [hrange, if_true] at h
              cases h
            · simp only [hrange, Bool.false_eq_true, if_false] at h
              cases h
              exact .inr rfl

private theorem readable_readExponent {negative : Bool} {n : Nat} {start : Int} {bs : Bytes}
    {p : Number × Bytes} (hn : n ≤ maxSignificand)
    (h : readExponent negative n start bs = .ok p) : p.1.Readable := by
  rcases readExponent_ok h with ⟨e, r, ha⟩ | hzero
  · exact readable_of_assemble_map hn ha
  · rw [hzero]
    cases negative
    · exact Binary64.valid_zero
    · exact Binary64.valid_zero.neg

private theorem readable_readFraction {negative : Bool} {n : Nat} {start : Int} {bs : Bytes}
    {p : Number × Bytes} (hn : n ≤ maxSignificand)
    (h : readFraction negative n start bs = .ok p) : p.1.Readable := by
  have hle := digits_le bs hn
  unfold readFraction at h
  generalize digits n bs = q at *
  obtain ⟨m, r⟩ := q
  dsimp only at h hle
  by_cases htaken : (bs.length - r.length == 0 && !startsWithDigit r) = true
  · cases hr : r.isEmpty <;> simp only [htaken, hr, if_true, Bool.false_eq_true, if_false] at h <;>
      cases h
  · simp only [htaken, Bool.false_eq_true, if_false] at h
    generalize skipDigits r = rest at h
    cases rest with
    | nil => exact readable_of_assemble_map hle h
    | cons b rest =>
        cases hb : isExponentLetter b with
        | true =>
            simp only [hb, if_true] at h
            exact readable_readExponent hle h
        | false =>
            simp only [hb, Bool.false_eq_true, if_false] at h
            exact readable_of_assemble_map hle h

private theorem readable_readTail {negative : Bool} {n : Nat} {bs : Bytes} {p : Number × Bytes}
    (hn : n ≤ maxSignificand) (h : readTail negative n bs = .ok p) : p.1.Readable := by
  unfold readTail at h
  cases bs with
  | nil =>
      cases h
      exact readable_whole negative hn
  | cons b r =>
      dsimp only at h
      split_ifs at h with hpoint hletter
      · exact readable_readFraction hn h
      · exact readable_readExponent hn h
      · cases h
        exact readable_whole negative hn

private theorem digitValue_le (b : UInt8) : Ascii.digitValue b ≤ maxSignificand := by
  have hb := b.toNat_lt
  have h256 : (256 : Nat) ≤ maxSignificand := by decide
  unfold Ascii.digitValue
  omega

/-- Every number that is read is one of the format. -/
theorem readable_readNumber {negative : Bool} {bs : Bytes} {p : Number × Bytes}
    (h : readNumber negative bs = .ok p) : p.1.Readable := by
  unfold readNumber at h
  cases bs with
  | nil => cases h
  | cons b r =>
      dsimp only at h
      split_ifs at h with hzero hbad hdigit hmore
      · exact readable_readTail (Nat.zero_le _) h
      all_goals
        have hle := digits_le r (digitValue_le b)
        generalize digits (Ascii.digitValue b) r = q at *
        obtain ⟨n, r⟩ := q
        dsimp only at h hle
      · generalize skipDigits r = rest at h
        cases rest with
        | nil => exact readable_of_assemble_map hle h
        | cons c rest =>
            dsimp only at h
            split_ifs at h with hpoint hletter
            · exact readable_readFraction hle h
            · exact readable_readExponent hle h
            · exact readable_of_assemble_map hle h
      · exact readable_readTail hle h

/-! Values. -/

def itemStart (first : Bool) (bs : Bytes) : Except Error (Bool × Bytes) :=
  match first, skipBlank bs with
  | true, [] => .error .endInList
  | true, 0x5d :: r => .ok (false, r)
  | true, r => .ok (true, r)
  | false, r => nextItem r

def memberStart (first : Bool) (bs : Bytes) : Except Error (Bool × Bytes) :=
  match first, skipBlank bs with
  | true, [] => .error .endInObject
  | true, 0x7d :: r => .ok (false, r)
  | true, 0x22 :: r => .ok (true, r)
  | true, _ => .error .keyNotString
  | false, r => nextMember r

theorem readItems_succ (fuel depth : Nat) (first : Bool) (bs : Bytes) :
    readItems (fuel + 1) depth first bs = (do
      let p ← itemStart first bs
      if p.1 then
        let q ← readValue fuel depth p.2
        let qs ← readItems fuel depth false q.2
        return (q.1 :: qs.1, qs.2)
      else return ([], p.2)) := by
  conv_lhs => unfold readItems
  unfold itemStart
  cases first with
  | false =>
      dsimp only
      cases nextItem (skipBlank bs) with
      | error e => rfl
      | ok p => cases hp : p.1 <;> simp [hp, bind, Except.bind]
  | true =>
      generalize skipBlank bs = r
      split <;> simp_all [bind, Except.bind]

theorem readMembers_succ (fuel depth : Nat) (first : Bool) (before : Table String Json)
    (bs : Bytes) :
    readMembers (fuel + 1) depth first before bs = (do
      let p ← memberStart first bs
      if p.1 then
        let key ← readString p.2
        let q ← readValue fuel depth (← colon key.2)
        readMembers fuel depth false (before.insert key.1 q.1) q.2
      else return (before, p.2)) := by
  conv_lhs => unfold readMembers
  unfold memberStart
  cases first with
  | false =>
      dsimp only
      cases nextMember (skipBlank bs) with
      | error e => rfl
      | ok p => cases hp : p.1 <;> simp [hp, bind, Except.bind]
  | true =>
      generalize skipBlank bs = r
      split <;> simp_all [bind, Except.bind]

private theorem readable_readScalar {depth : Nat} {b : UInt8} {r : Bytes} {p : Json × Bytes}
    (h : readScalar b r = .ok p) : Readable depth p.1 := by
  unfold readScalar at h
  split_ifs at h <;> obtain ⟨a, ha, rfl⟩ := exists_ok_of_map h
  · exact .null
  · exact .bool true
  · exact .bool false
  · exact .text a.1
  · exact .number (readable_readNumber ha)
  · exact .number (readable_readNumber ha)

private structure MembersReadable (depth : Nat) (members : List (String × Json)) : Prop where
  ascending : Table.Ascending members
  readable : ∀ p ∈ members, Readable depth p.2

private theorem MembersReadable.insert {depth : Nat} {members : List (String × Json)}
    (h : MembersReadable depth members) (key : String) {v : Json} (hv : Readable depth v) :
    MembersReadable depth (Table.insert members key v) where
  ascending := Table.ascending_insert key v h.ascending
  readable := by
    intro p hp
    rcases Table.mem_of_mem_insert hp with rfl | hp
    · exact hv
    · exact h.readable p hp

mutual

private theorem readable_readValue (fuel depth : Nat) (bs : Bytes) (p : Json × Bytes)
    (h : readValue fuel depth bs = .ok p) : Readable depth p.1 := by
  cases fuel with
  | zero => cases h
  | succ fuel =>
      unfold readValue at h
      split at h
      · cases h
      · cases depth with
        | zero => cases h
        | succ depth =>
            obtain ⟨q, hq, hp⟩ := exists_ok_of_bind h
            cases hp
            exact .array (readable_readItems fuel depth true _ q hq)
      · cases depth with
        | zero => cases h
        | succ depth =>
            obtain ⟨q, hq, hp⟩ := exists_ok_of_bind h
            cases hp
            obtain ⟨hasc, hall⟩ := readable_readMembers fuel depth true [] _ q hq
              ⟨Table.ascending_nil, fun p hp => nomatch hp⟩
            exact .object hasc hall
      · exact readable_readScalar h

private theorem readable_readItems (fuel depth : Nat) (first : Bool) (bs : Bytes)
    (p : List Json × Bytes) (h : readItems fuel depth first bs = .ok p) :
    ∀ v ∈ p.1, Readable depth v := by
  cases fuel with
  | zero => cases h
  | succ fuel =>
      rw [readItems_succ] at h
      obtain ⟨⟨more, r⟩, -, h⟩ := exists_ok_of_bind h
      cases more with
      | false =>
          cases h
          exact fun v hv => nomatch hv
      | true =>
          obtain ⟨q, hq, h⟩ := exists_ok_of_bind h
          obtain ⟨qs, hqs, h⟩ := exists_ok_of_bind h
          cases h
          intro v hv
          rcases List.mem_cons.mp hv with rfl | hv
          · exact readable_readValue fuel depth r q hq
          · exact readable_readItems fuel depth false _ qs hqs v hv

private theorem readable_readMembers (fuel depth : Nat) (first : Bool)
    (before : Table String Json) (bs : Bytes) (p : Table String Json × Bytes)
    (h : readMembers fuel depth first before bs = .ok p) (hb : MembersReadable depth before) :
    MembersReadable depth p.1 := by
  cases fuel with
  | zero => cases h
  | succ fuel =>
      rw [readMembers_succ] at h
      obtain ⟨⟨more, r⟩, -, h⟩ := exists_ok_of_bind h
      cases more with
      | false =>
          cases h
          exact hb
      | true =>
          obtain ⟨key, hkey, h⟩ := exists_ok_of_bind h
          obtain ⟨r', hcolon, h⟩ := exists_ok_of_bind h
          obtain ⟨q, hq, h⟩ := exists_ok_of_bind h
          exact readable_readMembers fuel depth false _ _ p h
            (hb.insert key.1 (readable_readValue fuel depth r' q hq))

end

/-- What a text holds is readable within the limit of depth. -/
theorem readable_parse {s : String} {v : Json} (h : parse s = .ok v) : Readable depthLimit v := by
  obtain ⟨p, hp, h⟩ := exists_ok_of_bind h
  obtain ⟨-, -, h⟩ := exists_ok_of_bind h
  cases h
  exact readable_readValue _ _ _ p hp

end Upkeep.Json
