import Upkeep.Json.Skip

/-!
Reading a record of named fields. An object may give the fields in any order and others
beside them, an array gives them in order; a field with a default may be left out. The
first fault in reading order decides.
-/

namespace Upkeep.Json

/-- A named field: how its value is read, and what stands for it when it is left out. -/
structure Field (α : Type) where
  name : String
  read : Reader α
  default? : Option α

structure Schema (α : Type) where
  title : String
  fields : List (Field α)

/-- The error of a value that starts like `bs` where another kind was wanted. -/
def unexpected (wanted : String) (bs : Bytes) : Error :=
  match skipBlank bs with
  | [] => .endInValue
  | 0x5b :: _ => .wrongType .sequence wanted
  | 0x7b :: _ => .wrongType .map wanted
  | b :: r =>
    match readScalar b r with
    | .ok (v, _) => .wrongType (found v) wanted
    | .error e => e

def readText : Reader String := fun bs =>
  match skipBlank bs with
  | 0x22 :: r => readString r
  | r => .error (unexpected "a string" r)

/-- An integer of 64 bits without a sign. -/
def readNatural : Reader UInt64 := fun bs =>
  let wanted := "u64"
  match skipBlank bs with
  | [] => .error .endInValue
  | b :: r =>
    if b == Ascii.minus || Ascii.isDigit b then do
      let (n, r) ← if b == Ascii.minus then readNumber true r else readNumber false (b :: r)
      match n with
      | .natural n => return (n, r)
      | .negative k => throw (.wrongValue (.number (.negative k)) wanted)
      | .float x => throw (.wrongType (.number (.float x)) wanted)
    else .error (unexpected wanted (b :: r))

/-- Null, or a value that `read` takes. -/
def readOptional {α : Type} (read : Reader α) : Reader (Option α) := fun bs =>
  match skipBlank bs with
  | 0x6e :: r => (readNull r).map (none, ·)
  | r => (read r).map fun p => (some p.1, p.2)

variable {α : Type}

/-- The values read so far, one place per field. -/
abbrev Slots (α : Type) := List (Option α)

def Schema.empty (s : Schema α) : Slots α := s.fields.map fun _ => none

/-- The members of an object from here to its closing brace. -/
def Schema.members (s : Schema α) : Nat → Bool → Slots α → Reader (Slots α)
  | 0, _, _, _ => .error .endInObject
  | fuel + 1, first, slots, bs => do
    let (more, r) ← match first, skipBlank bs with
      | true, [] => Except.error .endInObject
      | true, 0x7d :: r => .ok (false, r)
      | true, 0x22 :: r => .ok (true, r)
      | true, _ => .error .keyNotString
      | false, r => nextMember r
    if !more then return (slots, r)
    let (key, r) ← readString r
    match s.fields.zipIdx.find? fun p => p.1.name == key with
    | some (field, i) =>
      if (slots[i]?.getD none).isSome then throw (.repeatedField key)
      let (v, r) ← field.read (← colon r)
      s.members fuel false (slots.set i (some v)) r
    | none => do
      let r ← skipValue (← colon r)
      s.members fuel false slots r

/-- The items of an array for the fields in order, up to but not including its closing bracket. -/
def Schema.items (s : Schema α) : List (Field α) → Nat → Reader (Slots α)
  | [], _, bs => .ok ([], bs)
  | field :: rest, count, bs => do
    let (more, r) ← match count, skipBlank bs with
      | _, [] => Except.error .endInList
      | _, 0x5d :: r => .ok (false, Ascii.closeBracket :: r)
      | 0, r => .ok (true, r)
      | _, r => nextItem r
    if more then
      let (v, r) ← field.read r
      let (vs, r) ← s.items rest (count + 1) r
      return (some v :: vs, r)
    else if field.default?.isSome then
      let (vs, r) ← s.items rest (count + 1) r
      return (none :: vs, r)
    else throw (.wrongLength count (s.title ++ " with " ++ toString s.fields.length ++ " elements"))

/-- The closing bracket of an array whose fields were all read. -/
def closeItems (bs : Bytes) : Except Error Bytes :=
  match skipBlank bs with
  | [] => .error .endInList
  | 0x5d :: r => .ok r
  | 0x2c :: r =>
    match skipBlank r with
    | 0x5d :: _ => .error .trailingComma
    | _ => .error .trailingCharacters
  | _ => .error .trailingCharacters

/-- The value of each field; the first one without a value or a default is missing. -/
def Schema.fill (s : Schema α) (slots : Slots α) : Except Error (List α) :=
  (s.fields.zip slots).mapM fun (field, slot) =>
    match slot, field.default? with
    | some v, _ => .ok v
    | none, some v => .ok v
    | none, none => .error (.missingField field.name)

/-- The fields of the one record that a text holds, in the order of the schema. -/
def Schema.ofBytes (s : Schema α) (bs : Bytes) : Except Error (List α) :=
  match skipBlank bs with
  | [] => .error .endInValue
  | 0x5b :: r => do
    let (slots, r) ← s.items s.fields 0 r
    let vs ← s.fill slots
    atEnd (← closeItems r)
    return vs
  | 0x7b :: r => do
    let (slots, r) ← s.members (r.length + 1) true s.empty r
    let vs ← s.fill slots
    atEnd r
    return vs
  | r => .error (unexpected s.title r)

end Upkeep.Json
