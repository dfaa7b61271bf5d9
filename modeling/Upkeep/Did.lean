import Upkeep.Text.Utf8

/-!
Decentralized identifiers `did:<method>:<id>`. Only the shape is checked: a value of type
`Did` holds a text that `fault?` finds nothing wrong with.
-/

namespace Upkeep

/-- What is wrong with a text that is not an identifier. -/
inductive Did.Fault where
  | tooLong (octets : Nat)
  | noScheme
  | noSpecificId
  | badMethod
  | badSpecificId
  | badCharacter
  deriving DecidableEq, Repr

namespace Did

/-- The most octets an identifier may have. -/
def maxOctets : Nat := 2048

def isMethodChar (c : Char) : Bool := ('a' ≤ c && c ≤ 'z') || ('0' ≤ c && c ≤ '9')

def isIdChar (c : Char) : Bool :=
  ('a' ≤ c && c ≤ 'z') || ('A' ≤ c && c ≤ 'Z') || ('0' ≤ c && c ≤ '9')
    || c == '.' || c == '_' || c == ':' || c == '%' || c == '-'

/-- The parts before and after the first colon. -/
def splitColon : List Char → Option (List Char × List Char)
  | [] => none
  | c :: r => if c = ':' then some ([], r) else (splitColon r).map fun p => (c :: p.1, p.2)

def dropScheme : List Char → Option (List Char)
  | 'd' :: 'i' :: 'd' :: ':' :: r => some r
  | _ => none

def endsBadly (id : List Char) : Bool :=
  match id.getLast? with
  | none => true
  | some c => c == ':' || c == '%'

/-- The first fault of a text, in the order in which they are looked for. -/
def fault? (s : String) : Option Fault :=
  let octets := (Utf8.encode s).length
  if maxOctets < octets then some (.tooLong octets)
  else
    match dropScheme s.toList with
    | none => some .noScheme
    | some rest =>
      match splitColon rest with
      | none => some .noSpecificId
      | some (method, id) =>
        if method.isEmpty || !method.all isMethodChar then some .badMethod
        else if endsBadly id then some .badSpecificId
        else if !id.all isIdChar then some .badCharacter
        else none

end Did

structure Did where
  text : String
  wellFormed : Did.fault? text = none
  deriving DecidableEq

namespace Did

/-- A text that is not an identifier, and why. -/
structure Error where
  text : String
  fault : Fault
  deriving DecidableEq, Repr

def Error.message (e : Error) : String :=
  match e.fault with
  | .tooLong n => s!"did too long ({n} bytes)"
  | .noScheme => "missing did: prefix: " ++ e.text
  | .noSpecificId => "missing method-specific id: " ++ e.text
  | .badMethod => "invalid did method: " ++ e.text
  | .badSpecificId => "invalid method-specific id: " ++ e.text
  | .badCharacter => "invalid character in did: " ++ e.text

def parse (s : String) : Except Error Did :=
  match h : fault? s with
  | none => .ok ⟨s, h⟩
  | some f => .error ⟨s, f⟩

/-- The part between the first two colons. -/
def method (d : Did) : String :=
  match (dropScheme d.text.toList).bind splitColon with
  | some (m, _) => String.ofList m
  | none => ""

instance : LT Did := ⟨fun a b => a.text < b.text⟩

instance : DecidableLT Did := fun a b => inferInstanceAs (Decidable (a.text < b.text))

/-- Identifiers in ascending order, repeated ones kept. -/
def sort (ds : List Did) : List Did := ds.mergeSort fun a b => !decide (b < a)

end Did

end Upkeep
