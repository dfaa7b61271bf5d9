import Upkeep.Text.Ascii

/-!
Text as octets and back. Reading is exact: it accepts the written forms of texts
and nothing else. `lossy` reads any octets, with a replacement character for each
longest stretch that no character starts with.
-/

namespace Upkeep.Utf8

def encode (s : String) : Bytes := s.toList.flatMap String.utf8EncodeChar

def decode (bs : Bytes) : Option String :=
  bs.toByteArray.utf8Decode?.map fun cs => String.ofList cs.toList

theorem encode_append (s t : String) : encode (s ++ t) = encode s ++ encode t := by
  simp [encode]

theorem decode_encode (s : String) : decode (encode s) = some s := by
  have h : (encode s).toByteArray.utf8Decode? = some s.toList.toArray :=
    List.utf8Decode?_utf8Encode
  simp [decode, h]

/-- The octets of the longest valid start of a character, and the character if it is whole. -/
def first : Bytes → Option Char × Nat
  | [] => (none, 0)
  | a :: r =>
    if a < 0x80 then (some (Char.ofNat a.toNat), 1)
    else
      match lead a with
      | none => (none, 1)
      | some (more, low, high) => follow more low high a r
where
  /-- How many octets follow a first octet, and what the next one may be. -/
  lead (a : UInt8) : Option (Nat × UInt8 × UInt8) :=
    if 0xc2 ≤ a && a ≤ 0xdf then some (1, 0x80, 0xbf)
    else if a == 0xe0 then some (2, 0xa0, 0xbf)
    else if a == 0xed then some (2, 0x80, 0x9f)
    else if 0xe1 ≤ a && a ≤ 0xef then some (2, 0x80, 0xbf)
    else if a == 0xf0 then some (3, 0x90, 0xbf)
    else if 0xf1 ≤ a && a ≤ 0xf3 then some (3, 0x80, 0xbf)
    else if a == 0xf4 then some (3, 0x80, 0x8f)
    else none
  tails (more : Nat) (value taken : Nat) (r : Bytes) : Option Char × Nat :=
    match more, r with
    | 0, _ => (some (Char.ofNat value), taken)
    | _ + 1, [] => (none, taken)
    | more + 1, b :: r =>
      if 0x80 ≤ b && b ≤ 0xbf then tails more (value * 64 + (b.toNat - 0x80)) (taken + 1) r
      else (none, taken)
  follow (more : Nat) (low high a : UInt8) (r : Bytes) : Option Char × Nat :=
    let bits := if more = 1 then a.toNat - 0xc0 else if more = 2 then a.toNat - 0xe0 else a.toNat - 0xf0
    match r with
    | [] => (none, 1)
    | b :: r =>
      if low ≤ b && b ≤ high then tails (more - 1) (bits * 64 + (b.toNat - 0x80)) 2 r
      else (none, 1)

def lossyChars : Nat → Bytes → List Char
  | 0, _ => []
  | _ + 1, [] => []
  | fuel + 1, bs =>
    let (c, taken) := first bs
    c.getD '\uFFFD' :: lossyChars fuel (bs.drop taken)

def lossy (bs : Bytes) : String := String.ofList (lossyChars bs.length bs)

end Upkeep.Utf8
