import Upkeep.Text.Ascii

/-!
The URL-safe base64 alphabet without padding. The reader refuses a symbol outside
the alphabet, a length no octets have, and a last symbol whose unused bits are set.
-/

namespace Upkeep.Base64Url

inductive Error where
  | symbol (byte : UInt8) (offset : Nat)
  | length (n : Nat)
  | lastSymbol (byte : UInt8) (offset : Nat)
  deriving DecidableEq, Repr

def Error.message : Error → String
  | .symbol b i => s!"Invalid symbol {b.toNat}, offset {i}."
  | .length n => s!"Invalid input length: {n}"
  | .lastSymbol b i => s!"Invalid last symbol {b.toNat}, offset {i}."

/-- The symbol of a value below 64. -/
def symbol (n : Nat) : UInt8 :=
  if n < 26 then UInt8.ofNat (0x41 + n)
  else if n < 52 then UInt8.ofNat (0x61 + (n - 26))
  else if n < 62 then UInt8.ofNat (0x30 + (n - 52))
  else if n = 62 then Ascii.minus
  else Ascii.underscore

def value? (b : UInt8) : Option Nat :=
  if Ascii.isUpper b then some (b.toNat - 0x41)
  else if Ascii.isLower b then some (b.toNat - 0x61 + 26)
  else if Ascii.isDigit b then some (b.toNat - 0x30 + 52)
  else if b == Ascii.minus then some 62
  else if b == Ascii.underscore then some 63
  else none

def encode : Bytes → Bytes
  | [] => []
  | [a] => [symbol (a.toNat / 4), symbol (a.toNat % 4 * 16)]
  | [a, b] =>
    [symbol (a.toNat / 4), symbol (a.toNat % 4 * 16 + b.toNat / 16), symbol (b.toNat % 16 * 4)]
  | a :: b :: c :: r =>
    symbol (a.toNat / 4) :: symbol (a.toNat % 4 * 16 + b.toNat / 16)
      :: symbol (b.toNat % 16 * 4 + c.toNat / 64) :: symbol (c.toNat % 64) :: encode r

/-- The octets of symbol values; fails at a last value with unused bits set, or at a lone one. -/
def assemble : List Nat → Option Bytes
  | [] => some []
  | [_] => none
  | [a, b] => if b % 16 = 0 then some [UInt8.ofNat (a * 4 + b / 16)] else none
  | [a, b, c] =>
    if c % 4 = 0 then some [UInt8.ofNat (a * 4 + b / 16), UInt8.ofNat (b % 16 * 16 + c / 4)] else none
  | a :: b :: c :: d :: r =>
    (assemble r).map fun rest =>
      UInt8.ofNat (a * 4 + b / 16) :: UInt8.ofNat (b % 16 * 16 + c / 4)
        :: UInt8.ofNat (c % 4 * 64 + d) :: rest

/-- The first octet outside the alphabet, with its place. -/
def foreign? (bs : Bytes) : Option (UInt8 × Nat) :=
  bs.zipIdx.find? fun p => (value? p.1).isNone

/-- What is wrong with a text of symbols, the first cause first. -/
def fault? (bs : Bytes) : Option Error :=
  match bs.getLast? with
  | none => none
  | some last =>
    if bs.length % 4 = 1 && (value? last).isNone then some (.symbol last (bs.length - 1))
    else
      match foreign? bs with
      | some (b, i) => some (.symbol b i)
      | none => if bs.length % 4 = 1 then some (.length bs.length) else none

def decode (bs : Bytes) : Except Error Bytes :=
  match fault? bs with
  | some e => .error e
  | none =>
    match assemble (bs.filterMap value?) with
    | some out => .ok out
    | none => .error (.lastSymbol (bs.getLast?.getD 0) (bs.length - 1))

end Upkeep.Base64Url
