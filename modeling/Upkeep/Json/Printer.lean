import Upkeep.Json.Value

/-!
The compact text of a JSON value. Strings escape the quote, the backslash and controls;
a binary64 is written with the fewest digits that no other one is nearest to.
-/

namespace Upkeep.Json

/-- The hexadecimal digit of a value below sixteen. -/
def hexChar (n : Nat) : Char := Char.ofNat (if n < 10 then 0x30 + n else 0x57 + n)

def escape (c : Char) : List Char :=
  match c.toNat with
  | 0x22 => ['\\', c]
  | 0x5c => ['\\', '\\']
  | 0x08 => ['\\', 'b']
  | 0x09 => ['\\', 't']
  | 0x0a => ['\\', 'n']
  | 0x0c => ['\\', 'f']
  | 0x0d => ['\\', 'r']
  | n => if n < 0x20 then ['\\', 'u', '0', '0', hexChar (n / 16), hexChar (n % 16)] else [c]

def stringChars (s : String) : List Char := '\x22' :: s.toList.flatMap escape ++ ['\x22']

/-- Where decimals stand without an exponent: from `10 ^ -5` up to, not including, `10 ^ 16`. -/
def isPositional (top : Int) : Bool := -5 ≤ top && top < 16

/-- Digits `d` times `10 ^ e`, at least one digit on each side of the point. -/
def positional (digits : List Char) (e : Int) : List Char :=
  if 0 ≤ e then digits ++ List.replicate e.toNat '0' ++ ['.', '0']
  else
    let places := e.natAbs
    if places < digits.length then
      digits.take (digits.length - places) ++ '.' :: digits.drop (digits.length - places)
    else ['0', '.'] ++ List.replicate (places - digits.length) '0' ++ digits

/-- One digit before the point, no point when it stands alone, and a signed exponent. -/
def scientific (digits : List Char) (top : Int) : List Char :=
  let fraction := if digits.length = 1 then [] else '.' :: digits.drop 1
  digits.take 1 ++ fraction ++ ['e', if top < 0 then '-' else '+'] ++ Nat.toDigits 10 top.natAbs

def floatChars (x : Binary64) : List Char :=
  let sign := if x.negative then ['-'] else []
  if x.isZero then sign ++ ['0', '.', '0']
  else
    let (d, e) := x.shortest
    let digits := Nat.toDigits 10 d
    let top := e + digits.length - 1
    sign ++ if isPositional top then positional digits e else scientific digits top

def Number.chars : Number → List Char
  | .natural n => Nat.toDigits 10 n.toNat
  | .negative n => '-' :: Nat.toDigits 10 n
  | .float x => floatChars x

mutual

def chars : Json → List Char
  | .null => ['n', 'u', 'l', 'l']
  | .bool true => ['t', 'r', 'u', 'e']
  | .bool false => ['f', 'a', 'l', 's', 'e']
  | .number n => n.chars
  | .text s => stringChars s
  | .array items => '[' :: itemsChars items ++ [']']
  | .object members => '\x7b' :: membersChars members ++ ['\x7d']

def itemsChars : List Json → List Char
  | [] => []
  | [v] => chars v
  | v :: w :: r => chars v ++ ',' :: itemsChars (w :: r)

def membersChars : List (String × Json) → List Char
  | [] => []
  | [(k, v)] => stringChars k ++ ':' :: chars v
  | (k, v) :: m :: r => stringChars k ++ ':' :: chars v ++ ',' :: membersChars (m :: r)

end

/-- The compact text of a value. -/
def render (v : Json) : String := String.ofList v.chars

/-- A string as a JSON text. -/
def quote (s : String) : String := String.ofList (stringChars s)

end Upkeep.Json
