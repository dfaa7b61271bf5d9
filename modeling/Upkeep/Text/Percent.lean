import Upkeep.Text.Utf8

/-!
Percent escapes: reading them in the path of a request, and writing them in a form body.
A broken escape in a path stands for itself.
-/

namespace Upkeep.Percent

def decode : Bytes → Bytes
  | [] => []
  | 0x25 :: a :: b :: r =>
    match Ascii.hexValue? a, Ascii.hexValue? b with
    | some high, some low => UInt8.ofNat (high * 16 + low) :: decode r
    | _, _ => Ascii.percent :: decode (a :: b :: r)
  | a :: r => a :: decode r

/-- What a form body leaves as it is. -/
def isPlain (b : UInt8) : Bool :=
  Ascii.isDigit b || Ascii.isLower b || Ascii.isUpper b || [0x2a, 0x2d, 0x2e, 0x5f].contains b

def upperHexDigit (n : Nat) : Char := Char.ofNat (if n < 10 then 0x30 + n else 0x37 + n)

def formOctet (b : UInt8) : List Char :=
  if isPlain b then [Char.ofNat b.toNat]
  else if b == Ascii.space then ['+']
  else ['%', upperHexDigit (b.toNat / 16), upperHexDigit (b.toNat % 16)]

/-- A text as it stands in a form body. -/
def formText (s : String) : String := String.ofList ((Utf8.encode s).flatMap formOctet)

/-- A form body: names and values in order. -/
def form (pairs : List (String × String)) : String :=
  "&".intercalate (pairs.map fun p => formText p.1 ++ "=" ++ formText p.2)

end Upkeep.Percent
