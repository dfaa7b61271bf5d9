import Upkeep.Json.Reader

/-!
Passing over a value that nobody asked for. Only its shape is checked: numbers may be of any
size, escapes by number may name any code unit, strings need not be UTF-8, and arrays and
objects nest without limit.
-/

namespace Upkeep.Json

/-- Passes over a string whose opening quote was read. -/
def skipString : Nat → Bytes → Except Error Bytes
  | 0, _ => .error .endInString
  | _ + 1, [] => .error .endInString
  | fuel + 1, b :: r =>
    if b == Ascii.quote then .ok r
    else if b == Ascii.backslash then
      match r with
      | [] => .error .endInString
      | c :: r =>
        if c == 0x75 then do
          let (_, r) ← hex4 r
          skipString fuel r
        else if (shortEscape? c).isSome then skipString fuel r
        else .error .invalidEscape
    else if b < 0x20 then .error .controlCharacter
    else skipString fuel r

/-- Passes over the digits of an exponent, after its letter. -/
def skipExponent (bs : Bytes) : Except Error Bytes :=
  let r := match bs with
    | 0x2b :: r => r
    | 0x2d :: r => r
    | r => r
  if startsWithDigit r then .ok (skipDigits r) else .error .invalidNumber

def skipTail (r : Bytes) : Except Error Bytes :=
  match r with
  | [] => .ok []
  | b :: r' => if isExponentLetter b then skipExponent r' else .ok r

/-- Passes over a number from its first digit on. -/
def skipNumber (bs : Bytes) : Except Error Bytes :=
  match bs with
  | [] => .error .invalidNumber
  | b :: r => do
    if !Ascii.isDigit b then throw .invalidNumber
    if b == Ascii.zero && startsWithDigit r then throw .invalidNumber
    match skipDigits bs with
    | 0x2e :: r =>
      if startsWithDigit r then skipTail (skipDigits r) else throw .invalidNumber
    | r => skipTail r

inductive Enclosure where
  | list
  | object
  deriving DecidableEq, Repr

def Enclosure.closing : Enclosure → UInt8
  | .list => Ascii.closeBracket
  | .object => Ascii.closeBrace

def Enclosure.unfinished : Enclosure → Error
  | .list => .endInList
  | .object => .endInObject

def Enclosure.noComma : Enclosure → Error
  | .list => .expectedCommaOrBracket
  | .object => .expectedCommaOrBrace

/-- What is open, innermost first, and whether a value was just passed in the innermost one. -/
abbrev Open := List Enclosure

/-- Passes over the key and the colon of a member. -/
def skipKey (bs : Bytes) : Except Error Bytes :=
  match skipBlank bs with
  | [] => .error .endInObject
  | 0x22 :: r => do colon (← skipString r.length r)
  | _ => .error .keyNotString

/-- Passes over a string, a word or a number. -/
def skipScalar (b : UInt8) (r : Bytes) : Except Error Bytes :=
  if b == 0x6e then readNull r
  else if b == 0x74 then readTrue r
  else if b == 0x66 then readFalse r
  else if b == Ascii.minus then skipNumber r
  else if Ascii.isDigit b then skipNumber (b :: r)
  else if b == Ascii.quote then skipString r.length r
  else .error .expectedValue

mutual

/-- Passes over a value inside what is open, and over the rest of what is open. -/
def skipIn : Nat → Open → Bytes → Except Error Bytes
  | 0, _, _ => .error .endInValue
  | fuel + 1, stack, bs =>
    match skipBlank bs with
    | [] => .error .endInValue
    | b :: r =>
      if b == Ascii.openBracket then skipOn fuel (.list :: stack) false r
      else if b == Ascii.openBrace then skipOn fuel (.object :: stack) false r
      else do skipOn fuel stack true (← skipScalar b r)

/-- Goes on in the innermost list or object; a comma may stand after a value only. -/
def skipOn : Nat → Open → Bool → Bytes → Except Error Bytes
  | 0, _, _, _ => .error .endInValue
  | _ + 1, [], _, bs => .ok bs
  | fuel + 1, e :: stack, afterValue, bs =>
    match skipBlank bs with
    | [] => .error e.unfinished
    | b :: r =>
      if b == Ascii.comma && afterValue then skipNext fuel e stack r
      else if b == e.closing then skipOn fuel stack true r
      else if afterValue then .error e.noComma
      else skipNext fuel e stack (b :: r)

/-- Passes over the next item or member of the innermost list or object. -/
def skipNext : Nat → Enclosure → Open → Bytes → Except Error Bytes
  | 0, _, _, _ => .error .endInValue
  | fuel + 1, .list, stack, bs => skipIn fuel (.list :: stack) bs
  | fuel + 1, .object, stack, bs => do skipIn fuel (.object :: stack) (← skipKey bs)

end

def skipValue (bs : Bytes) : Except Error Bytes := skipIn (4 * bs.length + 4) [] bs

end Upkeep.Json
