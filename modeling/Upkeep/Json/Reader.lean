import Upkeep.Json.Error
import Upkeep.Text.Utf8

/-!
Reading JSON from octets. A reader takes the octets that are left and gives a value with
the octets after it; the first offending octet decides the error. Strings are checked to be
UTF-8 when their closing quote is reached. At most 127 arrays and objects nest.
-/

namespace Upkeep.Json

abbrev Reader (α : Type) := Bytes → Except Error (α × Bytes)

def isBlank (b : UInt8) : Bool := b == 0x20 || b == 0x0a || b == 0x09 || b == 0x0d

def skipBlank (bs : Bytes) : Bytes := bs.dropWhile isBlank

/-- The rest of a word whose first letter was read. -/
def word : List UInt8 → Bytes → Except Error Bytes
  | [], bs => .ok bs
  | _ :: _, [] => .error .endInValue
  | w :: ws, b :: bs => if b == w then word ws bs else .error .expectedWord

def readNull (bs : Bytes) : Except Error Bytes := word [0x75, 0x6c, 0x6c] bs

def readTrue (bs : Bytes) : Except Error Bytes := word [0x72, 0x75, 0x65] bs

def readFalse (bs : Bytes) : Except Error Bytes := word [0x61, 0x6c, 0x73, 0x65] bs

/-! Strings. -/

def hex4 : Reader Nat
  | a :: b :: c :: d :: r =>
    match Ascii.hexValue? a, Ascii.hexValue? b, Ascii.hexValue? c, Ascii.hexValue? d with
    | some a, some b, some c, some d => .ok (((a * 16 + b) * 16 + c) * 16 + d, r)
    | _, _, _, _ => .error .invalidEscape
  | _ => .error .endInString

/-- The low half of a surrogate pair, after the high half `high`. -/
def lowSurrogate (high : Nat) : Reader Nat
  | [] => .error .endInString
  | 0x5c :: [] => .error .endInString
  | 0x5c :: 0x75 :: r => do
    let (low, r) ← hex4 r
    if 0xdc00 ≤ low && low ≤ 0xdfff then
      return ((high - 0xd800) * 0x400 + (low - 0xdc00) + 0x10000, r)
    else throw .loneSurrogate
  | _ => .error .unexpectedEndOfEscape

/-- The code point of an escape by number. -/
def unicodeEscape : Reader Nat := fun bs => do
  let (n, r) ← hex4 bs
  if 0xdc00 ≤ n && n ≤ 0xdfff then throw .loneSurrogate
  else if 0xd800 ≤ n && n ≤ 0xdbff then lowSurrogate n r
  else return (n, r)

/-- The octet that a one-letter escape stands for. -/
def shortEscape? : UInt8 → Option UInt8
  | 0x22 => some 0x22
  | 0x5c => some 0x5c
  | 0x2f => some 0x2f
  | 0x62 => some 0x08
  | 0x66 => some 0x0c
  | 0x6e => some 0x0a
  | 0x72 => some 0x0d
  | 0x74 => some 0x09
  | _ => none

/-- What follows a backslash, as octets. -/
def escaped : Reader Bytes
  | [] => .error .endInString
  | b :: r =>
    if b == 0x75 then do
      let (n, r) ← unicodeEscape r
      return (String.utf8EncodeChar (Char.ofNat n), r)
    else
      match shortEscape? b with
      | some c => .ok ([c], r)
      | none => .error .invalidEscape

/-- The octets of a string up to its closing quote. Each step takes at least one octet. -/
def stringOctets : Nat → Reader Bytes
  | 0, _ => .error .endInString
  | _ + 1, [] => .error .endInString
  | fuel + 1, b :: r =>
    if b == Ascii.quote then .ok ([], r)
    else if b == Ascii.backslash then do
      let (octets, r) ← escaped r
      let (more, r) ← stringOctets fuel r
      return (octets ++ more, r)
    else if b < 0x20 then .error .controlCharacter
    else do
      let (more, r) ← stringOctets fuel r
      return (b :: more, r)

/-- A string whose opening quote was read. -/
def readString : Reader String := fun bs => do
  let (octets, r) ← stringOctets bs.length bs
  match Utf8.decode octets with
  | some s => return (s, r)
  | none => throw .invalidCodePoint

/-! Numbers. Digits go into a significand of 64 bits; what has no room only scales it. -/

def maxSignificand : Nat := Nat.pow 2 64 - 1

/-- Digits for as long as the significand has room for them. -/
def digits : Nat → Bytes → Nat × Bytes
  | n, [] => (n, [])
  | n, b :: r =>
    if Ascii.isDigit b && n * 10 + Ascii.digitValue b ≤ maxSignificand then
      digits (n * 10 + Ascii.digitValue b) r
    else (n, b :: r)

def startsWithDigit : Bytes → Bool
  | b :: _ => Ascii.isDigit b
  | [] => false

def skipDigits (bs : Bytes) : Bytes := bs.dropWhile Ascii.isDigit

/-- `10 ^ e` for an exponent up to 308. -/
def power (e : Nat) : Binary64 := (Binary64.ofNat? (Nat.pow 10 e)).getD .zero

/--
`x * 10 ^ e`, scaled by one power of ten when there is one. Smaller exponents divide by
`10 ^ 308` first; each step rounds.
-/
def scale : Nat → Binary64 → Int → Except Error Binary64
  | 0, x, _ => .ok x
  | fuel + 1, x, e =>
    if e.natAbs ≤ 308 then
      if 0 ≤ e then
        match x.mul? (power e.natAbs) with
        | some y => .ok y
        | none => .error .numberOutOfRange
      else .ok ((x.div? (power e.natAbs)).getD .zero)
    else if x.isZero then .ok x
    else if 0 ≤ e then .error .numberOutOfRange
    else scale fuel ((x.div? (power 308)).getD .zero) (e + 308)

def assemble (negative : Bool) (significand : Nat) (e : Int) : Except Error Number := do
  let x ← scale 5 ((Binary64.ofNat? significand).getD .zero) e
  return .float (if negative then x.neg else x)

def maxExponent : Nat := Nat.pow 2 31 - 1

/-- The digits of an exponent; none when they pass the greatest exponent there is. -/
def exponentDigits : Nat → Bytes → Option Nat × Bytes
  | n, [] => (some n, [])
  | n, b :: r =>
    if Ascii.isDigit b then
      if n * 10 + Ascii.digitValue b ≤ maxExponent then exponentDigits (n * 10 + Ascii.digitValue b) r
      else (none, skipDigits (b :: r))
    else (some n, b :: r)

def clampExponent (e : Int) : Int := max (-2147483648) (min e 2147483647)

def readExponent (negative : Bool) (significand : Nat) (start : Int) : Reader Number := fun bs => do
  let (down, bs) := match bs with
    | 0x2b :: r => (false, r)
    | 0x2d :: r => (true, r)
    | r => (false, r)
  match bs with
  | [] => throw .endInValue
  | b :: _ =>
    if !Ascii.isDigit b then throw .invalidNumber
    match exponentDigits 0 bs with
    | (some n, r) =>
      let x ← assemble negative significand (clampExponent (if down then start - n else start + n))
      return (x, r)
    | (none, r) =>
      if significand != 0 && !down then throw .numberOutOfRange
      return (.float (if negative then Binary64.zero.neg else .zero), r)

def isExponentLetter (b : UInt8) : Bool := b == 0x65 || b == 0x45

/-- The part after the point; `start` is the exponent that digits without room left behind. -/
def readFraction (negative : Bool) (significand : Nat) (start : Int) : Reader Number := fun bs => do
  let (n, r) := digits significand bs
  let taken := bs.length - r.length
  if taken == 0 && !startsWithDigit r then
    if r.isEmpty then throw .endInValue else throw .invalidNumber
  let r := skipDigits r
  let e := start - taken
  match r with
  | b :: r' =>
    if isExponentLetter b then readExponent negative n e r'
    else return (← assemble negative n e, r)
  | [] => return (← assemble negative n e, r)

/-- A whole significand, not followed by a fraction or an exponent. -/
def whole (negative : Bool) (n : Nat) : Number :=
  if !negative then .natural (UInt64.ofNat n)
  else if 1 ≤ n && n ≤ Nat.pow 2 63 then .negative n
  else .float ((Binary64.ofNat? n).getD .zero).neg

/-- What follows the digits of a significand. -/
def readTail (negative : Bool) (n : Nat) (r : Bytes) : Except Error (Number × Bytes) :=
  match r with
  | [] => .ok (whole negative n, [])
  | b :: r' =>
    if b == Ascii.point then readFraction negative n 0 r'
    else if isExponentLetter b then readExponent negative n 0 r'
    else .ok (whole negative n, r)

/-- A number from its first digit on. -/
def readNumber (negative : Bool) : Reader Number
  | [] => .error .endInValue
  | b :: r =>
    if b == Ascii.zero then
      if startsWithDigit r then .error .invalidNumber else readTail negative 0 r
    else if Ascii.isDigit b then
      let (n, r) := digits (Ascii.digitValue b) r
      if startsWithDigit r then
        let rest := skipDigits r
        let dropped := r.length - rest.length
        match rest with
        | c :: rest' =>
          if c == Ascii.point then readFraction negative n dropped rest'
          else if isExponentLetter c then readExponent negative n dropped rest'
          else (assemble negative n dropped).map (·, rest)
        | [] => (assemble negative n dropped).map (·, rest)
      else readTail negative n r
    else .error .invalidNumber

/-! Values. -/

/-- What is left before the next item of a list, or after the list. -/
def nextItem : Bytes → Except Error (Bool × Bytes) := fun bs =>
  match skipBlank bs with
  | [] => .error .endInList
  | 0x5d :: r => .ok (false, r)
  | 0x2c :: r =>
    match skipBlank r with
    | [] => .error .endInValue
    | 0x5d :: _ => .error .trailingComma
    | r => .ok (true, r)
  | _ => .error .expectedCommaOrBracket

/-- The same for the members of an object; the next one starts with the quote of its key. -/
def nextMember : Bytes → Except Error (Bool × Bytes) := fun bs =>
  match skipBlank bs with
  | [] => .error .endInObject
  | 0x7d :: r => .ok (false, r)
  | 0x2c :: r =>
    match skipBlank r with
    | [] => .error .endInValue
    | 0x22 :: r => .ok (true, r)
    | 0x7d :: _ => .error .trailingComma
    | _ => .error .keyNotString
  | _ => .error .expectedCommaOrBrace

def colon (bs : Bytes) : Except Error Bytes :=
  match skipBlank bs with
  | [] => .error .endInObject
  | 0x3a :: r => .ok r
  | _ => .error .expectedColon

/-- A string or a word or a number, from its first octet `b` on. -/
def readScalar (b : UInt8) (r : Bytes) : Except Error (Json × Bytes) :=
  if b == 0x6e then (readNull r).map (Json.null, ·)
  else if b == 0x74 then (readTrue r).map (Json.bool true, ·)
  else if b == 0x66 then (readFalse r).map (Json.bool false, ·)
  else if b == Ascii.quote then (readString r).map fun p => (Json.text p.1, p.2)
  else if b == Ascii.minus then (readNumber true r).map fun p => (Json.number p.1, p.2)
  else if Ascii.isDigit b then (readNumber false (b :: r)).map fun p => (Json.number p.1, p.2)
  else .error .expectedValue

mutual

/-- A value; `depth` more arrays and objects may open. -/
def readValue : Nat → Nat → Reader Json
  | 0, _, _ => .error .endInValue
  | fuel + 1, depth, bs =>
    match skipBlank bs with
    | [] => .error .endInValue
    | 0x5b :: r =>
      match depth with
      | 0 => .error .tooDeep
      | depth + 1 => do
        let (items, r) ← readItems fuel depth true r
        return (.array items, r)
    | 0x7b :: r =>
      match depth with
      | 0 => .error .tooDeep
      | depth + 1 => do
        let (members, r) ← readMembers fuel depth true [] r
        return (.object members, r)
    | b :: r => readScalar b r

/-- The items of a list from here to its end; before the first one no comma stands. -/
def readItems : Nat → Nat → Bool → Reader (List Json)
  | 0, _, _, _ => .error .endInList
  | fuel + 1, depth, first, bs => do
    let (more, r) ← match first, skipBlank bs with
      | true, [] => Except.error .endInList
      | true, 0x5d :: r => .ok (false, r)
      | true, r => .ok (true, r)
      | false, r => nextItem r
    if !more then return ([], r)
    let (v, r) ← readValue fuel depth r
    let (vs, r) ← readItems fuel depth false r
    return (v :: vs, r)

/-- The members of an object from here to its end, added to those before. -/
def readMembers : Nat → Nat → Bool → Table String Json → Reader (Table String Json)
  | 0, _, _, _, _ => .error .endInObject
  | fuel + 1, depth, first, before, bs => do
    let (more, r) ← match first, skipBlank bs with
      | true, [] => Except.error .endInObject
      | true, 0x7d :: r => .ok (false, r)
      | true, 0x22 :: r => .ok (true, r)
      | true, _ => .error .keyNotString
      | false, r => nextMember r
    if !more then return (before, r)
    let (key, r) ← readString r
    let r ← colon r
    let (v, r) ← readValue fuel depth r
    readMembers fuel depth false (before.insert key v) r

end

/-- How many arrays and objects may be open at once. -/
def depthLimit : Nat := 127

/-- Nothing but blanks is left. -/
def atEnd (bs : Bytes) : Except Error Unit :=
  if (skipBlank bs).isEmpty then .ok () else .error .trailingCharacters

/-- The one value that a text holds. -/
def ofBytes (bs : Bytes) : Except Error Json := do
  let (v, r) ← readValue (2 * bs.length + 2) depthLimit bs
  atEnd r
  return v

/-- The one value that a text holds. -/
def parse (s : String) : Except Error Json := ofBytes (Utf8.encode s)

end Upkeep.Json
