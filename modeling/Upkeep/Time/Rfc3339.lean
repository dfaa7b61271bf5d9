import Upkeep.Text.Utf8
import Upkeep.Time.Calendar

/-!
Points in time as RFC 3339 text. A reader accepts `T`, `t` or a blank between date and time,
any fraction of a second, and a true minus sign; it counts a leap second as the one before it.
-/

namespace Upkeep.Rfc3339

inductive Error where
  | tooShort
  | invalid
  | outOfRange
  | trailing
  deriving DecidableEq, Repr

def Error.message : Error → String
  | .tooShort => "premature end of input"
  | .invalid => "input contains invalid characters"
  | .outOfRange => "input is out of range"
  | .trailing => "trailing input"

/-- The value of the first `n` octets as decimal digits, and the rest. -/
def number (n : Nat) (bs : Bytes) : Except Error (Nat × Bytes) :=
  let ds := bs.take n
  if ds.length < n then .error .tooShort
  else if ds.all Ascii.isDigit then
    .ok (ds.foldl (fun v b => v * 10 + Ascii.digitValue b) 0, bs.drop n)
  else .error .invalid

/-- Passes over one octet of those allowed. -/
def mark (allowed : List UInt8) : Bytes → Except Error Bytes
  | [] => .error .tooShort
  | b :: r => if allowed.contains b then .ok r else .error .invalid

/-- The year, month and day, checked against the calendar. -/
def date (bs : Bytes) : Except Error (Date × Bytes) := do
  let (year, bs) ← number 4 bs
  let bs ← mark [Ascii.minus] bs
  let (month, bs) ← number 2 bs
  let bs ← mark [Ascii.minus] bs
  let (day, bs) ← number 2 bs
  let d : Date := ⟨year, month, day⟩
  if Calendar.exists? d then return (d, bs) else throw .outOfRange

structure Clock where
  hour : Nat
  minute : Nat
  second : Nat

/-- Hour, minute and second, of any two digits. -/
def clock (bs : Bytes) : Except Error (Clock × Bytes) := do
  let (hour, bs) ← number 2 bs
  let bs ← mark [Ascii.colon] bs
  let (minute, bs) ← number 2 bs
  let bs ← mark [Ascii.colon] bs
  let (second, bs) ← number 2 bs
  return (⟨hour, minute, second⟩, bs)

def Clock.isValid (c : Clock) : Bool := c.hour ≤ 23 && c.minute ≤ 59 && c.second ≤ 60

def Clock.seconds (c : Clock) : Nat := c.hour * 3600 + c.minute * 60 + min c.second 59

/-- Passes over a fraction of a second, if there is one. -/
def fraction : Bytes → Except Error Bytes
  | 0x2e :: r =>
    match r with
    | [] => .error .tooShort
    | b :: _ => if Ascii.isDigit b then .ok (r.dropWhile Ascii.isDigit) else .error .invalid
  | bs => .ok bs

/-- The sign of an offset: positive or not. The minus sign proper has three octets. -/
def sign : Bytes → Except Error (Bool × Bytes)
  | 0x2b :: r => .ok (true, r)
  | 0x2d :: r => .ok (false, r)
  | 0xe2 :: 0x88 :: 0x92 :: r => .ok (false, r)
  | [] => .error .tooShort
  | _ => .error .invalid

/-- The offset from universal time, in seconds. -/
def offset (bs : Bytes) : Except Error (Int × Bytes) :=
  match bs with
  | 0x5a :: r => .ok (0, r)
  | 0x7a :: r => .ok (0, r)
  | _ => do
    let (east, r) ← sign bs
    let (hours, r) ← number 2 r
    let r ← mark [Ascii.colon] r
    let (minutes, r) ← number 2 r
    if 59 < minutes then throw .outOfRange
    let seconds : Int := hours * 3600 + minutes * 60
    return (if east then seconds else -seconds, r)

/-- The offsets that a point in time may have, in either direction. -/
def maxOffset : Nat := (23 * 60 + 59) * 60

/-- Whole seconds since the epoch, negative before it. -/
def parse (s : String) : Except Error Int := do
  let bs := Utf8.encode s
  if bs.length < 19 then throw .tooShort
  let (d, bs) ← date bs
  let bs ← mark [0x54, 0x74, Ascii.space] bs
  let (c, bs) ← clock bs
  let bs ← fraction bs
  if !c.isValid then throw .outOfRange
  let (shift, bs) ← offset bs
  if !bs.isEmpty then throw .trailing
  if maxOffset < shift.natAbs then throw .outOfRange
  return ((Calendar.toDays d : Int) - Calendar.epoch) * 86400 + c.seconds - shift

/-- A number in decimal digits, at least `width` of them. -/
def padded (width n : Nat) : List Char :=
  let ds := Nat.toDigits 10 n
  List.replicate (width - ds.length) '0' ++ ds

/-- The year; past four digits it has a plus sign. -/
def yearChars (year : Nat) : List Char :=
  if year ≤ 9999 then padded 4 year else '+' :: Nat.toDigits 10 year

/-- The last second that has a text: the end of the year 262142. -/
def lastSecond : Nat := 8210266876799

/-- A count of seconds since the epoch as text in universal time, with milliseconds. -/
def format? (seconds : Nat) : Option String :=
  if lastSecond < seconds then none
  else
    let d := Calendar.ofDays (seconds / 86400 + Calendar.epoch)
    let t := seconds % 86400
    some <| String.ofList <|
      yearChars d.year ++ '-' :: padded 2 d.month ++ '-' :: padded 2 d.day
        ++ 'T' :: padded 2 (t / 3600) ++ ':' :: padded 2 (t / 60 % 60) ++ ':' :: padded 2 (t % 60)
        ++ ['.', '0', '0', '0', 'Z']

end Upkeep.Rfc3339
