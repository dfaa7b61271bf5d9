/-!
The Gregorian calendar from year 0 on: days counted from its first day, and back.
-/

namespace Upkeep

structure Date where
  year : Nat
  month : Nat
  day : Nat
  deriving DecidableEq, Repr

namespace Calendar

def isLeap (year : Nat) : Bool := year % 4 == 0 && (year % 100 != 0 || year % 400 == 0)

def monthLengths (year : Nat) : List Nat :=
  [31, if isLeap year then 29 else 28, 31, 30, 31, 30, 31, 31, 30, 31, 30, 31]

/-- Days before the first of January of a year. -/
def daysBefore (year : Nat) : Nat :=
  365 * year + (year + 3) / 4 - (year + 99) / 100 + (year + 399) / 400

def exists? (d : Date) : Bool :=
  1 ≤ d.month && 1 ≤ d.day && d.day ≤ ((monthLengths d.year)[d.month - 1]?).getD 0

/-- Days from the first day of year 0. -/
def toDays (d : Date) : Nat :=
  daysBefore d.year + ((monthLengths d.year).take (d.month - 1)).foldr (· + ·) 0 + (d.day - 1)

/-- The year that holds a day. -/
def yearOf (days : Nat) : Nat :=
  let guess := days * 400 / 146097
  if days < daysBefore guess then guess - 1
  else if daysBefore (guess + 1) ≤ days then guess + 1
  else guess

/-- Month and day for the days since the first of the months given, the first of them `month`. -/
def monthOf : List Nat → Nat → Nat → Nat × Nat
  | [], month, days => (month, days + 1)
  | length :: rest, month, days =>
    if days < length then (month, days + 1) else monthOf rest (month + 1) (days - length)

def ofDays (days : Nat) : Date :=
  let year := yearOf days
  let (month, day) := monthOf (monthLengths year) 1 (days - daysBefore year)
  ⟨year, month, day⟩

/-- The day on which the count of seconds starts, 1 January 1970. -/
def epoch : Nat := 719528

end Calendar

end Upkeep
