/-!
Finite binary64 numbers in exact arithmetic: rounding a quotient to the nearest number,
products and quotients, and the shortest decimal that only one number is nearest to.
-/

namespace Upkeep

/-- `mantissa * 2 ^ exponent` with a sign; zero keeps its sign. -/
structure Binary64 where
  negative : Bool
  mantissa : Nat
  exponent : Int
  deriving DecidableEq, Repr

namespace Binary64

def zero : Binary64 := ⟨false, 0, 0⟩

def neg (x : Binary64) : Binary64 := { x with negative := !x.negative }

def isZero (x : Binary64) : Bool := x.mantissa == 0

/-- `num / den` scaled by `2 ^ (-e)`, as a quotient of naturals. -/
def scaled (num den : Nat) (e : Int) : Nat × Nat :=
  if e < 0 then (num * Nat.pow 2 e.natAbs, den) else (num, den * Nat.pow 2 e.natAbs)

/-- The nearest natural to a quotient; a half goes to the even neighbour. -/
def nearest (num den : Nat) : Nat :=
  let q := num / den
  let twice := 2 * (num % den)
  if twice < den then q
  else if den < twice then q + 1
  else q + q % 2

/-- The exponent at which `num / den` has 53 binary digits, or the least one there is. -/
def exponentOf (num den : Nat) : Int :=
  let guess : Int := (Nat.log2 num : Int) - (Nat.log2 den : Int) - 52
  let (n, d) := scaled num den guess
  let e := if n < Nat.pow 2 52 * d then guess - 1 else guess
  if e < -1074 then -1074 else e

/-- The nearest number to `num / den`, or none when that is beyond the greatest one. -/
def round? (num den : Nat) : Option Binary64 :=
  if num = 0 then some zero
  else
    let e := exponentOf num den
    let (n, d) := scaled num den e
    let m := nearest n d
    let (m, e) := if m = Nat.pow 2 53 then (Nat.pow 2 52, e + 1) else (m, e)
    if 971 < e then none
    else if m = 0 then some zero
    else some ⟨false, m, e⟩

def ofNat? (n : Nat) : Option Binary64 := round? n 1

/-- Numerator and denominator of the magnitude. -/
def fraction (x : Binary64) : Nat × Nat :=
  if x.exponent < 0 then (x.mantissa, Nat.pow 2 x.exponent.natAbs)
  else (x.mantissa * Nat.pow 2 x.exponent.natAbs, 1)

def mul? (x y : Binary64) : Option Binary64 :=
  let (a, b) := x.fraction
  let (c, d) := y.fraction
  (round? (a * c) (b * d)).map fun z => { z with negative := x.negative != y.negative }

/-- The nearest number to a quotient by a number that is not zero. -/
def div? (x y : Binary64) : Option Binary64 :=
  let (a, b) := x.fraction
  let (c, d) := y.fraction
  (round? (a * d) (b * c)).map fun z => { z with negative := x.negative != y.negative }

/-! The decimals nearest to one number only. -/

/-- Twice the ends of the interval of reals that round to a magnitude, over twice its denominator. -/
structure Interval where
  low : Nat
  value : Nat
  high : Nat
  den : Nat
  closed : Bool

def interval (x : Binary64) : Interval :=
  let m := x.mantissa
  let below := if m = Nat.pow 2 52 && decide (-1074 < x.exponent) then 1 else 2
  let (p, den) :=
    if x.exponent < 0 then (1, Nat.pow 2 x.exponent.natAbs) else (Nat.pow 2 x.exponent.natAbs, 1)
  ⟨(4 * m - below) * p, 4 * m * p, (4 * m + 2) * p, 4 * den, m % 2 == 0⟩

/-- Whether `digits * 10 ^ e` lies in an interval. -/
def Interval.contains (i : Interval) (digits : Nat) (e : Int) : Bool :=
  let (n, d) := if e < 0 then (digits, Nat.pow 10 e.natAbs) else (digits * Nat.pow 10 e.natAbs, 1)
  let x := n * i.den
  if i.closed then i.low * d ≤ x && x ≤ i.high * d else i.low * d < x && x < i.high * d

/-- How many decimal digits stand before the point, less one; negative below one. -/
def decade (num den : Nat) : Int :=
  if den ≤ num then ((Nat.toDigits 10 (num / den)).length : Int) - 1
  else
    let k := (Nat.toDigits 10 (den / num)).length
    if num * Nat.pow 10 (k - 1) < den then -(k : Int) else -((k : Int) - 1)

/-- The decimal of exponent `e` in an interval that is nearest to its value; an exact tie is even. -/
def Interval.onGrid? (i : Interval) (e : Int) : Option Nat :=
  let (n, d) := if e < 0 then (i.value * Nat.pow 10 e.natAbs, i.den)
    else (i.value, i.den * Nat.pow 10 e.natAbs)
  let floor := n / d
  let best := nearest n d
  if i.contains best e then some best
  else if i.contains floor e then some floor
  else if i.contains (floor + 1) e then some (floor + 1)
  else none

/-- The first grid that meets the interval, from few digits to many. -/
def Interval.search (i : Interval) (top : Int) : Nat → Nat → Nat × Int
  | 0, _ => (i.value / i.den, 0)
  | fuel + 1, count =>
    let e := top - count + 1
    match i.onGrid? e with
    | some digits => (digits, e)
    | none => i.search top fuel (count + 1)

def dropZeros : Nat → Nat → Int → Nat × Int
  | 0, digits, e => (digits, e)
  | fuel + 1, digits, e =>
    if digits % 10 = 0 && digits != 0 then dropZeros fuel (digits / 10) (e + 1) else (digits, e)

/-- Fewest digits `d` and their exponent `e`: `d * 10 ^ e` reads back as the magnitude. -/
def shortest (x : Binary64) : Nat × Int :=
  let i := x.interval
  let (digits, e) := i.search (decade i.value i.den) 20 1
  dropZeros 20 digits e

end Binary64

end Upkeep
