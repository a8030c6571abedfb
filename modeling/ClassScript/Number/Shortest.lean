import ClassScript.Number.Binary

/-!
The fewest decimal digits that read back as the same number. The reals that round to a number form
an interval around it; for 1, 2, … digits the two neighbours of the number on that decimal grid are
tried, and the first grid with a neighbour inside the interval wins, the nearer one if both are.
-/

namespace ClassScript.Number

/-- A positive decimal: the first digit stands before the point and the whole is multiplied by the
power of ten. -/
structure Decimal where
  digits : List Nat
  exponent : Int
  deriving DecidableEq, Inhabited, Repr

namespace Decimal

/-- The decimal digits of a positive natural, most significant first. -/
def digitsOf (n : Nat) : List Nat := (Nat.toDigits 10 n).map fun c => c.toNat - '0'.toNat

/-- Digits without the zeros at their end. -/
def trimZeros (ds : List Nat) : List Nat := (ds.reverse.dropWhile (· == 0)).reverse

/-- The decimal `k * 10 ^ grid`. -/
def ofScaled (k : Nat) (grid : Int) : Decimal :=
  let ds := digitsOf k
  ⟨trimZeros ds, grid + ds.length - 1⟩

/-- The least `j` up to `fuel` with `den ≤ num * 10 ^ j`. -/
def scaleUp (fuel num den : Nat) : Nat :=
  match fuel with
  | 0 => 0
  | fuel + 1 => if den ≤ num then 0 else scaleUp fuel (num * 10) den + 1

/-- The power of ten of the first digit of `num / den`. -/
def leadingExponent (num den : Nat) : Int :=
  if den ≤ num then ((digitsOf (num / den)).length : Int) - 1
  else -(scaleUp 400 num den : Int)

/-- Numerator, lower and upper end of the rounding interval over one denominator. -/
structure Interval where
  value : Nat
  lower : Nat
  upper : Nat
  denominator : Nat
  closed : Bool

/-- The reals that round to a positive number. Below a power of two the gap is half as wide. -/
def interval (d : Dyadic) : Interval :=
  let m := d.mantissa
  let low := if m == leadingBit && d.exponent > -1074 then 4 * m - 1 else 4 * m - 2
  let (factor, den) := scaled 1 d.exponent
  ⟨4 * m * factor, low * factor, (4 * m + 2) * factor, 4 * den, m % 2 == 0⟩

/-- Whether `k * unit` lies in the interval. -/
def Interval.holds (i : Interval) (k unit : Nat) : Bool :=
  if i.closed then i.lower ≤ k * unit && k * unit ≤ i.upper
  else i.lower < k * unit && k * unit < i.upper

/-- The interval seen in units of `10 ^ grid`. -/
def Interval.onGrid (i : Interval) (grid : Int) : Interval :=
  if grid < 0 then
    let f := tenTo grid.natAbs
    { i with value := i.value * f, lower := i.lower * f, upper := i.upper * f }
  else { i with denominator := i.denominator * tenTo grid.natAbs }

/-- The neighbour of the value on a grid that lies in the interval, the nearer if both do. -/
def neighbour? (i : Interval) (grid : Int) : Option Nat :=
  let g := i.onGrid grid
  let k := g.value / g.denominator
  let below := k > 0 && g.holds k g.denominator
  let above := g.holds (k + 1) g.denominator
  if below && above then
    let down := g.value - k * g.denominator
    let up := (k + 1) * g.denominator - g.value
    if up < down || (up == down && k % 2 == 1) then some (k + 1) else some k
  else if below then some k
  else if above then some (k + 1)
  else none

/-- The first grid of at least `count` digits that has a neighbour in the interval. -/
def search (i : Interval) (lead : Int) (count fuel : Nat) : Decimal :=
  let grid := lead - (count : Int) + 1
  match fuel with
  | 0 => ofScaled ((i.onGrid grid).value / (i.onGrid grid).denominator) grid
  | fuel + 1 =>
    match neighbour? i grid with
    | some k => ofScaled k grid
    | none => search i lead (count + 1) fuel

/-- The shortest decimal that reads back as a positive number. -/
def shortest (d : Dyadic) : Decimal :=
  let i := interval d
  search i (leadingExponent i.value i.denominator) 1 17

end Decimal

end ClassScript.Number
