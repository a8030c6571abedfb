import ClassScript.Number.Binary

/-!
Arithmetic beyond the four operations: the remainder with the sign of the dividend, the larger and
the smaller of two numbers, and the whole part as a 64-bit integer.
-/

namespace ClassScript.Number

/-- Not a number. -/
def nan : Float := 0.0 / 0.0

/-- The exact remainder of a division toward zero; it has the sign of the dividend. -/
def remainder (x y : Float) : Float :=
  if x.isNaN || y.isNaN || x.isInf || y == 0.0 then nan
  else if y.isInf then x
  else
    let a := decode x
    let b := decode y
    let e := min a.exponent b.exponent
    let m :=
      (a.mantissa * twoTo (a.exponent - e).toNat) % (b.mantissa * twoTo (b.exponent - e).toNat)
    let (num, den) := scaled m e
    (nearest (isNegative x) num den).getD nan

/-- The larger of two numbers; zero is larger than negative zero. -/
def larger (x y : Float) : Float :=
  if (x.isInf && !isNegative x) || (y.isInf && !isNegative y) then 1.0 / 0.0
  else if x.isNaN || y.isNaN then nan
  else if x == 0.0 && x == y then if isNegative x then y else x
  else if x > y then x
  else y

/-- The smaller of two numbers; negative zero is smaller than zero. -/
def smaller (x y : Float) : Float :=
  if (x.isInf && isNegative x) || (y.isInf && isNegative y) then -1.0 / 0.0
  else if x.isNaN || y.isNaN then nan
  else if x == 0.0 && x == y then if isNegative x then x else y
  else if x < y then x
  else y

/-- The smallest 64-bit integer, which also stands for every whole part that does not fit. -/
def leastInteger : Int := -9223372036854775808

/-- The whole part of a number as a 64-bit integer. -/
def wholePart (x : Float) : Int :=
  if x.isNaN || x.isInf then leastInteger
  else
    let d := decode x
    let (num, den) := scaled d.mantissa d.exponent
    let n : Int := (num / den : Nat)
    let v := if isNegative x then -n else n
    if leastInteger ≤ v && v < 9223372036854775808 then v else leastInteger

/-- Whether a number is finite and has no fraction. -/
def isWhole (x : Float) : Bool :=
  if x.isNaN || x.isInf then false
  else
    let d := decode x
    let (num, den) := scaled d.mantissa d.exponent
    num % den == 0

/-- The number that a run of decimal digits stands for. -/
def ofDigits (digits : String) : Float :=
  let n := digits.foldl (fun n c => n * 10 + (c.toNat - '0'.toNat)) 0
  (nearest false n 1).getD nan

/-- The number of a 64-bit integer. -/
def ofInteger (n : Int) : Float := (nearest (n < 0) n.natAbs 1).getD nan

end ClassScript.Number
