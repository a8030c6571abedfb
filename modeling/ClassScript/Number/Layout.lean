import ClassScript.Number.Shortest

/-!
How numbers are written. Shortest digits are laid out with or without an exponent as a `Layout`
says; a fixed number of places is rounded from the exact value, ties to even.
-/

namespace ClassScript.Number

/-- Where positional notation ends, and how a small negative exponent is written. -/
structure Layout where
  /-- The least exponent that is still written positionally. -/
  positionalFrom : Int
  /-- The first exponent that is too large for positional notation. -/
  positionalBelow : Int
  /-- Whether a negative exponent has at least two digits. -/
  padsNegative : Bool

namespace Layout

/-- Numbers in messages and in output. -/
def plain : Layout := ⟨-4, 6, true⟩

/-- Numbers in structured data. -/
def data : Layout := ⟨-6, 21, false⟩

end Layout

/-- Digits as text. -/
def digitText (ds : List Nat) : String := String.ofList (ds.map fun d => Char.ofNat ('0'.toNat + d))

/-- A run of zeros. -/
def zeros (n : Nat) : String := String.ofList (List.replicate n '0')

/-- A decimal without an exponent. -/
def positional (d : Decimal) : String :=
  if d.exponent < 0 then "0." ++ zeros (d.exponent.natAbs - 1) ++ digitText d.digits
  else
    let whole := d.exponent.toNat + 1
    if d.digits.length ≤ whole then digitText d.digits ++ zeros (whole - d.digits.length)
    else digitText (d.digits.take whole) ++ "." ++ digitText (d.digits.drop whole)

/-- A decimal with an exponent. -/
def scientific (layout : Layout) (d : Decimal) : String :=
  let fraction := if d.digits.length ≤ 1 then "" else "." ++ digitText (d.digits.drop 1)
  let size := toString d.exponent.natAbs
  let pad := if size.length < 2 && (layout.padsNegative || d.exponent ≥ 0) then "0" else ""
  let sign := if d.exponent < 0 then "-" else "+"
  digitText (d.digits.take 1) ++ fraction ++ "e" ++ sign ++ pad ++ size

/-- A number in the shortest form that reads back. -/
def write (layout : Layout) (x : Float) : String :=
  if x.isNaN then "NaN"
  else if x.isInf then if isNegative x then "-Inf" else "+Inf"
  else
    let sign := if isNegative x then "-" else ""
    let d := decode x
    if d.mantissa == 0 then sign ++ "0"
    else
      let s := Decimal.shortest d
      if s.exponent < layout.positionalFrom || s.exponent ≥ layout.positionalBelow then
        sign ++ scientific layout s
      else sign ++ positional s

/-- A number rounded to a fixed count of decimal places, ties to even. -/
def fixed (places : Nat) (x : Float) : String :=
  if x.isNaN then "NaN"
  else if x.isInf then if isNegative x then "-Inf" else "+Inf"
  else
    let d := decode x
    let (num, den) := scaled d.mantissa d.exponent
    let n := roundDiv (num * tenTo places) den
    let text := toString n
    let padded := zeros (places + 1 - text.length) ++ text
    let cut := padded.length - places
    let whole := String.ofList (padded.toList.take cut)
    let rest := String.ofList (padded.toList.drop cut)
    (if isNegative x then "-" else "") ++ whole ++ (if places == 0 then "" else "." ++ rest)

end ClassScript.Number
