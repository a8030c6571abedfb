/-!
Numbers are 64-bit binary floating point. A finite number other than zero is a natural mantissa
times a power of two; `decode` gives the two, and `nearest` goes back from an exact ratio to the
number next to it, ties to the even mantissa.
-/

namespace ClassScript.Number

/-- The absolute value of a finite number: `mantissa * 2 ^ exponent`. -/
structure Dyadic where
  mantissa : Nat
  exponent : Int
  deriving DecidableEq, Inhabited, Repr

/-- The bit in front of the fraction, which is not stored: the power of two with exponent 52. -/
def leadingBit : Nat := 0x10000000000000

/-- The bit of the sign: the power of two with exponent 63. -/
def signBit : Nat := 0x8000000000000000

/-- A power of two. -/
def twoTo (n : Nat) : Nat := Nat.pow 2 n

/-- A power of ten. -/
def tenTo (n : Nat) : Nat := Nat.pow 10 n

/-- Whether the sign bit is set. -/
def isNegative (x : Float) : Bool := x.toBits >>> 63 == 1

/-- The bits between the sign and the fraction. -/
def exponentBits (x : Float) : Nat := ((x.toBits >>> 52) &&& 0x7FF).toNat

/-- The lowest 52 bits. -/
def fractionBits (x : Float) : Nat := (x.toBits &&& 0xFFFFFFFFFFFFF).toNat

/-- Mantissa and exponent of a finite number; the sign is left out. -/
def decode (x : Float) : Dyadic :=
  if exponentBits x == 0 then ⟨fractionBits x, -1074⟩
  else ⟨fractionBits x + leadingBit, (exponentBits x : Int) - 1075⟩

/-- The number with the given sign and the bits of an absolute value. -/
def ofMagnitudeBits (negative : Bool) (bits : Nat) : Float :=
  Float.ofBits (UInt64.ofNat (bits + if negative then signBit else 0))

/-- The quotient rounded to the nearest integer, ties to even. -/
def roundDiv (num den : Nat) : Nat :=
  let q := num / den
  let twice := 2 * (num % den)
  if twice > den || (twice == den && q % 2 == 1) then q + 1 else q

/-- `n * 2 ^ e` as a ratio of naturals. -/
def scaled (n : Nat) (e : Int) : Nat × Nat :=
  if e < 0 then (n, twoTo e.natAbs) else (n * twoTo e.natAbs, 1)

/-- The number nearest to the positive or negative ratio `num / den`, ties to the even mantissa.
There is none when the ratio is too large. -/
def nearest (negative : Bool) (num den : Nat) : Option Float :=
  if num == 0 then some (ofMagnitudeBits negative 0)
  else
    let guess : Int := (num.log2 : Int) - (den.log2 : Int) - 52
    let (n, d) :=
      if guess < 0 then (num * twoTo guess.natAbs, den) else (num, den * twoTo guess.natAbs)
    let e := max (if n < d * leadingBit then guess - 1 else guess) (-1074)
    let (n, d) := if e < 0 then (num * twoTo e.natAbs, den) else (num, den * twoTo e.natAbs)
    let m := roundDiv n d
    if m < leadingBit then some (ofMagnitudeBits negative m)
    else
      let bits := (e + 1075).toNat * leadingBit + (m - leadingBit)
      if bits < 2047 * leadingBit then some (ofMagnitudeBits negative bits) else none

end ClassScript.Number
