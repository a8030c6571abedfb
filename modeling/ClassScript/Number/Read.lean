import ClassScript.Number.Binary

/-!
Reading numbers and truth values from text. A number is an optional sign followed by decimal digits
with an optional point and an optional power of ten, or by `0x`, hexadecimal digits with an optional
point and a power of two; single underscores may separate digits. `inf`, `infinity` and `nan` are
read in any case. A finite text whose value is too large is refused.
-/

namespace ClassScript.Number

namespace Read

/-- The value of a digit below `base`. -/
def digit? (base : Nat) (c : Char) : Option Nat :=
  let v :=
    if '0' ≤ c && c ≤ '9' then c.toNat - '0'.toNat
    else if 'a' ≤ c.toLower && c.toLower ≤ 'f' then c.toLower.toNat - 'a'.toNat + 10
    else 99
  if v < base then some v else none

/-- Digits read so far: their value, how many stand behind the point, whether there was a digit
and whether there was a point. -/
structure Mantissa where
  value : Nat
  places : Nat
  any : Bool
  point : Bool

/-- Reads digits, underscores and at most one point, and returns what is left. -/
def mantissa (base : Nat) (m : Mantissa) : List Char → Mantissa × List Char
  | [] => (m, [])
  | c :: cs =>
    if c == '_' then mantissa base m cs
    else if c == '.' then
      if m.point then (m, c :: cs) else mantissa base { m with point := true } cs
    else
      match digit? base c with
      | none => (m, c :: cs)
      | some v =>
        mantissa base ⟨m.value * base + v, if m.point then m.places + 1 else m.places, true, m.point⟩ cs

/-- The size of an exponent beyond which the value no longer matters. -/
def exponentLimit : Nat := 10000

/-- Reads the digits of an exponent and returns what is left. -/
def exponentDigits (n : Nat) : List Char → Nat × List Char
  | [] => (n, [])
  | c :: cs =>
    if c == '_' then exponentDigits n cs
    else
      match digit? 10 c with
      | none => (n, c :: cs)
      | some v => exponentDigits (if n < exponentLimit then n * 10 + v else n) cs

/-- Reads an exponent behind its mark: an optional sign and at least one digit. -/
def exponent? (cs : List Char) : Option (Int × List Char) :=
  let (negative, rest) :=
    match cs with
    | '+' :: r => (false, r)
    | '-' :: r => (true, r)
    | _ => (false, cs)
  match rest with
  | [] => none
  | c :: _ =>
    if (digit? 10 c).isNone then none
    else
      let (n, left) := exponentDigits 0 rest
      some (if negative then -(n : Int) else n, left)

/-- The class of the character before a place in a number, for the rule on underscores. -/
inductive Before where
  | start | digit | underscore | other
  deriving DecidableEq

/-- Whether every underscore stands between digits; a base mark counts as a digit. -/
def separated (hex : Bool) (before : Before) : List Char → Bool
  | [] => before != .underscore
  | c :: cs =>
    if (digit? (if hex then 16 else 10) c).isSome then separated hex .digit cs
    else if c == '_' then before == .digit && separated hex .underscore cs
    else before != .underscore && separated hex .other cs

/-- The number `value / 10 ^ places * 10 ^ power`, if it is not too large. -/
def ofDecimal (negative : Bool) (value places : Nat) (power : Int) : Option Float :=
  let e := power - (places : Int)
  let size : Int := ((Nat.toDigits 10 value).length : Int) + e
  if value == 0 || size < -400 then nearest negative 0 1
  else if size > 400 then none
  else if e < 0 then nearest negative value (tenTo e.natAbs)
  else nearest negative (value * tenTo e.natAbs) 1

/-- The number `value / 16 ^ places * 2 ^ power`, if it is not too large. -/
def ofHex (negative : Bool) (value places : Nat) (power : Int) : Option Float :=
  let e := power - 4 * (places : Int)
  let size : Int := (value.log2 : Int) + e
  if value == 0 || size < -1200 then nearest negative 0 1
  else if size > 1200 then none
  else if e < 0 then nearest negative value (twoTo e.natAbs)
  else nearest negative (value * twoTo e.natAbs) 1

/-- Reads a finite number without its sign. -/
def finite (negative : Bool) (cs : List Char) : Option Float :=
  let hex :=
    match cs with
    | '0' :: x :: _ :: _ => x == 'x' || x == 'X'
    | _ => false
  let body := if hex then cs.drop 2 else cs
  let (m, rest) := mantissa (if hex then 16 else 10) ⟨0, 0, false, false⟩ body
  if !m.any || !separated hex (if hex then .digit else .start) body then none
  else
    match rest with
    | [] => if hex then none else ofDecimal negative m.value m.places 0
    | c :: more =>
      if c.toLower == (if hex then 'p' else 'e') then
        match exponent? more with
        | some (e, []) =>
          if hex then ofHex negative m.value m.places e else ofDecimal negative m.value m.places e
        | _ => none
      else none

end Read

/-- The number that a text denotes. -/
def read (s : String) : Option Float :=
  let cs := s.toList
  let (signed, negative, body) :=
    match cs with
    | '+' :: r => (true, false, r)
    | '-' :: r => (true, true, r)
    | _ => (false, false, cs)
  let word := body.map Char.toLower
  if word == "inf".toList || word == "infinity".toList then
    some (if negative then -1.0 / 0.0 else 1.0 / 0.0)
  else if word == "nan".toList && !signed then some (0.0 / 0.0)
  else Read.finite negative body

/-- The truth value that a text denotes: a few spellings of one letter or one word. -/
def readTruth (s : String) : Option Bool :=
  if ["1", "t", "T", "true", "TRUE", "True"].contains s then some true
  else if ["0", "f", "F", "false", "FALSE", "False"].contains s then some false
  else none

end ClassScript.Number
