import ClassScript.Evaluation.HostMethod
import ClassScript.Number.Read
import ClassScript.Text.Case

/-!
Methods of strings, numbers and truth values. Strings are bytes, and are searched, joined and split
as such; positions in them count the glyphs they are read as. A method that picks or changes single
characters works on the characters shown.
-/

namespace ClassScript.Standard

open Evaluation

/-- The place of the first occurrence of `needle`, counted from `place`. -/
def placeOf (needle : Bytes) (place : Nat) : Bytes → Option Nat
  | [] => if needle.isEmpty then some place else none
  | b :: rest => if needle.isPrefixOf (b :: rest) then some place else placeOf needle (place + 1) rest

/-- The number of glyphs that a string is read as. -/
def length (s : Bytes) : Nat := s.text.length

/-- The character at an index. -/
def charAt (s : Bytes) (x : Float) : Except HostFault Bytes :=
  let i := Number.wholePart x
  let fault := HostFault.charIndex i (length s)
  if i < 0 then .error fault
  else
    match s.text[i.toNat]? with
    | some g => .ok (Text.legible [g]).bytes
    | none => .error fault

/-- The characters from `x` up to `y`; a negative `y` stands for the end. -/
def substring (s : Bytes) (x y : Float) : Except HostFault Bytes :=
  let size := length s
  let start := Number.wholePart x
  let stop := if Number.wholePart y < 0 then (size : Int) else Number.wholePart y
  if start < 0 || stop < start || (size : Int) < stop then .error (.substring start stop size)
  else .ok (Text.legible ((s.text.take stop.toNat).drop start.toNat)).bytes

/-- The parts of a string between separators, from the left; `part` holds the current one so far,
last byte first. -/
def partsFrom (separator : Bytes) (part : Bytes) : Bytes → List Bytes
  | [] => [part.reverse]
  | b :: rest =>
    if separator.isPrefixOf (b :: rest) then
      part.reverse :: partsFrom separator [] (rest.drop (separator.length - 1))
    else partsFrom separator (b :: part) rest
termination_by s => s.length
decreasing_by all_goals (simp only [List.length_cons, List.length_drop]; omega)

/-- The parts of a string between separators; without a separator, its glyphs. -/
def split (s separator : Bytes) : List Bytes :=
  if separator.isEmpty then s.text.map Glyph.bytes else partsFrom separator [] s

/-- The glyphs in front of the first occurrence, as a number; minus one if there is none. -/
def indexOf (s needle : Bytes) : Float :=
  match placeOf needle 0 s with
  | some i => Number.ofInteger (length (s.take i))
  | none => -1

/-- The method of that name of a string. -/
def stringMethod? (s : Bytes) : String → Option HostMethod
  | "Length" => some (.nullary (give (.number (Number.ofInteger (length s)))))
  | "CharAt" => some (.ofNumber fun x => return (charAt s x).map .string)
  | "IndexOf" => some (.ofText fun t => give (.number (indexOf s t)))
  | "Substring" => some (.ofNumbers fun x y => return (substring s x y).map .string)
  | "ToUpperCase" => some (.nullary (give (.string (s.text.mapShown Text.upper).bytes)))
  | "ToLowerCase" => some (.nullary (give (.string (s.text.mapShown Text.lower).bytes)))
  | "Trim" => some (.nullary (give (.string s.text.trim.bytes)))
  | "Split" => some (.ofText fun t => do
      give (.host (← newArray (.fitting ((split s t).map .string)))))
  | "Concat" => some (.ofText fun t => give (.string (s ++ t)))
  | "StartsWith" => some (.ofText fun t => give (.boolean (t.isPrefixOf s)))
  | "Equals" => some (.ofText fun t => give (.boolean (s == t)))
  | _ => none

/-- How numbers are written when no count of places can be told. -/
def unbounded : Number.Layout := ⟨-10000, 10000, true⟩

/-- A number with that many decimal places. -/
def toFixed (x digits : Float) : Except HostFault String :=
  if digits < 0 || digits > 20 then .error (.fixedDigits digits)
  else
    let places := Number.wholePart digits
    .ok (if places < 0 then Number.write unbounded x else Number.fixed places.toNat x)

/-- The number that a text denotes. -/
def parse (s : Bytes) : Except HostFault Float :=
  match Number.read s.text.trim.shown with
  | some x => .ok x
  | none => .error (.notNumber s)

/-- The method of that name of a number. -/
def numberMethod? (x : Float) : String → Option HostMethod
  | "ToString" => some (.nullary (give (.string (Number.text x))))
  | "ToFixed" => some (.ofNumber fun d => return (toFixed x d).map .string)
  | "Floor" => some (.nullary (give (.number x.floor)))
  | "Ceil" => some (.nullary (give (.number x.ceil)))
  | "Round" => some (.nullary (give (.number x.round)))
  | "Abs" => some (.nullary (give (.number x.abs)))
  | _ => none

/-- The method of that name of the class of numbers. -/
def numberClassMethod? : String → Option HostMethod
  | "Parse" => some (.ofText fun s => return (parse s).map .number)
  | "Max" => some (.ofNumbers fun x y => give (.number (Number.larger x y)))
  | "Min" => some (.ofNumbers fun x y => give (.number (Number.smaller x y)))
  | _ => none

/-- The method of that name of a truth value. -/
def booleanMethod? (b : Bool) : String → Option HostMethod
  | "ToString" => some (.nullary (give (.string (if b then "true" else "false"))))
  | _ => none

end ClassScript.Standard
