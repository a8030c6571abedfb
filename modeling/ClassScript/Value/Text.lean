import ClassScript.Syntax.Text
import ClassScript.Value.Heap

/-!
Values as text. Objects and arrays are shown with what they hold; one that holds itself has no text,
since showing it would never end. The iterator of an array has no text of its own and is shown as the
record it is: where its array lies in memory, and its position.
-/

namespace ClassScript.Heap

/-- The text of a closure. -/
def closureText (c : Closure) : Bytes :=
  "lambda" ++ (Expr.lambda default c.params c.result c.body).text.bytes

/-- The text of an iterator. -/
def cursorText (h : Heap) (c : ArrayCursor) : Bytes :=
  "&\x7b0x" ++ String.ofList (Nat.toDigits 16 (h.addresses c.array)) ++ " " ++ toString c.position ++ "\x7d"

mutual

/-- The text of a value, nested at most `fuel` deep. -/
def textWithin (h : Heap) (fuel : Nat) (v : Value) : Option Bytes :=
  match fuel with
  | 0 => none
  | fuel + 1 =>
    match v with
    | .null => some "null"
    | .void => some "void"
    | .number x => some (Number.text x)
    | .string s => some s
    | .boolean b => some (if b then "true" else "false")
    | .object id =>
      let o := h.object id
      match o.host with
      | some x => hostTextWithin h fuel x
      | none => do
        let names := (h.lineage o.cls).flatMap fun c => c.instanceFields.map (·.name.text)
        let parts ← names.mapM fun name => do
          return name ++ "=" ++ (← textWithin h fuel ((o.field? name).getD .null))
        return (h.cls o.cls).name ++ "\x7b" ++ (", " : Bytes).intercalate parts ++ "\x7d"
    | .classRef c _ => some ("class " ++ (h.cls c).name)
    | .lambda id => some (closureText (h.closure id))
    | .method id => some ("method " ++ (h.method id).name)
    | .host x => hostTextWithin h fuel x

/-- The text of a host thing, nested at most `fuel` deep. -/
def hostTextWithin (h : Heap) (fuel : Nat) (x : Host) : Option Bytes :=
  match fuel with
  | 0 => none
  | fuel + 1 =>
    match x with
    | .array id => do
      let parts ← (h.arrays.items id).mapM fun v => textWithin h fuel v
      return "[" ++ (", " : Bytes).intercalate parts ++ "]"
    | .iterator id => some (h.cursorText (h.cursor id))
    | .node id => some (h.node id).html

end

/-- More than a value can be nested without holding itself: every second step enters another object
or array. -/
def nesting (h : Heap) : Nat := 2 * (h.objects.size + h.arrays.refs.size) + 4

/-- The text of a value, if it has one. -/
def text? (h : Heap) (v : Value) : Option Bytes := h.textWithin h.nesting v

end ClassScript.Heap
