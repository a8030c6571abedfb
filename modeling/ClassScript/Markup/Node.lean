import ClassScript.Number.Layout
import ClassScript.Number.Arithmetic
import ClassScript.Text.Glyph

/-!
Markup trees, and how they are written: as HTML, and as structured data for other programs.
-/

namespace ClassScript

/-- The text of a number in output: whole numbers of moderate size have no fraction and no
exponent. -/
def Number.text (x : Float) : String :=
  if Number.isWhole x && x.abs < 1e15 then toString (Number.wholePart x)
  else Number.write Number.Layout.plain x

namespace Markup

/-- The value of a property. -/
inductive Property where
  | null
  | boolean (b : Bool)
  | number (x : Float)
  | text (s : Bytes)
  /-- An object that is shown as a text and has no data of its own. -/
  | object (shown : Bytes)
  deriving Inhabited

mutual

/-- An element: a tag, properties and children. -/
inductive Node where
  | mk (tag : String) (props : List (String × Property)) (children : List Child)

/-- A child of an element. -/
inductive Child where
  | node (n : Node)
  | text (s : Bytes)

end

namespace Node

instance : Inhabited Node := ⟨.mk "" [] []⟩

/-- An element without properties and children. -/
def ofTag (tag : String) : Node := .mk tag [] []

def tag : Node → String
  | .mk tag _ _ => tag

def props : Node → List (String × Property)
  | .mk _ props _ => props

def children : Node → List Child
  | .mk _ _ children => children

/-- Sets a property; a later value replaces an earlier one. -/
def setProp (n : Node) (name : String) (v : Property) : Node :=
  .mk n.tag ((name, v) :: n.props.filter fun p => p.1 != name) n.children

/-- Adds a child at the end. -/
def addChild (n : Node) (c : Node) : Node := .mk n.tag n.props (n.children ++ [.node c])

/-- Adds text at the end; text next to text is joined to it by a space, and empty text is
dropped. -/
def addText (n : Node) (s : Bytes) : Node :=
  if s.isEmpty then n
  else
    match n.children.getLast? with
    | some (.text before) =>
      .mk n.tag n.props (n.children.dropLast ++ [.text (before ++ " " ++ s)])
    | _ => .mk n.tag n.props (n.children ++ [.text s])

/-- The properties in the order of their names. -/
def sortedProps (n : Node) : List (String × Property) := n.props.mergeSort fun a b => a.1 ≤ b.1

/-- The names of the properties, in order. -/
def propNames (n : Node) : List String := n.sortedProps.map (·.1)

/-- A short description of a node. -/
def summary (n : Node) : String := s!"<{n.tag}>({n.children.length} children)"

end Node

/-! ### HTML -/

/-- A byte as it is written between tags and in attributes: characters that have a meaning of their
own in HTML are escaped. -/
def escapedByte (b : UInt8) : Bytes :=
  match Char.ofUInt8 b with
  | '&' => "&amp;"
  | '<' => "&lt;"
  | '>' => "&gt;"
  | '"' => "&#34;"
  | '\'' => "&#39;"
  | _ => [b]

/-- A string as it is written between tags and in attributes. -/
def escaped (s : Bytes) : Bytes := s.flatMap escapedByte

/-- A property as an attribute: nothing and false are left out, true is the bare name. -/
def attributeText (name : String) : Property → Bytes
  | .null | .boolean false => ""
  | .boolean true => " " ++ name
  | .number x => " " ++ name ++ "=\"" ++ escaped (Number.text x) ++ "\""
  | .text s | .object s => " " ++ name ++ "=\"" ++ escaped s ++ "\""

mutual

/-- An element as HTML. -/
def Node.html : Node → Bytes
  | .mk tag props children =>
    "<" ++ tag ++
      ((Node.mk tag props []).sortedProps.flatMap fun (name, v) => attributeText name v) ++
      ">" ++ Child.htmlAll children ++ "</" ++ tag ++ ">"

/-- Children as HTML. -/
def Child.htmlAll : List Child → Bytes
  | [] => ""
  | .node n :: rest => n.html ++ Child.htmlAll rest
  | .text s :: rest => escaped s ++ Child.htmlAll rest

end

/-! ### Structured data -/

/-- The four hexadecimal digits of a code point. -/
def hexDigits (n : Nat) : String :=
  let digits := String.ofList (Nat.toDigits 16 n)
  "".pushn '0' (4 - digits.length) ++ digits

/-- A character in a quoted text of structured data. Characters with a meaning in HTML are written
by their code points, as are two line separators. -/
def dataChar (c : Char) : String :=
  match c with
  | '"' => "\\\""
  | '\\' => "\\\\"
  | '\n' => "\\n"
  | '\r' => "\\r"
  | '\t' => "\\t"
  | '\x08' => "\\b"
  | '\x0c' => "\\f"
  | c =>
    if c.toNat < 0x20 || c == '<' || c == '>' || c == '&' || c.toNat == 0x2028 || c.toNat == 0x2029
    then "\\u" ++ hexDigits c.toNat
    else c.toString

/-- A quoted text of structured data. -/
def dataText (s : String) : String := "\"" ++ String.join (s.toList.map dataChar) ++ "\""

/-- A string in structured data, which holds characters only. -/
def dataString (s : Bytes) : String := dataText s.shown

/-- Why a tree has no structured form. -/
inductive DataFault where
  | notFinite (x : Float)

/-- The wording of a fault. -/
def DataFault.message : DataFault → String
  | .notFinite x => "json: unsupported value: " ++ Number.write Number.Layout.plain x

/-- A property as structured data. -/
def Property.data : Property → Except DataFault String
  | .null => .ok "null"
  | .boolean b => .ok (if b then "true" else "false")
  | .number x =>
    if x.isNaN || x.isInf then .error (.notFinite x)
    else .ok (Number.write Number.Layout.data x)
  | .text s => .ok (dataString s)
  | .object _ => .ok "\x7b\x7d"

/-- Properties as structured data. -/
def propsData : List (String × Property) → Except DataFault (List String)
  | [] => .ok []
  | (name, v) :: rest => do
    let value ← v.data
    return (dataText name ++ ":" ++ value) :: (← propsData rest)

mutual

/-- An element as structured data. -/
def Node.data : Node → Except DataFault String
  | .mk tag props children => do
    let ps ← propsData (Node.mk tag props []).sortedProps
    let cs ← Child.dataAll children
    let kids := if cs.isEmpty then "null" else "[" ++ ",".intercalate cs ++ "]"
    return "\x7b\"tag\":" ++ dataText tag ++ ",\"props\":\x7b" ++ ",".intercalate ps ++
      "\x7d,\"children\":" ++ kids ++ "\x7d"

/-- Children as structured data. -/
def Child.dataAll : List Child → Except DataFault (List String)
  | [] => .ok []
  | .node n :: rest => do
    let text ← n.data
    return text :: (← Child.dataAll rest)
  | .text s :: rest => return dataString s :: (← Child.dataAll rest)

end

/-- One line of structured data for an element. -/
def Node.dataLine (n : Node) : Except DataFault String := return (← n.data) ++ "\n"

end Markup

end ClassScript
