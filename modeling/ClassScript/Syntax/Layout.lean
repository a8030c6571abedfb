import ClassScript.Syntax.Text

/-!
The canonical layout of programs. Blocks are indented by four spaces a level, a blank line stands
around declarations, behind the imports and in front of methods with a body, fields stand before
methods, and parentheses appear only where an operand would otherwise read differently.
-/

namespace ClassScript

namespace Layout

/-- How tightly an operator holds its operands together. -/
def strength : BinaryOp → Nat
  | .or => 2
  | .and => 3
  | .equal | .notEqual => 4
  | .less | .greater | .lessEq | .greaterEq => 5
  | .add | .sub => 6
  | .mul | .div | .rem => 7

/-- How tightly an expression holds together when it is an operand. -/
def exprStrength : Expr → Nat
  | .binary _ op _ _ => strength op
  | .assign .. => 1
  | .unary .. => 8
  | .lambda .. | .markup _ => 0
  | _ => 9

/-- Indentation of that many levels. -/
def indentation (level : Nat) : String := "".pushn ' ' (4 * level)

/-- Text between double quotes, as it is. -/
def quoted (t : Text) : Text := "\"" ++ t ++ "\""

/-- Annotations, each with a space behind it. -/
def annotations (as : List Annotation) : String :=
  String.join (as.map fun a => "@" ++ a.name ++ " ")

/-- Modifiers with a space behind them, if there are any. -/
def modifiers (m : Modifiers) : String := if m.words.isEmpty then "" else m.text ++ " "

/-- Type parameters between angle brackets, if there are any. -/
def typeParams (names : List Name) : String :=
  if names.isEmpty then "" else "<" ++ ", ".intercalate (names.map Name.text) ++ ">"

/-- A type behind a colon, if there is one. -/
def typeSuffix : Option TypeExpr → String
  | none => ""
  | some t => ": " ++ t.text

/-- Types with commas between them. -/
def types (ts : List TypeExpr) : String := ", ".intercalate (TypeExpr.texts ts)

/-- A declaration up to its members. -/
def heading (d : Declaration) : String :=
  let name := d.name.text ++ typeParams d.typeParams
  match d.heading with
  | .ofClass isOpen parent interfaces =>
    (if isOpen then "open " else "") ++ "class " ++ name ++
      (match parent with
        | none => ""
        | some t => " extends " ++ t.text) ++
      if interfaces.isEmpty then "" else " implements " ++ types interfaces
  | .ofInterface parents =>
    "interface " ++ name ++ if parents.isEmpty then "" else " extends " ++ types parents

/-- A method up to its parameters. Constructors are public without saying so. -/
def methodHead (m : Method) : String :=
  let mods := if m.isConstructor then { m.modifiers with isPublic := false } else m.modifiers
  annotations m.annotations ++ modifiers mods ++ m.name.text ++ typeParams m.typeParams

/-- An opening brace that ends a line. -/
def openBrace : String := "\x7b\n"

/-- A closing brace on a line of that level. -/
def closeBrace (level : Nat) : String := indentation level ++ "\x7d"

/-- Braces around nothing. -/
def emptyBraces : String := "\x7b \x7d"

mutual

/-- An expression where operands weaker than `context` need parentheses. -/
def expr (level context : Nat) (e : Expr) : Text :=
  let strength := exprStrength e
  let body : Text :=
    match e with
    | .name id => id.text
    | .number _ digits => digits
    | .string q => quoted q.value
    | .boolean m _ => m.head.word
    | .null _ => "null"
    | .self _ => "this"
    | .parent _ => "super"
    | .binary _ op left right =>
      expr level strength left ++ " " ++ op.spelling ++ " " ++ expr level (strength + 1) right
    | .assign _ target value => expr level (strength + 1) target ++ " = " ++ expr level strength value
    | .unary _ op operand => op.spelling ++ expr level 8 operand
    | .member _ object property => expr level 9 object ++ "." ++ property.text
    | .index _ object i => expr level 9 object ++ "[" ++ expr level 0 i ++ "]"
    | .call _ callee args => expr level 9 callee ++ "(" ++ exprs level args ++ ")"
    | .create _ type args => "new " ++ type.text ++ "(" ++ exprs level args ++ ")"
    | .array _ elements => "[" ++ exprs level elements ++ "]"
    | .lambda _ ps result body =>
      "(" ++ params level ps ++ ")" ++ typeSuffix result ++ " -> " ++ lambdaBody level body
    | .markup e => "vdom " ++ element level e
  if strength < context then "(" ++ body ++ ")" else body

/-- Expressions with commas between them. -/
def exprs (level : Nat) : List Expr → Text
  | [] => ""
  | [e] => expr level 0 e
  | e :: es => expr level 0 e ++ ", " ++ exprs level es

/-- The body of a lambda. -/
def lambdaBody (level : Nat) : LambdaBody → Text
  | .block b => block level b
  | .value e => expr level 0 e

/-- A value behind an equals sign, if there is one. -/
def initialiser (level : Nat) : Option Expr → Text
  | none => ""
  | some e => " = " ++ expr level 0 e

/-- A parameter. -/
def param (level : Nat) : Param → Text
  | ⟨_, name, type, fallback⟩ => name.text ++ typeSuffix type ++ initialiser level fallback

/-- Parameters with commas between them. -/
def params (level : Nat) : List Param → Text
  | [] => ""
  | [p] => param level p
  | p :: ps => param level p ++ ", " ++ params level ps

/-- An element without its introducing word. -/
def element (level : Nat) : Element → Text
  | ⟨_, tag, attributes, kids, selfClosing⟩ =>
    let opening := "<" ++ tag ++ attrs level attributes
    if selfClosing then opening ++ "/>"
    else opening ++ ">" ++ children level kids ++ "</" ++ tag ++ ">"

/-- Attributes, each with a space in front. -/
def attrs (level : Nat) : List Attribute → Text
  | [] => ""
  | ⟨_, name, value⟩ :: rest =>
    let shown : Text :=
      match value with
      | .string q => quoted q.value
      | e => "\x7b" ++ expr level 0 e ++ "\x7d"
    " " ++ name ++ "=" ++ shown ++ attrs level rest

/-- Children, one behind the other. -/
def children (level : Nat) : List Child → Text
  | [] => ""
  | .element e :: rest => element level e ++ children level rest
  | .text _ t :: rest => t ++ children level rest
  | .hole _ e :: rest => "\x7b" ++ expr level 0 e ++ "\x7d" ++ children level rest

/-- A block that starts in the current line. -/
def block (level : Nat) : Block → Text
  | ⟨_, statements⟩ =>
    if statements.isEmpty then emptyBraces
    else openBrace ++ stmts (level + 1) statements ++ closeBrace level

/-- Statements, each on lines of its own. -/
def stmts (level : Nat) : List Stmt → Text
  | [] => ""
  | s :: rest => indentation level ++ stmt level s ++ "\n" ++ stmts level rest

/-- The cases of a selection, each on lines of its own. -/
def arms (level : Nat) : List Arm → Text
  | [] => ""
  | ⟨_, value, body⟩ :: rest =>
    indentation level ++ expr level 0 value ++ " => " ++ block level body ++ "\n" ++ arms level rest

/-- The default case of a selection, if there is one. -/
def fallbackArm (level : Nat) : Option Block → Text
  | none => ""
  | some b => indentation level ++ "default => " ++ block level b ++ "\n"

/-- The other side of a branch, if there is one. -/
def otherwise (level : Nat) : Option Stmt → Text
  | none => ""
  | some s => " else " ++ stmt level s

/-- A statement that starts in the current line. -/
def stmt (level : Nat) : Stmt → Text
  | .uses _ names path =>
    let listed :=
      if names.isEmpty then ""
      else "\x7b " ++ ", ".intercalate (names.map Name.text) ++ " \x7d from "
    "import " ++ listed ++ quoted path.value ++ ";"
  | .binds _ name type value => "let " ++ name.text ++ typeSuffix type ++ initialiser level value ++ ";"
  | .block b => block level b
  | .branch _ condition yes no =>
    "if (" ++ expr level 0 condition ++ ") " ++ block level yes ++ otherwise level no
  | .select _ subject cases fallback =>
    "match (" ++ expr level 0 subject ++ ") " ++ openBrace ++ arms (level + 1) cases ++
      fallbackArm (level + 1) fallback ++ closeBrace level
  | .each _ item iterable body =>
    "foreach (" ++ item.text ++ " in " ++ expr level 0 iterable ++ ") " ++ block level body
  | .returns _ none => "return;"
  | .returns _ (some e) => "return " ++ expr level 0 e ++ ";"
  | .does _ e => expr level 0 e ++ ";"
  | .declares d => declaration level d

/-- Fields, each on a line of its own. -/
def fields (level : Nat) : List Field → Text
  | [] => ""
  | ⟨_, annotated, mods, name, type, init⟩ :: rest =>
    indentation level ++ annotations annotated ++ modifiers mods ++ name.text ++ typeSuffix type ++
      initialiser level init ++ ";\n" ++ fields level rest

/-- The body of a method, or the semicolon in its place. -/
def methodBody (level : Nat) : Option Block → Text
  | none => ";"
  | some b => " " ++ block level b

/-- A method. -/
def method (level : Nat) : Method → Text
  | ⟨mark, annotated, mods, name, isConstructor, tps, ps, result, body⟩ =>
    methodHead ⟨mark, annotated, mods, name, isConstructor, tps, ps, result, body⟩ ++
      "(" ++ params level ps ++ ")" ++ typeSuffix result ++ methodBody level body

/-- Methods, with a blank line in front of each that has a body and is not the first member. -/
def methods (level : Nat) (first : Bool) : List Method → Text
  | [] => ""
  | m :: rest =>
    (if m.body.isSome && !first then "\n" else "") ++ indentation level ++ method level m ++ "\n" ++
      methods level false rest

/-- A class or interface. -/
def declaration (level : Nat) : Declaration → Text
  | ⟨mark, annotated, head, name, tps, fs, ms⟩ =>
    let opening := annotations annotated ++ heading ⟨mark, annotated, head, name, tps, fs, ms⟩ ++ " "
    if fs.isEmpty && ms.isEmpty then opening ++ emptyBraces
    else
      opening ++ openBrace ++ fields (level + 1) fs ++ methods (level + 1) fs.isEmpty ms ++
        closeBrace level

end

/-- Whether a blank line stands between two statements of a program. -/
def separates (before after : Stmt) : Bool :=
  after.isDeclaration || before.isDeclaration || (before.isImport && !after.isImport)

/-- The statements of a program that follow `before`. -/
def toplevel (before : Option Stmt) : List Stmt → Text
  | [] => ""
  | s :: rest =>
    let gap : Text :=
      match before with
      | some b => if separates b s then "\n" else ""
      | none => ""
    gap ++ stmt 0 s ++ "\n" ++ toplevel (some s) rest

end Layout

/-- A program in canonical layout. -/
def Program.layout (p : Program) : Text := Layout.toplevel none p.statements

end ClassScript
