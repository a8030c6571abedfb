import ClassScript.Syntax.Tree

/-!
Types and expressions in one line, as messages show them. Operators are fully parenthesised, and
the block of a lambda is left out.
-/

namespace ClassScript

mutual

/-- A type as it is written. -/
def TypeExpr.text : TypeExpr → String
  | .simple _ name nullable => name ++ if nullable then "?" else ""
  | .generic _ name args nullable =>
    name ++ "<" ++ ", ".intercalate (TypeExpr.texts args) ++ ">" ++ if nullable then "?" else ""
  | .function _ params result nullable =>
    let s := "(" ++ ", ".intercalate (TypeExpr.texts params) ++ ") -> " ++ result.text
    if nullable then "(" ++ s ++ ")?" else s

/-- Types as they are written. -/
def TypeExpr.texts : List TypeExpr → List String
  | [] => []
  | t :: ts => t.text :: TypeExpr.texts ts

end

mutual

/-- An expression in one line. -/
def Expr.text : Expr → Text
  | .name id => id.text
  | .number _ digits => digits
  | .string q => Text.quoted q.value
  | .boolean m _ => m.head.word
  | .null _ => "null"
  | .self _ => "this"
  | .parent _ => "super"
  | .binary _ op left right => "(" ++ left.text ++ " " ++ op.spelling ++ " " ++ right.text ++ ")"
  | .unary _ op operand => "(" ++ op.spelling ++ operand.text ++ ")"
  | .assign _ target value => "(" ++ target.text ++ " = " ++ value.text ++ ")"
  | .member _ object property => object.text ++ "." ++ property.text
  | .index _ object i => object.text ++ "[" ++ i.text ++ "]"
  | .call _ callee args => callee.text ++ "(" ++ Expr.texts args ++ ")"
  | .create _ type args =>
    "new " ++ type.text ++ "(" ++ Expr.texts args ++ ")"
  | .array _ elements => "[" ++ Expr.texts elements ++ "]"
  | .lambda _ params _ body =>
    "(" ++ ", ".intercalate (params.map fun p => p.name.text) ++ ") -> " ++ body.text
  | .markup e => e.text

/-- Expressions in one line, with commas between them. -/
def Expr.texts : List Expr → Text
  | [] => ""
  | [e] => e.text
  | e :: es => e.text ++ ", " ++ Expr.texts es

/-- The body of a lambda in one line. -/
def LambdaBody.text : LambdaBody → Text
  | .block _ => "\x7b...\x7d"
  | .value e => e.text

/-- A markup element in one line. -/
def Element.text : Element → Text
  | ⟨_, tag, attributes, children, selfClosing⟩ =>
    let opening := "<" ++ tag ++ Attribute.allText attributes
    if selfClosing then opening ++ "/>"
    else opening ++ ">" ++ Child.allText children ++ "</" ++ tag ++ ">"

/-- Attributes, each with a space in front. -/
def Attribute.allText : List Attribute → Text
  | [] => ""
  | ⟨_, name, value⟩ :: rest => " " ++ name ++ "=" ++ value.text ++ Attribute.allText rest

/-- Children, one behind the other. -/
def Child.allText : List Child → Text
  | [] => ""
  | .element e :: rest => e.text ++ Child.allText rest
  | .text _ t :: rest => t ++ Child.allText rest
  | .hole _ e :: rest => "\x7b" ++ e.text ++ "\x7d" ++ Child.allText rest

end

end ClassScript
