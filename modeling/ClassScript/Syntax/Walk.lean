import ClassScript.Syntax.Tree

/-!
The expressions of a tree in the order in which they start to be written: an expression comes before
its parts.
-/

namespace ClassScript

mutual

/-- An expression and its parts. -/
def Expr.walk (e : Expr) : List Expr :=
  e ::
    match e with
    | .name _ | .number .. | .string _ | .boolean .. | .null _ | .self _ | .parent _ => []
    | .binary _ _ l r => l.walk ++ r.walk
    | .unary _ _ e => e.walk
    | .assign _ t v => t.walk ++ v.walk
    | .member _ o _ => o.walk
    | .index _ o i => o.walk ++ i.walk
    | .call _ c args => c.walk ++ Expr.walkAll args
    | .create _ _ args => Expr.walkAll args
    | .array _ items => Expr.walkAll items
    | .lambda _ params _ (.block b) => Param.walkAll params ++ b.walk
    | .lambda _ params _ (.value e) => Param.walkAll params ++ e.walk
    | .markup ⟨_, _, attributes, children, _⟩ =>
      Attribute.walkAll attributes ++ Child.walkAll children

/-- Expressions and their parts. -/
def Expr.walkAll : List Expr → List Expr
  | [] => []
  | e :: es => e.walk ++ Expr.walkAll es

/-- The expressions in default values. -/
def Param.walkAll : List Param → List Expr
  | [] => []
  | ⟨_, _, _, none⟩ :: ps => Param.walkAll ps
  | ⟨_, _, _, some e⟩ :: ps => e.walk ++ Param.walkAll ps

/-- The expressions in attributes. -/
def Attribute.walkAll : List Attribute → List Expr
  | [] => []
  | ⟨_, _, e⟩ :: as => e.walk ++ Attribute.walkAll as

/-- The expressions between tags. -/
def Child.walkAll : List Child → List Expr
  | [] => []
  | .element ⟨m, tag, attributes, children, closing⟩ :: cs =>
    .markup ⟨m, tag, attributes, children, closing⟩ ::
      (Attribute.walkAll attributes ++ Child.walkAll children) ++ Child.walkAll cs
  | .text .. :: cs => Child.walkAll cs
  | .hole _ e :: cs => e.walk ++ Child.walkAll cs

/-- The expressions in a block. -/
def Block.walk : Block → List Expr
  | ⟨_, statements⟩ => Stmt.walkAll statements

/-- The expressions in statements. -/
def Stmt.walkAll : List Stmt → List Expr
  | [] => []
  | s :: ss => s.walk ++ Stmt.walkAll ss

/-- The expressions in the arms of a selection. -/
def Arm.walkAll : List Arm → List Expr
  | [] => []
  | ⟨_, e, b⟩ :: as => e.walk ++ b.walk ++ Arm.walkAll as

/-- The expressions in a statement. -/
def Stmt.walk : Stmt → List Expr
  | .uses .. => []
  | .binds _ _ _ none => []
  | .binds _ _ _ (some e) => e.walk
  | .block b => b.walk
  | .branch _ c yes none => c.walk ++ yes.walk
  | .branch _ c yes (some no) => c.walk ++ yes.walk ++ no.walk
  | .select _ s arms none => s.walk ++ Arm.walkAll arms
  | .select _ s arms (some b) => s.walk ++ Arm.walkAll arms ++ b.walk
  | .each _ _ e b => e.walk ++ b.walk
  | .returns _ none => []
  | .returns _ (some e) => e.walk
  | .does _ e => e.walk
  | .declares ⟨_, _, _, _, _, fields, methods⟩ => Field.walkAll fields ++ Method.walkAll methods

/-- The expressions in fields. -/
def Field.walkAll : List Field → List Expr
  | [] => []
  | ⟨_, _, _, _, _, none⟩ :: fs => Field.walkAll fs
  | ⟨_, _, _, _, _, some e⟩ :: fs => e.walk ++ Field.walkAll fs

/-- The expressions in methods. -/
def Method.walkAll : List Method → List Expr
  | [] => []
  | ⟨_, _, _, _, _, _, params, _, none⟩ :: ms => Param.walkAll params ++ Method.walkAll ms
  | ⟨_, _, _, _, _, _, params, _, some b⟩ :: ms =>
    Param.walkAll params ++ b.walk ++ Method.walkAll ms

end

end ClassScript
