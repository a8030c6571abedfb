import ClassScript.Syntax.Tree

/-!
The places of a program at which it can fail. A failure is placed at the span of a node: a statement,
an expression, the name of a member or the type of a construction. Code either runs in the file it
stands in or is carried along: the parameters and body of a lambda, the methods of an interface, and
default values that are looked at before a method of the host, run wherever they are called from.
-/

namespace ClassScript

/-- A node of the tree that failures are placed at. -/
inductive Node where
  | stmt (s : Stmt)
  | expr (e : Expr)
  | name (n : Name)
  | type (t : TypeExpr)

/-- The source text of a node. -/
def Node.span : Node → Span
  | stmt s => s.span
  | expr e => e.span
  | name n => n.span
  | type t => t.span

/-- A node, and whether the code around it is carried along to where it is called from. -/
structure Site where
  node : Node
  carried : Bool

namespace Site

/-- A node of code that runs in its own file. -/
def home (n : Node) : Site := ⟨n, false⟩

/-- The site in code that is carried along. -/
def carry (s : Site) : Site := { s with carried := true }

end Site

mutual

/-- The sites of an expression. -/
def Expr.sites (e : Expr) : List Site :=
  .home (.expr e) ::
    match e with
    | .name _ | .number .. | .string _ | .boolean .. | .null _ | .self _ | .parent _ => []
    | .binary _ _ l r => l.sites ++ r.sites
    | .unary _ _ e => e.sites
    | .assign _ t v => t.sites ++ v.sites
    | .member _ o property => .home (.name property) :: o.sites
    | .index _ o i => o.sites ++ i.sites
    | .call _ c args => c.sites ++ Expr.sitesAll args
    | .create _ type args => .home (.type type) :: Expr.sitesAll args
    | .array _ items => Expr.sitesAll items
    | .lambda _ params _ body => (Param.sitesAll params ++ body.sites).map Site.carry
    | .markup ⟨_, _, attributes, children, _⟩ => Attribute.sitesAll attributes ++ Child.sitesAll children

/-- The sites of expressions. -/
def Expr.sitesAll : List Expr → List Site
  | [] => []
  | e :: es => e.sites ++ Expr.sitesAll es

/-- The sites in the body of a lambda. -/
def LambdaBody.sites : LambdaBody → List Site
  | .block b => b.sites
  | .value e => e.sites

/-- The sites in default values. -/
def Param.sitesAll : List Param → List Site
  | [] => []
  | ⟨_, _, _, none⟩ :: ps => Param.sitesAll ps
  | ⟨_, _, _, some e⟩ :: ps => e.sites ++ Param.sitesAll ps

/-- The sites in attributes. -/
def Attribute.sitesAll : List Attribute → List Site
  | [] => []
  | ⟨_, _, e⟩ :: as => e.sites ++ Attribute.sitesAll as

/-- The sites between tags. -/
def Child.sitesAll : List Child → List Site
  | [] => []
  | .element ⟨m, tag, attributes, children, closing⟩ :: cs =>
    .home (.expr (.markup ⟨m, tag, attributes, children, closing⟩)) ::
      (Attribute.sitesAll attributes ++ Child.sitesAll children) ++ Child.sitesAll cs
  | .text .. :: cs => Child.sitesAll cs
  | .hole _ e :: cs => e.sites ++ Child.sitesAll cs

/-- The sites of a block. -/
def Block.sites : Block → List Site
  | ⟨_, statements⟩ => Stmt.sitesAll statements

/-- The sites of statements. -/
def Stmt.sitesAll : List Stmt → List Site
  | [] => []
  | s :: ss => s.sites ++ Stmt.sitesAll ss

/-- The sites in the arms of a selection. -/
def Arm.sitesAll : List Arm → List Site
  | [] => []
  | ⟨_, e, b⟩ :: as => e.sites ++ b.sites ++ Arm.sitesAll as

/-- The sites of a statement. -/
def Stmt.sites (s : Stmt) : List Site :=
  .home (.stmt s) ::
    match s with
    | .uses .. | .binds _ _ _ none | .returns _ none => []
    | .binds _ _ _ (some e) | .returns _ (some e) | .does _ e => e.sites
    | .block b => b.sites
    | .branch _ c yes none => c.sites ++ yes.sites
    | .branch _ c yes (some no) => c.sites ++ yes.sites ++ no.sites
    | .select _ e arms none => e.sites ++ Arm.sitesAll arms
    | .select _ e arms (some b) => e.sites ++ Arm.sitesAll arms ++ b.sites
    | .each _ _ e b => e.sites ++ b.sites
    | .declares ⟨_, _, .ofClass .., _, _, fields, methods⟩ =>
      Field.sitesAll fields ++ Method.sitesAll methods
    | .declares ⟨_, _, .ofInterface .., _, _, fields, methods⟩ =>
      (Field.sitesAll fields ++ Method.sitesAll methods).map Site.carry

/-- The sites in the initial values of fields. -/
def Field.sitesAll : List Field → List Site
  | [] => []
  | ⟨_, _, _, _, _, none⟩ :: fs => Field.sitesAll fs
  | ⟨_, _, _, _, _, some e⟩ :: fs => e.sites ++ Field.sitesAll fs

/-- The sites of methods. The default values of a method without a body are looked at before the host
is called, and so are those of a static method if the host has another of that name. -/
def Method.sitesAll : List Method → List Site
  | [] => []
  | ⟨_, _, _, _, _, _, params, _, none⟩ :: ms =>
    (Param.sitesAll params).map Site.carry ++ Method.sitesAll ms
  | ⟨_, _, modifiers, _, _, _, params, _, some b⟩ :: ms =>
    (if modifiers.isStatic then (Param.sitesAll params).map Site.carry else Param.sitesAll params) ++
      b.sites ++ Method.sitesAll ms

end

attribute [grind =] Expr.sites Expr.sitesAll LambdaBody.sites Param.sitesAll Attribute.sitesAll Child.sitesAll Block.sites
  Stmt.sites Stmt.sitesAll Arm.sitesAll Field.sitesAll Method.sitesAll

end ClassScript
