import ClassScript.Syntax.Tree
import ClassScript.Proofs.Bare

/-!
# Programs in another place

`moved f` puts every token and every node of a tree where `f` says, and leaves the rest of the tree as it is. Two trees
are the same up to where they stand in their files if one is the other moved.
-/

namespace ClassScript

variable (f : Span → Span)

/-- The token in another place. -/
def Token.moved (t : Token) : Token := { t with span := f t.span }

/-- The mark in another place. -/
def Mark.moved (m : Mark) : Mark := ⟨m.head.moved f, f m.span⟩

/-- The name in another place. -/
def Name.moved (n : Name) : Name := ⟨n.text, n.token.moved f⟩

/-- The quotation in another place. -/
def Quotation.moved (q : Quotation) : Quotation := ⟨q.token.moved f, q.value⟩

/-- The annotation in another place. -/
def Annotation.moved (a : Annotation) : Annotation := ⟨a.token.moved f, a.name⟩

mutual

/-- The type in another place. -/
def TypeExpr.moved : TypeExpr → TypeExpr
  | .simple m name nullable => .simple (m.moved f) name nullable
  | .generic m name args nullable => .generic (m.moved f) name (TypeExpr.movedAll args) nullable
  | .function m params result nullable => .function (m.moved f) (TypeExpr.movedAll params) result.moved nullable

/-- The types in another place. -/
def TypeExpr.movedAll : List TypeExpr → List TypeExpr
  | [] => []
  | t :: ts => t.moved :: TypeExpr.movedAll ts

end

/-- The heading in another place. -/
def Heading.moved : Heading → Heading
  | .ofClass isOpen parent interfaces =>
    .ofClass isOpen (parent.map (TypeExpr.moved f)) (TypeExpr.movedAll f interfaces)
  | .ofInterface parents => .ofInterface (TypeExpr.movedAll f parents)

mutual

/-- The expression in another place. -/
def Expr.moved : Expr → Expr
  | .name id => .name (id.moved f)
  | .number m digits => .number (m.moved f) digits
  | .string q => .string (q.moved f)
  | .boolean m value => .boolean (m.moved f) value
  | .null m => .null (m.moved f)
  | .self m => .self (m.moved f)
  | .parent m => .parent (m.moved f)
  | .binary m op left right => .binary (m.moved f) op left.moved right.moved
  | .unary m op operand => .unary (m.moved f) op operand.moved
  | .assign m target value => .assign (m.moved f) target.moved value.moved
  | .member m object property => .member (m.moved f) object.moved (property.moved f)
  | .index m object i => .index (m.moved f) object.moved i.moved
  | .call m callee args => .call (m.moved f) callee.moved (Expr.movedAll args)
  | .create m type args => .create (m.moved f) (type.moved f) (Expr.movedAll args)
  | .array m elements => .array (m.moved f) (Expr.movedAll elements)
  | .lambda m params result body =>
    .lambda (m.moved f) (Param.movedAll params) (result.map (TypeExpr.moved f)) body.moved
  | .markup e => .markup e.moved

/-- The expressions in another place. -/
def Expr.movedAll : List Expr → List Expr
  | [] => []
  | e :: es => e.moved :: Expr.movedAll es

/-- The expression, if there is one, in another place. -/
def Expr.movedOption : Option Expr → Option Expr
  | none => none
  | some e => some e.moved

/-- The parameter in another place. -/
def Param.moved : Param → Param
  | ⟨m, name, type, fallback⟩ =>
    ⟨m.moved f, name.moved f, type.map (TypeExpr.moved f), Expr.movedOption fallback⟩

/-- The parameters in another place. -/
def Param.movedAll : List Param → List Param
  | [] => []
  | p :: ps => p.moved :: Param.movedAll ps

/-- The body of a lambda in another place. -/
def LambdaBody.moved : LambdaBody → LambdaBody
  | .block b => .block b.moved
  | .value e => .value e.moved

/-- The element in another place. -/
def Element.moved : Element → Element
  | ⟨m, tag, attributes, children, selfClosing⟩ =>
    ⟨m.moved f, tag, Attribute.movedAll attributes, Child.movedAll children, selfClosing⟩

/-- The attributes in another place. -/
def Attribute.movedAll : List Attribute → List Attribute
  | [] => []
  | ⟨m, name, value⟩ :: rest => ⟨m.moved f, name, value.moved⟩ :: Attribute.movedAll rest

/-- The children in another place. -/
def Child.movedAll : List Child → List Child
  | [] => []
  | .element e :: rest => .element e.moved :: Child.movedAll rest
  | .text m t :: rest => .text (m.moved f) t :: Child.movedAll rest
  | .hole m e :: rest => .hole (m.moved f) e.moved :: Child.movedAll rest

/-- The block in another place. -/
def Block.moved : Block → Block
  | ⟨m, statements⟩ => ⟨m.moved f, Stmt.movedAll statements⟩

/-- The block, if there is one, in another place. -/
def Block.movedOption : Option Block → Option Block
  | none => none
  | some b => some b.moved

/-- The arm in another place. -/
def Arm.moved : Arm → Arm
  | ⟨m, value, body⟩ => ⟨m.moved f, value.moved, body.moved⟩

/-- The arms in another place. -/
def Arm.movedAll : List Arm → List Arm
  | [] => []
  | a :: rest => a.moved :: Arm.movedAll rest

/-- The statement in another place. -/
def Stmt.moved : Stmt → Stmt
  | .uses m names path => .uses (m.moved f) (names.map (Name.moved f)) (path.moved f)
  | .binds m name type value =>
    .binds (m.moved f) (name.moved f) (type.map (TypeExpr.moved f)) (Expr.movedOption value)
  | .block b => .block b.moved
  | .branch m condition yes no => .branch (m.moved f) condition.moved yes.moved (Stmt.movedOption no)
  | .select m subject arms fallback =>
    .select (m.moved f) subject.moved (Arm.movedAll arms) (Block.movedOption fallback)
  | .each m item iterable body => .each (m.moved f) (item.moved f) iterable.moved body.moved
  | .returns m value => .returns (m.moved f) (Expr.movedOption value)
  | .does m e => .does (m.moved f) e.moved
  | .declares d => .declares d.moved

/-- The statement, if there is one, in another place. -/
def Stmt.movedOption : Option Stmt → Option Stmt
  | none => none
  | some s => some s.moved

/-- The statements in another place. -/
def Stmt.movedAll : List Stmt → List Stmt
  | [] => []
  | s :: ss => s.moved :: Stmt.movedAll ss

/-- The field in another place. -/
def Field.moved : Field → Field
  | ⟨m, annotations, modifiers, name, type, init⟩ =>
    ⟨m.moved f, annotations.map ( Annotation.moved f), modifiers, name.moved f, type.map (TypeExpr.moved f),
      Expr.movedOption init⟩

/-- The fields in another place. -/
def Field.movedAll : List Field → List Field
  | [] => []
  | x :: xs => x.moved :: Field.movedAll xs

/-- The method in another place. -/
def Method.moved : Method → Method
  | ⟨m, annotations, modifiers, name, isConstructor, typeParams, params, result, body⟩ =>
    ⟨m.moved f, annotations.map ( Annotation.moved f), modifiers, name.moved f, isConstructor,
      typeParams.map (Name.moved f), Param.movedAll params, result.map (TypeExpr.moved f), Block.movedOption body⟩

/-- The methods in another place. -/
def Method.movedAll : List Method → List Method
  | [] => []
  | m :: ms => m.moved :: Method.movedAll ms

/-- The declaration in another place. -/
def Declaration.moved : Declaration → Declaration
  | ⟨m, annotations, heading, name, typeParams, fields, methods⟩ =>
    ⟨m.moved f, annotations.map ( Annotation.moved f), heading.moved f, name.moved f, typeParams.map (Name.moved f),
      Field.movedAll fields, Method.movedAll methods⟩

end

theorem TypeExpr.movedAll_eq (ts : List TypeExpr) : TypeExpr.movedAll f ts = ts.map (TypeExpr.moved f) :=
  eq_map rfl (fun _ _ => rfl) ts

theorem Expr.movedAll_eq (es : List Expr) : Expr.movedAll f es = es.map (Expr.moved f) :=
  eq_map rfl (fun _ _ => rfl) es

theorem Expr.movedOption_eq (e : Option Expr) : Expr.movedOption f e = e.map (Expr.moved f) := by cases e <;> rfl

theorem Param.movedAll_eq (ps : List Param) : Param.movedAll f ps = ps.map (Param.moved f) :=
  eq_map rfl (fun _ _ => rfl) ps

theorem Block.movedOption_eq (b : Option Block) : Block.movedOption f b = b.map (Block.moved f) := by cases b <;> rfl

theorem Arm.movedAll_eq (as : List Arm) : Arm.movedAll f as = as.map (Arm.moved f) :=
  eq_map rfl (fun _ _ => rfl) as

theorem Stmt.movedOption_eq (s : Option Stmt) : Stmt.movedOption f s = s.map (Stmt.moved f) := by cases s <;> rfl

theorem Stmt.movedAll_eq (ss : List Stmt) : Stmt.movedAll f ss = ss.map (Stmt.moved f) :=
  eq_map rfl (fun _ _ => rfl) ss

theorem Field.movedAll_eq (fs : List Field) : Field.movedAll f fs = fs.map (Field.moved f) :=
  eq_map rfl (fun _ _ => rfl) fs

theorem Method.movedAll_eq (ms : List Method) : Method.movedAll f ms = ms.map (Method.moved f) :=
  eq_map rfl (fun _ _ => rfl) ms

theorem TypeExpr.name?_moved (t : TypeExpr) : (t.moved f).name? = t.name? := by
  cases t <;> simp [TypeExpr.moved, TypeExpr.name?]

theorem TypeExpr.asNullable_moved (t : TypeExpr) (span : Span) :
    (t.asNullable span).moved f = (t.moved f).asNullable (f span) := by
  cases t <;> simp [TypeExpr.moved, TypeExpr.asNullable, Mark.moved]

/-- Moving an expression does not change what it is. -/
theorem Expr.isTarget_moved (e : Expr) : (e.moved f).isTarget = e.isTarget := by cases e <;> rfl

/-! ## Bare trees stand nowhere -/

theorem Mark.bare_moved (m : Mark) : (m.moved f).bare = m.bare := rfl
theorem Name.bare_moved (n : Name) : (n.moved f).bare = n.bare := rfl

theorem Name.map_bare_moved (ns : List Name) : (ns.map (Name.moved f)).map Name.bare = ns.map Name.bare := by
  rw [List.map_map]
  rfl

theorem Annotation.map_bare_moved (as : List Annotation) :
    (as.map ( Annotation.moved f)).map Annotation.bare = as.map Annotation.bare := by
  rw [List.map_map]
  rfl

mutual

theorem TypeExpr.bare_moved : ∀ t : TypeExpr, (t.moved f).bare = t.bare
  | .simple .. => rfl
  | .generic _ _ args _ => by rw [moved, bare, bare, TypeExpr.bareAll_moved args]
  | .function _ params result _ => by rw [moved, bare, bare, TypeExpr.bareAll_moved params, result.bare_moved]

theorem TypeExpr.bareAll_moved : ∀ ts : List TypeExpr, bareAll (movedAll f ts) = bareAll ts
  | [] => rfl
  | t :: ts => by rw [movedAll, bareAll, bareAll, t.bare_moved, TypeExpr.bareAll_moved ts]

end

theorem TypeExpr.map_bare_moved (t : Option TypeExpr) :
    (t.map (TypeExpr.moved f)).map TypeExpr.bare = t.map TypeExpr.bare := by
  cases t with
  | none => rfl
  | some t => exact congrArg some (t.bare_moved f)

theorem Heading.bare_moved (h : Heading) : (h.moved f).bare = h.bare := by
  cases h with
  | ofClass isOpen parent interfaces =>
    rw [moved, bare, bare, TypeExpr.map_bare_moved, TypeExpr.bareAll_moved]
  | ofInterface parents => rw [moved, bare, bare, TypeExpr.bareAll_moved]

mutual

theorem Expr.bare_moved : ∀ e : Expr, (e.moved f).bare = e.bare
  | .name _ | .number .. | .string _ | .boolean .. | .null _ | .self _ | .parent _ => rfl
  | .binary _ _ left right => by rw [Expr.moved, Expr.bare, Expr.bare, left.bare_moved, right.bare_moved]
  | .unary _ _ operand => by rw [Expr.moved, Expr.bare, Expr.bare, operand.bare_moved]
  | .assign _ target value => by rw [Expr.moved, Expr.bare, Expr.bare, target.bare_moved, value.bare_moved]
  | .member _ object _ => by rw [Expr.moved, Expr.bare, Expr.bare, object.bare_moved, Name.bare_moved]
  | .index _ object i => by rw [Expr.moved, Expr.bare, Expr.bare, object.bare_moved, i.bare_moved]
  | .call _ callee args => by rw [Expr.moved, Expr.bare, Expr.bare, callee.bare_moved, Expr.bareAll_moved args]
  | .create _ type args => by rw [Expr.moved, Expr.bare, Expr.bare, type.bare_moved, Expr.bareAll_moved args]
  | .array _ elements => by rw [Expr.moved, Expr.bare, Expr.bare, Expr.bareAll_moved elements]
  | .lambda _ params _ body => by
    rw [Expr.moved, Expr.bare, Expr.bare, Param.bareAll_moved params, TypeExpr.map_bare_moved, body.bare_moved]
  | .markup e => by rw [Expr.moved, Expr.bare, Expr.bare, e.bare_moved]

theorem Expr.bareAll_moved : ∀ es : List Expr, Expr.bareAll (Expr.movedAll f es) = Expr.bareAll es
  | [] => rfl
  | e :: es => by rw [Expr.movedAll, Expr.bareAll, Expr.bareAll, e.bare_moved, Expr.bareAll_moved es]

theorem Expr.bareOption_moved : ∀ e : Option Expr, Expr.bareOption (Expr.movedOption f e) = Expr.bareOption e
  | none => rfl
  | some e => by rw [Expr.movedOption, Expr.bareOption, Expr.bareOption, e.bare_moved]

theorem Param.bare_moved : ∀ p : Param, (p.moved f).bare = p.bare
  | ⟨_, _, _, fallback⟩ => by
    rw [Param.moved, Param.bare, Param.bare, Name.bare_moved, TypeExpr.map_bare_moved, Expr.bareOption_moved fallback]

theorem Param.bareAll_moved : ∀ ps : List Param, Param.bareAll (Param.movedAll f ps) = Param.bareAll ps
  | [] => rfl
  | p :: ps => by rw [Param.movedAll, Param.bareAll, Param.bareAll, p.bare_moved, Param.bareAll_moved ps]

theorem LambdaBody.bare_moved : ∀ b : LambdaBody, (b.moved f).bare = b.bare
  | .block b => by rw [LambdaBody.moved, LambdaBody.bare, LambdaBody.bare, b.bare_moved]
  | .value e => by rw [LambdaBody.moved, LambdaBody.bare, LambdaBody.bare, e.bare_moved]

theorem Element.bare_moved : ∀ e : Element, (e.moved f).bare = e.bare
  | ⟨_, _, attributes, children, _⟩ => by
    rw [Element.moved, Element.bare, Element.bare, Attribute.bareAll_moved attributes, Child.bareAll_moved children]

theorem Attribute.bareAll_moved : ∀ as : List Attribute, Attribute.bareAll (Attribute.movedAll f as) = Attribute.bareAll as
  | [] => rfl
  | ⟨_, _, value⟩ :: rest => by rw [Attribute.movedAll, Attribute.bareAll, Attribute.bareAll, value.bare_moved, Attribute.bareAll_moved rest]

theorem Child.bareAll_moved : ∀ cs : List Child, Child.bareAll (Child.movedAll f cs) = Child.bareAll cs
  | [] => rfl
  | .element e :: rest => by rw [Child.movedAll, Child.bareAll, Child.bareAll, e.bare_moved, Child.bareAll_moved rest]
  | .text .. :: rest => by rw [Child.movedAll, Child.bareAll, Child.bareAll, Child.bareAll_moved rest]
  | .hole _ e :: rest => by rw [Child.movedAll, Child.bareAll, Child.bareAll, e.bare_moved, Child.bareAll_moved rest]

theorem Block.bare_moved : ∀ b : Block, (b.moved f).bare = b.bare
  | ⟨_, statements⟩ => by rw [Block.moved, Block.bare, Block.bare, Stmt.bareAll_moved statements]

theorem Block.bareOption_moved : ∀ b : Option Block, Block.bareOption (Block.movedOption f b) = Block.bareOption b
  | none => rfl
  | some b => by rw [Block.movedOption, Block.bareOption, Block.bareOption, b.bare_moved]

theorem Arm.bareAll_moved : ∀ as : List Arm, Arm.bareAll (Arm.movedAll f as) = Arm.bareAll as
  | [] => rfl
  | ⟨_, value, body⟩ :: rest => by
    rw [Arm.movedAll, Arm.moved, Arm.bareAll, Arm.bareAll, value.bare_moved, body.bare_moved, Arm.bareAll_moved rest]

theorem Stmt.bare_moved : ∀ s : Stmt, (s.moved f).bare = s.bare
  | .uses _ names _ => by rw [Stmt.moved, Stmt.bare, Stmt.bare, Name.map_bare_moved]; rfl
  | .binds _ _ _ value => by
    rw [Stmt.moved, Stmt.bare, Stmt.bare, Name.bare_moved, TypeExpr.map_bare_moved, Expr.bareOption_moved value]
  | .block b => by rw [Stmt.moved, Stmt.bare, Stmt.bare, b.bare_moved]
  | .branch _ condition yes no => by
    rw [Stmt.moved, Stmt.bare, Stmt.bare, condition.bare_moved, yes.bare_moved, Stmt.bareOption_moved no]
  | .select _ subject arms fallback => by
    rw [Stmt.moved, Stmt.bare, Stmt.bare, subject.bare_moved, Arm.bareAll_moved arms, Block.bareOption_moved fallback]
  | .each _ _ iterable body => by
    rw [Stmt.moved, Stmt.bare, Stmt.bare, Name.bare_moved, iterable.bare_moved, body.bare_moved]
  | .returns _ value => by rw [Stmt.moved, Stmt.bare, Stmt.bare, Expr.bareOption_moved value]
  | .does _ e => by rw [Stmt.moved, Stmt.bare, Stmt.bare, e.bare_moved]
  | .declares d => by rw [Stmt.moved, Stmt.bare, Stmt.bare, d.bare_moved]

theorem Stmt.bareOption_moved : ∀ s : Option Stmt, Stmt.bareOption (Stmt.movedOption f s) = Stmt.bareOption s
  | none => rfl
  | some s => by rw [Stmt.movedOption, Stmt.bareOption, Stmt.bareOption, s.bare_moved]

theorem Stmt.bareAll_moved : ∀ ss : List Stmt, Stmt.bareAll (Stmt.movedAll f ss) = Stmt.bareAll ss
  | [] => rfl
  | s :: ss => by rw [Stmt.movedAll, Stmt.bareAll, Stmt.bareAll, s.bare_moved, Stmt.bareAll_moved ss]

theorem Field.bareAll_moved : ∀ xs : List Field, Field.bareAll (Field.movedAll f xs) = Field.bareAll xs
  | [] => rfl
  | ⟨_, _, _, _, _, init⟩ :: rest => by
    rw [Field.movedAll, Field.moved, Field.bareAll, Field.bareAll, Field.bare, Field.bare, Annotation.map_bare_moved, Name.bare_moved,
      TypeExpr.map_bare_moved, Expr.bareOption_moved init, Field.bareAll_moved rest]

theorem Method.bareAll_moved : ∀ ms : List Method, Method.bareAll (Method.movedAll f ms) = Method.bareAll ms
  | [] => rfl
  | ⟨_, _, _, _, _, _, params, _, body⟩ :: rest => by
    rw [Method.movedAll, Method.moved, Method.bareAll, Method.bareAll, Method.bare, Method.bare, Annotation.map_bare_moved, Name.bare_moved, Name.map_bare_moved,
      Param.bareAll_moved params, TypeExpr.map_bare_moved, Block.bareOption_moved body, Method.bareAll_moved rest]

theorem Declaration.bare_moved : ∀ d : Declaration, (d.moved f).bare = d.bare
  | ⟨_, _, heading, _, _, fields, methods⟩ => by
    rw [Declaration.moved, Declaration.bare, Declaration.bare, Annotation.map_bare_moved, heading.bare_moved, Name.bare_moved, Name.map_bare_moved,
      Field.bareAll_moved fields, Method.bareAll_moved methods]

end

end ClassScript
