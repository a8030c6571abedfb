import ClassScript.Syntax.Tree
import ClassScript.Proofs.Scanning

/-!
The tree of spans of a syntax tree, and what makes such a tree sound over a list of tokens: every span starts where a
token starts, with its line and column, no span is empty, the parts of a node lie inside it, and no two parts of a node
overlap. Nodes that are read one after the other are laid out side by side (`Laid`).
-/

namespace ClassScript

namespace Span

/-- A span lies inside another. -/
def Within (s around : Span) : Prop := around.start ≤ s.start ∧ s.stop ≤ around.stop

/-- Two spans share no text. -/
def Apart (s t : Span) : Prop := s.stop ≤ t.start ∨ t.stop ≤ s.start

theorem Apart.symm {s t : Span} (apart : s.Apart t) : t.Apart s := Or.symm apart

end Span

/-- The spans of a node and of its parts. -/
inductive Outline where
  | node (span : Span) (parts : List Outline)

namespace Outline

/-- The span of the node itself. -/
def span : Outline → Span
  | node s _ => s

/-- A token as a node. -/
def leaf (t : Token) : Outline := node t.span []

/-- A tree of spans over a text that is `length` bytes long and has the tokens. -/
inductive Sound (tokens : List Token) (length : Nat) : Outline → Prop
  | node {span : Span} {parts : List Outline}
    (placed : ∃ t ∈ tokens, t.span.start = span.start ∧ t.span.line = span.line ∧ t.span.column = span.column)
    (filled : span.start < span.stop) (ends : span.stop ≤ length) (inside : ∀ p ∈ parts, p.span.Within span)
    (apart : parts.Pairwise fun p q => p.span.Apart q.span) (sound : ∀ p ∈ parts, Sound tokens length p) :
    Sound tokens length (node span parts)

/-- Sound trees of spans side by side from one offset to another. -/
structure Laid (tokens : List Token) (length lo hi : Nat) (nodes : List Outline) : Prop where
  inside : ∀ n ∈ nodes, lo ≤ n.span.start ∧ n.span.stop ≤ hi
  apart : nodes.Pairwise fun n m => n.span.Apart m.span
  sound : ∀ n ∈ nodes, n.Sound tokens length

variable {tokens : List Token} {length lo hi : Nat} {nodes more : List Outline}

namespace Laid

theorem nil : Laid tokens length lo hi [] := ⟨nofun, .nil, nofun⟩

theorem single {n : Outline} (sound : n.Sound tokens length) (start : lo ≤ n.span.start) (stop : n.span.stop ≤ hi) :
    Laid tokens length lo hi [n] :=
  ⟨by simpa using ⟨start, stop⟩, List.pairwise_singleton _ _, by simpa using sound⟩

theorem mono {lo' hi' : Nat} (laid : Laid tokens length lo hi nodes) (start : lo' ≤ lo) (stop : hi ≤ hi') :
    Laid tokens length lo' hi' nodes :=
  ⟨fun n found => ⟨Nat.le_trans start (laid.inside n found).1, Nat.le_trans (laid.inside n found).2 stop⟩,
    laid.apart, laid.sound⟩

theorem sublist (laid : Laid tokens length lo hi nodes) (fewer : more.Sublist nodes) :
    Laid tokens length lo hi more :=
  ⟨fun n found => laid.inside n (fewer.subset found), laid.apart.sublist fewer,
    fun n found => laid.sound n (fewer.subset found)⟩

theorem perm (laid : Laid tokens length lo hi nodes) (same : nodes.Perm more) : Laid tokens length lo hi more :=
  ⟨fun n found => laid.inside n (same.mem_iff.2 found), same.pairwise laid.apart fun apart => apart.symm,
    fun n found => laid.sound n (same.mem_iff.2 found)⟩

/-- What is read later lies behind. -/
theorem append {mid mid' : Nat} (first : Laid tokens length lo mid nodes) (second : Laid tokens length mid' hi more)
    (between : mid ≤ mid') (start : lo ≤ mid') (stop : mid ≤ hi) : Laid tokens length lo hi (nodes ++ more) where
  inside n found := by
    rcases List.mem_append.1 found with early | late
    · exact ⟨(first.inside n early).1, Nat.le_trans (first.inside n early).2 stop⟩
    · exact ⟨Nat.le_trans start (second.inside n late).1, (second.inside n late).2⟩
  apart := List.pairwise_append.2 ⟨first.apart, second.apart, fun n early m late =>
    .inl (Nat.le_trans (first.inside n early).2 (Nat.le_trans between (second.inside m late).1))⟩
  sound n found := (List.mem_append.1 found).elim (first.sound n) (second.sound n)

/-- The parts of a node lie where the node does. -/
theorem parts {s : Span} (laid : Laid tokens length lo hi [node s nodes]) : Laid tokens length lo hi nodes := by
  obtain ⟨start, stop⟩ := laid.inside _ List.mem_cons_self
  cases laid.sound _ List.mem_cons_self with
  | node _ _ _ inside apart sound =>
    exact ⟨fun n found => ⟨Nat.le_trans start (inside n found).1, Nat.le_trans (inside n found).2 stop⟩, apart, sound⟩

end Laid

end Outline

/-! ## The outline of a syntax tree -/

open Outline (leaf)

/-- The outline of a name. -/
def Name.outline (n : Name) : Outline := leaf n.token

/-- The outline of a quoted text. -/
def Quotation.outline (q : Quotation) : Outline := leaf q.token

/-- The outline of an annotation. -/
def Annotation.outline (a : Annotation) : Outline := leaf a.token

mutual

/-- The outline of a type. -/
def TypeExpr.outline : TypeExpr → Outline
  | .simple m _ _ => .node m.span []
  | .generic m _ args _ => .node m.span (TypeExpr.outlines args)
  | .function m params result _ => .node m.span (TypeExpr.outlines params ++ [result.outline])

/-- The outlines of types. -/
def TypeExpr.outlines : List TypeExpr → List Outline
  | [] => []
  | t :: ts => t.outline :: TypeExpr.outlines ts

end

/-- The outline of a type, if one is written. -/
def TypeExpr.outlineOf? : Option TypeExpr → List Outline
  | none => []
  | some t => [t.outline]

/-- The outlines of the types in a heading. -/
def Heading.outlines : Heading → List Outline
  | .ofClass _ parent interfaces => TypeExpr.outlineOf? parent ++ TypeExpr.outlines interfaces
  | .ofInterface parents => TypeExpr.outlines parents

mutual

/-- The outline of an expression. -/
def Expr.outline : Expr → Outline
  | .name id => id.outline
  | .string q => q.outline
  | .number m _ | .boolean m _ | .null m | .self m | .parent m => .node m.span []
  | .binary m _ left right => .node m.span [left.outline, right.outline]
  | .unary m _ operand => .node m.span [operand.outline]
  | .assign m target value => .node m.span [target.outline, value.outline]
  | .member m object property => .node m.span [object.outline, property.outline]
  | .index m object i => .node m.span [object.outline, i.outline]
  | .call m callee args => .node m.span (callee.outline :: Expr.outlines args)
  | .create m type args => .node m.span (type.outline :: Expr.outlines args)
  | .array m elements => .node m.span (Expr.outlines elements)
  | .lambda m params result body =>
    .node m.span (Param.outlines params ++ TypeExpr.outlineOf? result ++ [body.outline])
  | .markup e => e.outline

/-- The outlines of expressions. -/
def Expr.outlines : List Expr → List Outline
  | [] => []
  | e :: es => e.outline :: Expr.outlines es

/-- The outline of an expression, if there is one. -/
def Expr.outlineOf? : Option Expr → List Outline
  | none => []
  | some e => [e.outline]

/-- The outline of a parameter. -/
def Param.outline : Param → Outline
  | ⟨m, name, type, fallback⟩ =>
    .node m.span (name.outline :: (TypeExpr.outlineOf? type ++ Expr.outlineOf? fallback))

/-- The outlines of parameters. -/
def Param.outlines : List Param → List Outline
  | [] => []
  | p :: ps => p.outline :: Param.outlines ps

/-- The outline of the body of a lambda. -/
def LambdaBody.outline : LambdaBody → Outline
  | .block b => b.outline
  | .value e => e.outline

/-- The outline of a block. -/
def Block.outline : Block → Outline
  | ⟨m, statements⟩ => .node m.span (Stmt.outlines statements)

/-- The outline of a block, if there is one. -/
def Block.outlineOf? : Option Block → List Outline
  | none => []
  | some b => [b.outline]

/-- The outline of an arm of a selection. -/
def Arm.outline : Arm → Outline
  | ⟨m, value, body⟩ => .node m.span [value.outline, body.outline]

/-- The outlines of the arms of a selection. -/
def Arm.outlines : List Arm → List Outline
  | [] => []
  | a :: rest => a.outline :: Arm.outlines rest

/-- The outline of an element. -/
def Element.outline : Element → Outline
  | ⟨m, _, attributes, children, _⟩ => .node m.span (Attribute.outlines attributes ++ Child.outlines children)

/-- The outline of an attribute. -/
def Attribute.outline : Attribute → Outline
  | ⟨m, _, value⟩ => .node m.span [value.outline]

/-- The outlines of attributes. -/
def Attribute.outlines : List Attribute → List Outline
  | [] => []
  | a :: rest => a.outline :: Attribute.outlines rest

/-- The outline of what stands between tags. -/
def Child.outline : Child → Outline
  | .element e => e.outline
  | .text m _ => .node m.span []
  | .hole m e => .node m.span [e.outline]

/-- The outlines of what stands between tags. -/
def Child.outlines : List Child → List Outline
  | [] => []
  | c :: rest => c.outline :: Child.outlines rest

/-- The outline of a statement. -/
def Stmt.outline : Stmt → Outline
  | .uses m names path => .node m.span (names.map Name.outline ++ [path.outline])
  | .binds m name type value =>
    .node m.span (name.outline :: (TypeExpr.outlineOf? type ++ Expr.outlineOf? value))
  | .block b => b.outline
  | .branch m condition yes no => .node m.span (condition.outline :: yes.outline :: Stmt.outlineOf? no)
  | .select m subject arms fallback =>
    .node m.span (subject.outline :: (Arm.outlines arms ++ Block.outlineOf? fallback))
  | .each m item iterable body => .node m.span [item.outline, iterable.outline, body.outline]
  | .returns m value => .node m.span (Expr.outlineOf? value)
  | .does m e => .node m.span [e.outline]
  | .declares d => d.outline

/-- The outlines of statements. -/
def Stmt.outlines : List Stmt → List Outline
  | [] => []
  | s :: ss => s.outline :: Stmt.outlines ss

/-- The outline of a statement, if there is one. -/
def Stmt.outlineOf? : Option Stmt → List Outline
  | none => []
  | some s => [s.outline]

/-- The outline of a field. -/
def Field.outline : Field → Outline
  | ⟨m, annotations, _, name, type, init⟩ =>
    .node m.span (annotations.map Annotation.outline ++
      name.outline :: (TypeExpr.outlineOf? type ++ Expr.outlineOf? init))

/-- The outlines of fields. -/
def Field.outlines : List Field → List Outline
  | [] => []
  | f :: fs => f.outline :: Field.outlines fs

/-- The outline of a method. -/
def Method.outline : Method → Outline
  | ⟨m, annotations, _, name, _, typeParams, params, result, body⟩ =>
    .node m.span (annotations.map Annotation.outline ++ name.outline :: (typeParams.map Name.outline ++
      Param.outlines params ++ TypeExpr.outlineOf? result ++ Block.outlineOf? body))

/-- The outlines of methods. -/
def Method.outlines : List Method → List Outline
  | [] => []
  | m :: ms => m.outline :: Method.outlines ms

/-- The outline of a class or interface. -/
def Declaration.outline : Declaration → Outline
  | ⟨m, annotations, heading, name, typeParams, fields, methods⟩ =>
    .node m.span (annotations.map Annotation.outline ++ name.outline :: (typeParams.map Name.outline ++
      heading.outlines ++ (Field.outlines fields ++ Method.outlines methods)))

end

@[simp] theorem TypeExpr.outlines_eq (ts : List TypeExpr) : TypeExpr.outlines ts = ts.map TypeExpr.outline := by
  induction ts with
  | nil => rfl
  | cons t ts ih => rw [TypeExpr.outlines, ih, List.map_cons]

@[simp] theorem Expr.outlines_eq (es : List Expr) : Expr.outlines es = es.map Expr.outline := by
  induction es with
  | nil => rfl
  | cons e es ih => rw [Expr.outlines, ih, List.map_cons]

@[simp] theorem Param.outlines_eq (ps : List Param) : Param.outlines ps = ps.map Param.outline := by
  induction ps with
  | nil => rfl
  | cons p ps ih => rw [Param.outlines, ih, List.map_cons]

@[simp] theorem Child.outlines_eq (cs : List Child) : Child.outlines cs = cs.map Child.outline := by
  induction cs with
  | nil => rfl
  | cons c cs ih => rw [Child.outlines, ih, List.map_cons]

@[simp] theorem Stmt.outlines_eq (ss : List Stmt) : Stmt.outlines ss = ss.map Stmt.outline := by
  induction ss with
  | nil => rfl
  | cons s ss ih => rw [Stmt.outlines, ih, List.map_cons]

@[simp] theorem Field.outlines_eq (fs : List Field) : Field.outlines fs = fs.map Field.outline := by
  induction fs with
  | nil => rfl
  | cons f fs ih => rw [Field.outlines, ih, List.map_cons]

@[simp] theorem Method.outlines_eq (ms : List Method) : Method.outlines ms = ms.map Method.outline := by
  induction ms with
  | nil => rfl
  | cons m ms ih => rw [Method.outlines, ih, List.map_cons]

@[simp] theorem Arm.outlines_eq (as : List Arm) : Arm.outlines as = as.map Arm.outline := by
  induction as with
  | nil => rfl
  | cons a as ih => rw [Arm.outlines, ih, List.map_cons]

@[simp] theorem Attribute.outlines_eq (as : List Attribute) : Attribute.outlines as = as.map Attribute.outline := by
  induction as with
  | nil => rfl
  | cons a as ih => rw [Attribute.outlines, ih, List.map_cons]

/-- A question mark changes the span of a type and nothing of its parts. -/
theorem TypeExpr.outline_asNullable (t : TypeExpr) :
    ∃ parts, t.outline = .node t.span parts ∧ ∀ span, (t.asNullable span).outline = .node span parts := by
  cases t <;> exact ⟨_, rfl, fun _ => rfl⟩

/-- A mark of its own changes the span of an element and nothing of its parts. -/
theorem Element.outline_remark (e : Element) :
    ∃ parts, e.outline = .node e.mark.span parts ∧
      ∀ m, (Expr.markup { e with mark := m }).outline = .node m.span parts := by
  obtain ⟨mark, tag, attributes, children, selfClosing⟩ := e
  exact ⟨_, by rw [outline], fun m => by rw [Expr.outline, outline]⟩

theorem Stmt.outline_declares (d : Declaration) : (Stmt.declares d).outline = d.outline := by rw [outline]

/-- The outline of a program. -/
def Program.outline (p : Program) : Outline := .node p.span (Stmt.outlines p.statements)

end ClassScript
