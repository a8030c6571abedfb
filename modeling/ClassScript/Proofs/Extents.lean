import ClassScript.Syntax.Tree

/-!
The spans of the nodes inside a tree, as far as typing places faults at them: statements, expressions, types, and the
names, parameters and methods that a fault can be about.
-/

namespace ClassScript

mutual

/-- The spans of the nodes of a type. -/
def TypeExpr.spans (t : TypeExpr) : List Span :=
  t.span ::
    match t with
    | .simple .. => []
    | .generic _ _ args _ => TypeExpr.spansAll args
    | .function _ params result _ => TypeExpr.spansAll params ++ result.spans

/-- The spans of the nodes of types. -/
def TypeExpr.spansAll : List TypeExpr → List Span
  | [] => []
  | t :: ts => t.spans ++ TypeExpr.spansAll ts

end

/-- The spans of the nodes of a type, if one is written. -/
def TypeExpr.spansOf? (t : Option TypeExpr) : List Span := t.elim [] TypeExpr.spans

mutual

/-- The spans of the nodes of an expression. -/
def Expr.spans (e : Expr) : List Span :=
  e.span ::
    match e with
    | .name _ | .number .. | .string _ | .boolean .. | .null _ | .self _ | .parent _ => []
    | .binary _ _ l r => l.spans ++ r.spans
    | .unary _ _ e => e.spans
    | .assign _ t v => t.spans ++ v.spans
    | .member _ o property => property.span :: o.spans
    | .index _ o i => o.spans ++ i.spans
    | .call _ c args => c.spans ++ Expr.spansAll args
    | .create _ type args => type.spans ++ Expr.spansAll args
    | .array _ items => Expr.spansAll items
    | .lambda _ params result body => Param.spansAll params ++ TypeExpr.spansOf? result ++ body.spans
    | .markup ⟨_, _, attributes, children, _⟩ => Attribute.spansAll attributes ++ Child.spansAll children

/-- The spans of the nodes of expressions. -/
def Expr.spansAll : List Expr → List Span
  | [] => []
  | e :: es => e.spans ++ Expr.spansAll es

/-- The spans of the nodes in the body of a lambda. -/
def LambdaBody.spans : LambdaBody → List Span
  | .block b => b.spans
  | .value e => e.spans

/-- The spans of the nodes of parameters. -/
def Param.spansAll : List Param → List Span
  | [] => []
  | ⟨m, _, type, none⟩ :: ps => m.span :: TypeExpr.spansOf? type ++ Param.spansAll ps
  | ⟨m, _, type, some e⟩ :: ps => m.span :: TypeExpr.spansOf? type ++ e.spans ++ Param.spansAll ps

/-- The spans of the nodes in attributes. -/
def Attribute.spansAll : List Attribute → List Span
  | [] => []
  | ⟨_, _, e⟩ :: as => e.spans ++ Attribute.spansAll as

/-- The spans of the nodes between tags. -/
def Child.spansAll : List Child → List Span
  | [] => []
  | .element ⟨m, _, attributes, children, _⟩ :: cs =>
    m.span :: (Attribute.spansAll attributes ++ Child.spansAll children) ++ Child.spansAll cs
  | .text .. :: cs => Child.spansAll cs
  | .hole _ e :: cs => e.spans ++ Child.spansAll cs

/-- The spans of the nodes of a block. -/
def Block.spans : Block → List Span
  | ⟨_, statements⟩ => Stmt.spansAll statements

/-- The spans of the nodes of statements. -/
def Stmt.spansAll : List Stmt → List Span
  | [] => []
  | s :: ss => s.spans ++ Stmt.spansAll ss

/-- The spans of the nodes in the arms of a selection. -/
def Arm.spansAll : List Arm → List Span
  | [] => []
  | ⟨_, e, b⟩ :: as => e.spans ++ b.spans ++ Arm.spansAll as

/-- The spans of the nodes of a statement. -/
def Stmt.spans (s : Stmt) : List Span :=
  s.span ::
    match s with
    | .uses .. | .returns _ none => []
    | .binds _ name type none => name.span :: TypeExpr.spansOf? type
    | .binds _ name type (some e) => name.span :: TypeExpr.spansOf? type ++ e.spans
    | .returns _ (some e) | .does _ e => e.spans
    | .block b => b.spans
    | .branch _ c yes none => c.spans ++ yes.spans
    | .branch _ c yes (some no) => c.spans ++ yes.spans ++ no.spans
    | .select _ e arms none => e.spans ++ Arm.spansAll arms
    | .select _ e arms (some b) => e.spans ++ Arm.spansAll arms ++ b.spans
    | .each _ _ e b => e.spans ++ b.spans
    | .declares ⟨_, _, .ofClass _ parent interfaces, _, _, fields, methods⟩ =>
      TypeExpr.spansOf? parent ++ TypeExpr.spansAll interfaces ++ (Field.spansAll fields ++ Method.spansAll methods)
    | .declares ⟨_, _, .ofInterface parents, _, _, fields, methods⟩ =>
      TypeExpr.spansAll parents ++ (Field.spansAll fields ++ Method.spansAll methods)

/-- The spans of the nodes of fields. -/
def Field.spansAll : List Field → List Span
  | [] => []
  | ⟨_, _, _, _, type, none⟩ :: fs => TypeExpr.spansOf? type ++ Field.spansAll fs
  | ⟨_, _, _, _, type, some e⟩ :: fs => TypeExpr.spansOf? type ++ e.spans ++ Field.spansAll fs

/-- The spans of the nodes of methods. -/
def Method.spansAll : List Method → List Span
  | [] => []
  | ⟨m, _, _, _, _, _, params, result, none⟩ :: ms =>
    m.span :: Param.spansAll params ++ TypeExpr.spansOf? result ++ Method.spansAll ms
  | ⟨m, _, _, _, _, _, params, result, some b⟩ :: ms =>
    m.span :: Param.spansAll params ++ TypeExpr.spansOf? result ++ b.spans ++ Method.spansAll ms

end

namespace Declaration

/-- The spans of the nodes in the body of a declaration. -/
def bodySpans (d : Declaration) : List Span := Field.spansAll d.fields ++ Method.spansAll d.methods

/-- The spans of the nodes of a declaration. -/
def spans (d : Declaration) : List Span := (Stmt.declares d).spans

end Declaration

/-! ## Where the spans of a part are found -/

@[simp] theorem TypeExpr.span_mem_spans (t : TypeExpr) : t.span ∈ t.spans := by
  rw [TypeExpr.spans.eq_def]
  exact List.mem_cons_self

@[simp] theorem Expr.span_mem_spans (e : Expr) : e.span ∈ e.spans := by
  rw [Expr.spans.eq_def]
  exact List.mem_cons_self

@[simp] theorem Stmt.span_mem_spans (s : Stmt) : s.span ∈ s.spans := by
  rw [Stmt.spans.eq_def]
  exact List.mem_cons_self

theorem TypeExpr.spans_subset_spansAll {t : TypeExpr} {ts : List TypeExpr} (member : t ∈ ts) :
    t.spans ⊆ TypeExpr.spansAll ts := by
  induction ts with
  | nil => cases member
  | cons u ts ih =>
    rw [TypeExpr.spansAll]
    rcases List.mem_cons.1 member with rfl | member
    · exact List.subset_append_left _ _
    · exact List.subset_append_of_subset_right _ (ih member)

/-- The spans of the parts of a parameter are among its own. -/
theorem Param.spansAll_cons (p : Param) (ps : List Param) :
    Param.spansAll (p :: ps) =
      p.mark.span :: TypeExpr.spansOf? p.type ++ p.fallback.elim [] Expr.spans ++ Param.spansAll ps := by
  obtain ⟨m, name, type, fallback⟩ := p
  cases fallback <;> simp [Param.spansAll]

end ClassScript
