import ClassScript.Syntax.Layout

/-!
# Programs without tokens and spans

`bare` replaces every token and span of a tree by an empty one. Two programs are the same up to tokens
and spans when their bare trees are equal, and the layout of a program depends on its bare tree only
(`Program.layout_bare`). `isPlain` says that a program has no markup and no nullable function type.
-/

namespace ClassScript

/-- A token of that text that stands nowhere. -/
def Token.nowhere (word : Text) : Token := ⟨.endOfInput, word, Span.none⟩

/-- The mark of nothing. -/
def Mark.blank : Mark := ⟨Token.nowhere [], Span.none⟩

/-- The mark without its place. A truth value is shown by the word of its token, so that is kept. -/
def Mark.bare (m : Mark) : Mark := ⟨Token.nowhere m.head.word, Span.none⟩

/-- The name without its token. -/
def Name.bare (n : Name) : Name := ⟨n.text, Token.nowhere []⟩

/-- The quotation without its token. -/
def Quotation.bare (q : Quotation) : Quotation := ⟨Token.nowhere [], q.value⟩

/-- The annotation without its token. -/
def Annotation.bare (a : Annotation) : Annotation := ⟨Token.nowhere [], a.name⟩

/-! ## Bare trees -/

mutual

/-- The type without tokens and spans. -/
def TypeExpr.bare : TypeExpr → TypeExpr
  | .simple _ name nullable => .simple Mark.blank name nullable
  | .generic _ name args nullable => .generic Mark.blank name (TypeExpr.bareAll args) nullable
  | .function _ params result nullable =>
    .function Mark.blank (TypeExpr.bareAll params) result.bare nullable

/-- The types without tokens and spans. -/
def TypeExpr.bareAll : List TypeExpr → List TypeExpr
  | [] => []
  | t :: ts => t.bare :: TypeExpr.bareAll ts

end

/-- The heading without tokens and spans. -/
def Heading.bare : Heading → Heading
  | .ofClass isOpen parent interfaces =>
    .ofClass isOpen (parent.map TypeExpr.bare) (TypeExpr.bareAll interfaces)
  | .ofInterface parents => .ofInterface (TypeExpr.bareAll parents)

mutual

/-- The expression without tokens and spans. -/
def Expr.bare : Expr → Expr
  | .name id => .name id.bare
  | .number _ digits => .number Mark.blank digits
  | .string q => .string q.bare
  | .boolean m value => .boolean m.bare value
  | .null _ => .null Mark.blank
  | .self _ => .self Mark.blank
  | .parent _ => .parent Mark.blank
  | .binary _ op left right => .binary Mark.blank op left.bare right.bare
  | .unary _ op operand => .unary Mark.blank op operand.bare
  | .assign _ target value => .assign Mark.blank target.bare value.bare
  | .member _ object property => .member Mark.blank object.bare property.bare
  | .index _ object i => .index Mark.blank object.bare i.bare
  | .call _ callee args => .call Mark.blank callee.bare (Expr.bareAll args)
  | .create _ type args => .create Mark.blank type.bare (Expr.bareAll args)
  | .array _ elements => .array Mark.blank (Expr.bareAll elements)
  | .lambda _ params result body =>
    .lambda Mark.blank (Param.bareAll params) (result.map TypeExpr.bare) body.bare
  | .markup e => .markup e.bare

/-- The expressions without tokens and spans. -/
def Expr.bareAll : List Expr → List Expr
  | [] => []
  | e :: es => e.bare :: Expr.bareAll es

/-- The expression, if there is one, without tokens and spans. -/
def Expr.bareOption : Option Expr → Option Expr
  | none => none
  | some e => some e.bare

/-- The parameter without tokens and spans. -/
def Param.bare : Param → Param
  | ⟨_, name, type, fallback⟩ =>
    ⟨Mark.blank, name.bare, type.map TypeExpr.bare, Expr.bareOption fallback⟩

/-- The parameters without tokens and spans. -/
def Param.bareAll : List Param → List Param
  | [] => []
  | p :: ps => p.bare :: Param.bareAll ps

/-- The body of a lambda without tokens and spans. -/
def LambdaBody.bare : LambdaBody → LambdaBody
  | .block b => .block b.bare
  | .value e => .value e.bare

/-- The element without tokens and spans. -/
def Element.bare : Element → Element
  | ⟨_, tag, attributes, children, selfClosing⟩ =>
    ⟨Mark.blank, tag, Attribute.bareAll attributes, Child.bareAll children, selfClosing⟩

/-- The attributes without tokens and spans. -/
def Attribute.bareAll : List Attribute → List Attribute
  | [] => []
  | ⟨_, name, value⟩ :: rest => ⟨Mark.blank, name, value.bare⟩ :: Attribute.bareAll rest

/-- The children without tokens and spans. -/
def Child.bareAll : List Child → List Child
  | [] => []
  | .element e :: rest => .element e.bare :: Child.bareAll rest
  | .text _ t :: rest => .text Mark.blank t :: Child.bareAll rest
  | .hole _ e :: rest => .hole Mark.blank e.bare :: Child.bareAll rest

/-- The block without tokens and spans. -/
def Block.bare : Block → Block
  | ⟨_, statements⟩ => ⟨Mark.blank, Stmt.bareAll statements⟩

/-- The block, if there is one, without tokens and spans. -/
def Block.bareOption : Option Block → Option Block
  | none => none
  | some b => some b.bare

/-- The arms without tokens and spans. -/
def Arm.bareAll : List Arm → List Arm
  | [] => []
  | ⟨_, value, body⟩ :: rest => ⟨Mark.blank, value.bare, body.bare⟩ :: Arm.bareAll rest

/-- The statement without tokens and spans. -/
def Stmt.bare : Stmt → Stmt
  | .uses _ names path => .uses Mark.blank (names.map Name.bare) path.bare
  | .binds _ name type value =>
    .binds Mark.blank name.bare (type.map TypeExpr.bare) (Expr.bareOption value)
  | .block b => .block b.bare
  | .branch _ condition yes no => .branch Mark.blank condition.bare yes.bare (Stmt.bareOption no)
  | .select _ subject arms fallback =>
    .select Mark.blank subject.bare (Arm.bareAll arms) (Block.bareOption fallback)
  | .each _ item iterable body => .each Mark.blank item.bare iterable.bare body.bare
  | .returns _ value => .returns Mark.blank (Expr.bareOption value)
  | .does _ e => .does Mark.blank e.bare
  | .declares d => .declares d.bare

/-- The statement, if there is one, without tokens and spans. -/
def Stmt.bareOption : Option Stmt → Option Stmt
  | none => none
  | some s => some s.bare

/-- The statements without tokens and spans. -/
def Stmt.bareAll : List Stmt → List Stmt
  | [] => []
  | s :: ss => s.bare :: Stmt.bareAll ss

/-- The field without tokens and spans. -/
def Field.bare : Field → Field
  | ⟨_, annotations, modifiers, name, type, init⟩ =>
    ⟨Mark.blank, annotations.map Annotation.bare, modifiers, name.bare, type.map TypeExpr.bare,
      Expr.bareOption init⟩

/-- The fields without tokens and spans. -/
def Field.bareAll : List Field → List Field
  | [] => []
  | f :: fs => f.bare :: Field.bareAll fs

/-- The method without tokens and spans. -/
def Method.bare : Method → Method
  | ⟨_, annotations, modifiers, name, isConstructor, typeParams, params, result, body⟩ =>
    ⟨Mark.blank, annotations.map Annotation.bare, modifiers, name.bare, isConstructor,
      typeParams.map Name.bare, Param.bareAll params, result.map TypeExpr.bare,
      Block.bareOption body⟩

/-- The methods without tokens and spans. -/
def Method.bareAll : List Method → List Method
  | [] => []
  | m :: ms => m.bare :: Method.bareAll ms

/-- The declaration without tokens and spans. -/
def Declaration.bare : Declaration → Declaration
  | ⟨_, annotations, heading, name, typeParams, fields, methods⟩ =>
    ⟨Mark.blank, annotations.map Annotation.bare, heading.bare, name.bare, typeParams.map Name.bare,
      Field.bareAll fields, Method.bareAll methods⟩

end

/-- The second statement has a longer alternative at its end. -/
inductive Stmt.Prolongs : Stmt → Stmt → Prop
  | alternative {m : Mark} {condition : Expr} {yes : Block} {no : Stmt} :
    Prolongs (.branch m condition yes none) (.branch m condition yes (some no))
  | nested {m : Mark} {condition : Expr} {yes : Block} {no no' : Stmt} : Prolongs no no' →
    Prolongs (.branch m condition yes (some no)) (.branch m condition yes (some no'))

/-- Statements go on as others, with more behind them and perhaps a longer alternative in the last. -/
inductive Stmt.GoOn : List Stmt → List Stmt → Prop
  | more {ss : List Stmt} : GoOn [] ss
  | prolonged {s s' : Stmt} {ss : List Stmt} : s.Prolongs s' → GoOn [s] (s' :: ss)
  | cons {s : Stmt} {ss ss' : List Stmt} : GoOn ss ss' → GoOn (s :: ss) (s :: ss')

theorem Stmt.GoOn.length_le {ss ss' : List Stmt} (goOn : Stmt.GoOn ss ss') : ss.length ≤ ss'.length := by
  induction goOn with
  | more => exact Nat.zero_le _
  | prolonged _ => exact Nat.succ_le_succ (Nat.zero_le _)
  | cons _ ih => exact Nat.succ_le_succ ih

/-- The program without tokens and spans. -/
def Program.bare (p : Program) : Program := ⟨p.file, Stmt.bareAll p.statements, Span.none⟩

/-! ## Plain trees -/

mutual

/-- Whether no function type in the type is nullable. -/
def TypeExpr.isPlain : TypeExpr → Bool
  | .simple .. => true
  | .generic _ _ args _ => TypeExpr.arePlain args
  | .function _ params result nullable => !nullable && TypeExpr.arePlain params && result.isPlain

/-- Whether no function type in the types is nullable. -/
def TypeExpr.arePlain : List TypeExpr → Bool
  | [] => true
  | t :: ts => t.isPlain && TypeExpr.arePlain ts

end

/-- Whether the heading has no nullable function type. -/
def Heading.isPlain : Heading → Bool
  | .ofClass _ parent interfaces => parent.all TypeExpr.isPlain && TypeExpr.arePlain interfaces
  | .ofInterface parents => TypeExpr.arePlain parents

mutual

/-- Whether an expression has no markup and no nullable function type. -/
def Expr.isPlain : Expr → Bool
  | .name _ | .number .. | .string _ | .boolean .. | .null _ | .self _ | .parent _ => true
  | .binary _ _ left right => left.isPlain && right.isPlain
  | .unary _ _ operand => operand.isPlain
  | .assign _ target value => target.isPlain && value.isPlain
  | .member _ object _ => object.isPlain
  | .index _ object i => object.isPlain && i.isPlain
  | .call _ callee args => callee.isPlain && Expr.arePlain args
  | .create _ type args => type.isPlain && Expr.arePlain args
  | .array _ elements => Expr.arePlain elements
  | .lambda _ params result body =>
    Param.arePlain params && result.all TypeExpr.isPlain && body.isPlain
  | .markup _ => false

/-- Whether all expressions are plain. -/
def Expr.arePlain : List Expr → Bool
  | [] => true
  | e :: es => e.isPlain && Expr.arePlain es

/-- Whether the expression, if there is one, is plain. -/
def Expr.isPlainOption : Option Expr → Bool
  | none => true
  | some e => e.isPlain

/-- Whether the type and the default value of a parameter are plain. -/
def Param.isPlain : Param → Bool
  | ⟨_, _, type, fallback⟩ => type.all TypeExpr.isPlain && Expr.isPlainOption fallback

/-- Whether all parameters are plain. -/
def Param.arePlain : List Param → Bool
  | [] => true
  | p :: ps => p.isPlain && Param.arePlain ps

/-- Whether the body of a lambda is plain. -/
def LambdaBody.isPlain : LambdaBody → Bool
  | .block b => b.isPlain
  | .value e => e.isPlain

/-- Whether the statements of a block are plain. -/
def Block.isPlain : Block → Bool
  | ⟨_, statements⟩ => Stmt.arePlain statements

/-- Whether the block, if there is one, is plain. -/
def Block.isPlainOption : Option Block → Bool
  | none => true
  | some b => b.isPlain

/-- Whether an arm is plain. -/
def Arm.isPlain : Arm → Bool
  | ⟨_, value, body⟩ => value.isPlain && body.isPlain

/-- Whether all arms are plain. -/
def Arm.arePlain : List Arm → Bool
  | [] => true
  | a :: rest => a.isPlain && Arm.arePlain rest

/-- Whether a statement has no markup and no nullable function type. -/
def Stmt.isPlain : Stmt → Bool
  | .uses .. => true
  | .binds _ _ type value => type.all TypeExpr.isPlain && Expr.isPlainOption value
  | .block b => b.isPlain
  | .branch _ condition yes no => condition.isPlain && yes.isPlain && Stmt.isPlainOption no
  | .select _ subject arms fallback =>
    subject.isPlain && Arm.arePlain arms && Block.isPlainOption fallback
  | .each _ _ iterable body => iterable.isPlain && body.isPlain
  | .returns _ value => Expr.isPlainOption value
  | .does _ e => e.isPlain
  | .declares d => d.isPlain

/-- Whether the statement, if there is one, is plain. -/
def Stmt.isPlainOption : Option Stmt → Bool
  | none => true
  | some s => s.isPlain

/-- Whether all statements are plain. -/
def Stmt.arePlain : List Stmt → Bool
  | [] => true
  | s :: ss => s.isPlain && Stmt.arePlain ss

/-- Whether the type and the initial value of a field are plain. -/
def Field.isPlain : Field → Bool
  | ⟨_, _, _, _, type, init⟩ => type.all TypeExpr.isPlain && Expr.isPlainOption init

/-- Whether all fields are plain. -/
def Field.arePlain : List Field → Bool
  | [] => true
  | f :: fs => f.isPlain && Field.arePlain fs

/-- Whether the parameters, the result type and the body of a method are plain. -/
def Method.isPlain : Method → Bool
  | ⟨_, _, _, _, _, _, params, result, body⟩ =>
    Param.arePlain params && result.all TypeExpr.isPlain && Block.isPlainOption body

/-- Whether all methods are plain. -/
def Method.arePlain : List Method → Bool
  | [] => true
  | m :: ms => m.isPlain && Method.arePlain ms

/-- Whether the heading and the members of a declaration are plain. -/
def Declaration.isPlain : Declaration → Bool
  | ⟨_, _, heading, _, _, fields, methods⟩ =>
    heading.isPlain && Field.arePlain fields && Method.arePlain methods

end

/-- Whether a program has no markup and no nullable function type. -/
def Program.isPlain (p : Program) : Bool := Stmt.arePlain p.statements

/-! ## Parts that stay -/

@[simp]
theorem TypeExpr.name?_bare (t : TypeExpr) : t.bare.name? = t.name? := by cases t <;> rfl

@[simp]
theorem Method.isConstructor_bare (m : Method) : m.bare.isConstructor = m.isConstructor := by cases m; rfl

/-! ## Lists of bare trees -/

/-- A function on lists that works member by member. -/
theorem eq_map {α β : Type} {f : α → β} {all : List α → List β} (nil : all [] = [])
    (cons : ∀ a l, all (a :: l) = f a :: all l) (l : List α) : all l = l.map f := by
  induction l with
  | nil => exact nil
  | cons a l ih => rw [cons, ih, List.map_cons]

theorem TypeExpr.bareAll_eq (ts : List TypeExpr) : TypeExpr.bareAll ts = ts.map TypeExpr.bare :=
  eq_map rfl (fun _ _ => rfl) ts

theorem Expr.bareAll_eq (es : List Expr) : Expr.bareAll es = es.map Expr.bare :=
  eq_map rfl (fun _ _ => rfl) es

theorem Param.bareAll_eq (ps : List Param) : Param.bareAll ps = ps.map Param.bare :=
  eq_map rfl (fun _ _ => rfl) ps

theorem Stmt.bareAll_eq (ss : List Stmt) : Stmt.bareAll ss = ss.map Stmt.bare :=
  eq_map rfl (fun _ _ => rfl) ss

theorem Field.bareAll_eq (fs : List Field) : Field.bareAll fs = fs.map Field.bare :=
  eq_map rfl (fun _ _ => rfl) fs

theorem Method.bareAll_eq (ms : List Method) : Method.bareAll ms = ms.map Method.bare :=
  eq_map rfl (fun _ _ => rfl) ms

/-! ## The layout of a bare tree -/

theorem Text.shown_ofString (word : String) : Text.shown (Text.ofString word) = word := by
  have same : Glyph.shown ∘ Glyph.char = id := rfl
  simp only [Text.shown, Text.ofString, List.map_map, same, List.map_id, String.ofList_toList]

theorem Mark.word_bare (m : Mark) : m.bare.head.word = m.head.word :=
  Text.shown_ofString m.head.word

theorem Name.texts_bare (names : List Name) :
    (names.map Name.bare).map Name.text = names.map Name.text := by
  rw [List.map_map]
  rfl

mutual

theorem TypeExpr.text_bare : ∀ t : TypeExpr, t.bare.text = t.text
  | .simple .. => rfl
  | .generic _ _ args _ => by rw [bare, text, text, TypeExpr.texts_bare args]
  | .function _ params result _ => by
    rw [bare, text, text, TypeExpr.texts_bare params, result.text_bare]

theorem TypeExpr.texts_bare : ∀ ts : List TypeExpr, texts (bareAll ts) = texts ts
  | [] => rfl
  | t :: ts => by rw [bareAll, texts, texts, t.text_bare, TypeExpr.texts_bare ts]

end

namespace Layout

theorem exprStrength_bare (e : Expr) : exprStrength e.bare = exprStrength e := by
  cases e <;> rfl

theorem annotations_bare (as : List Annotation) :
    annotations (as.map Annotation.bare) = annotations as := by
  rw [annotations, annotations, List.map_map]
  rfl

theorem typeParams_bare (names : List Name) : typeParams (names.map Name.bare) = typeParams names := by
  rw [typeParams, typeParams, Name.texts_bare]
  cases names <;> rfl

theorem typeSuffix_bare (type : Option TypeExpr) :
    typeSuffix (type.map TypeExpr.bare) = typeSuffix type := by
  cases type with
  | none => rfl
  | some t => rw [Option.map_some, typeSuffix, typeSuffix, t.text_bare]

theorem types_bare (ts : List TypeExpr) : types (TypeExpr.bareAll ts) = types ts := by
  rw [types, types, TypeExpr.texts_bare]

theorem isEmpty_bareAll (ts : List TypeExpr) : (TypeExpr.bareAll ts).isEmpty = ts.isEmpty := by
  cases ts <;> rfl

theorem heading_bare (d : Declaration) : heading d.bare = heading d := by
  obtain ⟨mark, annotated, head, name, tps, fs, ms⟩ := d
  cases head with
  | ofClass isOpen parent interfaces =>
    cases parent <;>
      simp only [Declaration.bare, heading, Heading.bare, Name.bare, typeParams_bare, types_bare,
        isEmpty_bareAll, Option.map_none, Option.map_some, TypeExpr.text_bare]
  | ofInterface parents =>
    simp only [Declaration.bare, heading, Heading.bare, Name.bare, typeParams_bare, types_bare,
      isEmpty_bareAll]

theorem methodHead_bare (m : Method) : methodHead m.bare = methodHead m := by
  obtain ⟨_, _, _, _, isConstructor, _, _, _, _⟩ := m
  cases isConstructor <;>
    simp only [Method.bare, methodHead, Name.bare, typeParams_bare, annotations_bare,
      Bool.false_eq_true, if_true, if_false]

/-- An operand stands in parentheses exactly if it is weaker than its context. -/
theorem expr_in_context (level context : Nat) (e : Expr) :
    expr level context e =
      if exprStrength e < context then "(" ++ expr level 0 e ++ ")" else expr level 0 e := by
  cases e <;> simp only [expr, Nat.not_lt_zero, if_false]

theorem operand_bare {level : Nat} {e : Expr} (same : expr level 0 e.bare = expr level 0 e)
    (context : Nat) : expr level context e.bare = expr level context e := by
  rw [expr_in_context level context e.bare, same, exprStrength_bare, ← expr_in_context]

mutual

theorem expr_bare (level : Nat) : ∀ e : Expr, expr level 0 e.bare = expr level 0 e
  | .name _ | .number .. | .string _ | .null _ | .self _ | .parent _ => by
    simp only [Expr.bare, expr, Name.bare, Quotation.bare, Nat.not_lt_zero, if_false]
  | .boolean m _ => by simp only [Expr.bare, expr, Mark.word_bare, Nat.not_lt_zero, if_false]
  | .binary _ _ left right => by
    simp only [Expr.bare, expr, exprStrength, operand_bare (expr_bare level left),
      operand_bare (expr_bare level right), Nat.not_lt_zero, if_false]
  | .unary _ _ operand => by
    simp only [Expr.bare, expr, operand_bare (expr_bare level operand), Nat.not_lt_zero, if_false]
  | .assign _ target value => by
    simp only [Expr.bare, expr, exprStrength, operand_bare (expr_bare level target),
      operand_bare (expr_bare level value), Nat.not_lt_zero, if_false]
  | .member _ object _ => by
    simp only [Expr.bare, expr, operand_bare (expr_bare level object), Name.bare, Nat.not_lt_zero,
      if_false]
  | .index _ object i => by
    simp only [Expr.bare, expr, operand_bare (expr_bare level object), expr_bare level i,
      Nat.not_lt_zero, if_false]
  | .call _ callee args => by
    simp only [Expr.bare, expr, operand_bare (expr_bare level callee), exprs_bare level args,
      Nat.not_lt_zero, if_false]
  | .create _ type args => by
    simp only [Expr.bare, expr, type.text_bare, exprs_bare level args, Nat.not_lt_zero, if_false]
  | .array _ elements => by
    simp only [Expr.bare, expr, exprs_bare level elements, Nat.not_lt_zero, if_false]
  | .lambda _ ps result body => by
    simp only [Expr.bare, expr, params_bare level ps, typeSuffix_bare, lambdaBody_bare level body,
      Nat.not_lt_zero, if_false]
  | .markup e => by
    simp only [Expr.bare, expr, element_bare level e, Nat.not_lt_zero, if_false]

theorem exprs_bare (level : Nat) : ∀ es : List Expr, exprs level (Expr.bareAll es) = exprs level es
  | [] => rfl
  | [e] => by simp only [Expr.bareAll, exprs, expr_bare level e]
  | e :: e' :: es => by
    have rest := exprs_bare level (e' :: es)
    simp only [Expr.bareAll] at rest
    simp only [Expr.bareAll, exprs, expr_bare level e, rest]

theorem lambdaBody_bare (level : Nat) : ∀ b : LambdaBody, lambdaBody level b.bare = lambdaBody level b
  | .block b => by simp only [LambdaBody.bare, lambdaBody, block_bare level b]
  | .value e => by simp only [LambdaBody.bare, lambdaBody, expr_bare level e]

theorem initialiser_bare (level : Nat) :
    ∀ e : Option Expr, initialiser level (Expr.bareOption e) = initialiser level e
  | none => rfl
  | some e => by simp only [Expr.bareOption, initialiser, expr_bare level e]

theorem param_bare (level : Nat) : ∀ p : Param, param level p.bare = param level p
  | ⟨_, _, _, fallback⟩ => by
    simp only [Param.bare, param, Name.bare, typeSuffix_bare, initialiser_bare level fallback]

theorem params_bare (level : Nat) :
    ∀ ps : List Param, params level (Param.bareAll ps) = params level ps
  | [] => rfl
  | [p] => by simp only [Param.bareAll, params, param_bare level p]
  | p :: p' :: ps => by
    have rest := params_bare level (p' :: ps)
    simp only [Param.bareAll] at rest
    simp only [Param.bareAll, params, param_bare level p, rest]

theorem element_bare (level : Nat) : ∀ e : Element, element level e.bare = element level e
  | ⟨_, _, attributes, children, _⟩ => by
    simp only [Element.bare, element, attrs_bare level attributes, children_bare level children]

theorem attrs_bare (level : Nat) :
    ∀ as : List Attribute, attrs level (Attribute.bareAll as) = attrs level as
  | [] => rfl
  | ⟨_, _, value⟩ :: rest => by
    have shown := expr_bare level value
    cases value <;>
      simp only [Expr.bare, Quotation.bare] at shown ⊢ <;>
      simp only [Attribute.bareAll, attrs, attrs_bare level rest, Expr.bare, Quotation.bare, shown]

theorem children_bare (level : Nat) :
    ∀ cs : List Child, children level (Child.bareAll cs) = children level cs
  | [] => rfl
  | .element e :: rest => by
    simp only [Child.bareAll, children, element_bare level e, children_bare level rest]
  | .text _ _ :: rest => by simp only [Child.bareAll, children, children_bare level rest]
  | .hole _ e :: rest => by
    simp only [Child.bareAll, children, expr_bare level e, children_bare level rest]

theorem block_bare (level : Nat) : ∀ b : Block, block level b.bare = block level b
  | ⟨_, []⟩ => by simp only [Block.bare, Stmt.bareAll, block]
  | ⟨_, s :: ss⟩ => by
    have rest := stmts_bare (level + 1) (s :: ss)
    simp only [Stmt.bareAll] at rest
    simp only [Block.bare, Stmt.bareAll, block, List.isEmpty_cons, rest]

theorem stmts_bare (level : Nat) : ∀ ss : List Stmt, stmts level (Stmt.bareAll ss) = stmts level ss
  | [] => rfl
  | s :: ss => by simp only [Stmt.bareAll, stmts, stmt_bare level s, stmts_bare level ss]

theorem arms_bare (level : Nat) : ∀ as : List Arm, arms level (Arm.bareAll as) = arms level as
  | [] => rfl
  | ⟨_, value, body⟩ :: rest => by
    simp only [Arm.bareAll, arms, expr_bare level value, block_bare level body,
      arms_bare level rest]

theorem fallbackArm_bare (level : Nat) :
    ∀ b : Option Block, fallbackArm level (Block.bareOption b) = fallbackArm level b
  | none => rfl
  | some b => by simp only [Block.bareOption, fallbackArm, block_bare level b]

theorem otherwise_bare (level : Nat) :
    ∀ s : Option Stmt, otherwise level (Stmt.bareOption s) = otherwise level s
  | none => rfl
  | some s => by simp only [Stmt.bareOption, otherwise, stmt_bare level s]

theorem stmt_bare (level : Nat) : ∀ s : Stmt, stmt level s.bare = stmt level s
  | .uses _ names path => by
    simp only [Stmt.bare, stmt, Name.texts_bare, List.isEmpty_map, Quotation.bare]
  | .binds _ _ _ value => by
    simp only [Stmt.bare, stmt, Name.bare, typeSuffix_bare, initialiser_bare level value]
  | .block b => by simp only [Stmt.bare, stmt, block_bare level b]
  | .branch _ condition yes no => by
    simp only [Stmt.bare, stmt, expr_bare level condition, block_bare level yes,
      otherwise_bare level no]
  | .select _ subject as fallback => by
    simp only [Stmt.bare, stmt, expr_bare level subject, arms_bare (level + 1) as,
      fallbackArm_bare (level + 1) fallback]
  | .each _ _ iterable body => by
    simp only [Stmt.bare, stmt, Name.bare, expr_bare level iterable, block_bare level body]
  | .returns _ none => by simp only [Stmt.bare, Expr.bareOption, stmt]
  | .returns _ (some e) => by simp only [Stmt.bare, Expr.bareOption, stmt, expr_bare level e]
  | .does _ e => by simp only [Stmt.bare, stmt, expr_bare level e]
  | .declares d => by simp only [Stmt.bare, stmt, declaration_bare level d]

theorem fields_bare (level : Nat) :
    ∀ fs : List Field, fields level (Field.bareAll fs) = fields level fs
  | [] => rfl
  | ⟨_, _, _, _, _, init⟩ :: rest => by
    simp only [Field.bareAll, Field.bare, fields, annotations_bare, Name.bare, typeSuffix_bare,
      initialiser_bare level init, fields_bare level rest]

theorem methodBody_bare (level : Nat) :
    ∀ b : Option Block, methodBody level (Block.bareOption b) = methodBody level b
  | none => rfl
  | some b => by simp only [Block.bareOption, methodBody, block_bare level b]

theorem method_bare (level : Nat) : ∀ m : Method, method level m.bare = method level m
  | ⟨mark, annotated, mods, name, isConstructor, tps, ps, result, body⟩ => by
    have head := methodHead_bare ⟨mark, annotated, mods, name, isConstructor, tps, ps, result, body⟩
    simp only [Method.bare] at head
    simp only [Method.bare, method, head, params_bare level ps, typeSuffix_bare,
      methodBody_bare level body]

theorem methods_bare (level : Nat) (first : Bool) :
    ∀ ms : List Method, methods level first (Method.bareAll ms) = methods level first ms
  | [] => rfl
  | m :: rest => by
    have body : m.bare.body.isSome = m.body.isSome := by
      obtain ⟨_, _, _, _, _, _, _, _, b⟩ := m
      cases b <;> rfl
    simp only [Method.bareAll, methods, body, method_bare level m, methods_bare level false rest]

theorem declaration_bare (level : Nat) :
    ∀ d : Declaration, declaration level d.bare = declaration level d
  | ⟨mark, annotated, head, name, tps, fs, ms⟩ => by
    have opening := heading_bare ⟨mark, annotated, head, name, tps, fs, ms⟩
    have noFields : (Field.bareAll fs).isEmpty = fs.isEmpty := by cases fs <;> rfl
    have noMethods : (Method.bareAll ms).isEmpty = ms.isEmpty := by cases ms <;> rfl
    simp only [Declaration.bare] at opening
    simp only [Declaration.bare, declaration, annotations_bare, opening, noFields, noMethods,
      fields_bare (level + 1) fs, methods_bare (level + 1) _ ms]

end

theorem separates_bare (before after : Stmt) :
    separates before.bare after.bare = separates before after := by
  cases before <;> cases after <;> rfl

theorem toplevel_bare (before : Option Stmt) (ss : List Stmt) :
    toplevel (before.map Stmt.bare) (Stmt.bareAll ss) = toplevel before ss := by
  induction ss generalizing before with
  | nil => rfl
  | cons s rest ih =>
    have tail := ih (some s)
    rw [Option.map_some] at tail
    cases before with
    | none => simp only [Stmt.bareAll, toplevel, Option.map_none, stmt_bare 0 s, tail]
    | some b => simp only [Stmt.bareAll, toplevel, Option.map_some, separates_bare, stmt_bare 0 s, tail]

end Layout

/-- A program is laid out as its bare tree is. -/
theorem Program.layout_bare (p : Program) : p.bare.layout = p.layout :=
  Layout.toplevel_bare none p.statements

end ClassScript
