import ClassScript.Proofs.Bare
import ClassScript.Proofs.Runs

/-!
# The tokens of a layout

The shape of a token is its class and its text, without its place. `shapes` lists the shapes of the
tokens that the layout of a tree consists of. What the reader looks ahead for is settled on them: which
class of token a tree starts with, and whether its parentheses are balanced, so that looking for the
matching parenthesis skips it. Those of every plain tree are (`Expr.balanced`); the text in markup may
hold any parentheses.
-/

namespace ClassScript

namespace Shape

/-- An operator or delimiter. -/
def symbol (s : Symbol) : Shape := ⟨.symbol s, s.spelling, none⟩

/-- A reserved word. -/
def keyword (k : Keyword) : Shape := ⟨.keyword k, k.spelling, none⟩

/-- A word of any class. -/
def word (word : String) : Shape := ⟨.ofWord word, word, none⟩

/-- An identifier. -/
def name (word : String) : Shape := ⟨.identifier, word, none⟩

/-- A number. -/
def number (digits : String) : Shape := ⟨.number, digits, none⟩

/-- A truth value. -/
def boolean (word : String) : Shape := ⟨.boolean, word, none⟩

/-- A quoted text. -/
def quoted (t : Text) : Shape := ⟨.string, Layout.quoted t, none⟩

/-- An annotation. -/
def atName (word : String) : Shape := ⟨.atName, .char '@' :: Text.ofString word, none⟩

end Shape

/-! ## The shapes of trees -/

/-- Lists of shapes with commas between them. -/
def commas : List (List Shape) → List Shape
  | [] => []
  | [s] => s
  | s :: s' :: ss => s ++ .symbol .comma :: commas (s' :: ss)

/-- Names with commas between them. -/
def nameShapes (names : List Name) : List Shape := commas (names.map fun n => [.name n.text])

/-- A question mark, if there is one. -/
def questionShapes (nullable : Bool) : List Shape := if nullable then [.symbol .question] else []

mutual

/-- The shapes of a type. -/
def TypeExpr.shapes : TypeExpr → List Shape
  | .simple _ name nullable => .name name :: questionShapes nullable
  | .generic _ name args nullable =>
    .name name :: .symbol .less ::
      (commas (TypeExpr.shapesAll args) ++ .symbol .greater :: questionShapes nullable)
  | .function _ params result _ =>
    .symbol .leftParen ::
      (commas (TypeExpr.shapesAll params) ++ .symbol .rightParen :: .symbol .arrow :: result.shapes)

/-- The shapes of each type. -/
def TypeExpr.shapesAll : List TypeExpr → List (List Shape)
  | [] => []
  | t :: ts => t.shapes :: TypeExpr.shapesAll ts

end

/-- A type behind a colon, if there is one. -/
def typeSuffixShapes : Option TypeExpr → List Shape
  | none => []
  | some t => .symbol .colon :: t.shapes

/-- Type parameters between angle brackets, if there are any. -/
def typeParamShapes (names : List Name) : List Shape :=
  if names.isEmpty then [] else .symbol .less :: (nameShapes names ++ [.symbol .greater])

/-- Annotations, one behind the other. -/
def annotationShapes (as : List Annotation) : List Shape := as.map fun a => .atName a.name

/-- The reserved words of modifiers, in their fixed order. -/
def Modifiers.keywords (m : Modifiers) : List Keyword :=
  [(m.isPublic, Keyword.publicWord), (m.isPrivate, .privateWord), (m.isStatic, .staticWord),
    (m.isReadonly, .readonlyWord), (m.isOpen, .openWord)].filterMap fun (on, word) =>
      if on then some word else none

/-- The shapes of modifiers. -/
def Modifiers.shapes (m : Modifiers) : List Shape := m.keywords.map .keyword

/-- The modifiers that a method shows: a constructor is public without saying so. -/
def Method.shownModifiers (m : Method) : Modifiers :=
  if m.isConstructor then { m.modifiers with isPublic := false } else m.modifiers

/-- The shape of the name of a method. -/
def Method.nameShape (m : Method) : Shape :=
  if m.isConstructor then .keyword .constructorWord else .name m.name.text

/-- A type behind a word, if there is one. -/
def extendsShapes : Option TypeExpr → List Shape
  | none => []
  | some t => .keyword .extendsWord :: t.shapes

/-- Types behind a word, if there are any. -/
def typesBehind (word : Keyword) (ts : List TypeExpr) : List Shape :=
  if ts.isEmpty then [] else .keyword word :: commas (TypeExpr.shapesAll ts)

/-- A declaration behind its annotations, up to its members. -/
def headingShapes (heading : Heading) (name : Name) (typeParams : List Name) : List Shape :=
  match heading with
  | .ofClass isOpen parent interfaces =>
    (if isOpen then [.keyword .openWord] else []) ++
      .keyword .classWord :: .name name.text :: (typeParamShapes typeParams ++
        (extendsShapes parent ++ typesBehind .implementsWord interfaces))
  | .ofInterface parents =>
    .keyword .interfaceWord :: .name name.text ::
      (typeParamShapes typeParams ++ typesBehind .extendsWord parents)

/-- An operand of that strength, in parentheses if it is weaker than its context. -/
def operandShapes (context strength : Nat) (s : List Shape) : List Shape :=
  if strength < context then .symbol .leftParen :: (s ++ [.symbol .rightParen]) else s

/-- The names of an import that lists them. -/
def importShapes (names : List Name) : List Shape :=
  if names.isEmpty then []
  else .symbol .leftBrace :: (nameShapes names ++ [.symbol .rightBrace, .keyword .fromWord])

/-- Whether an expression is a quotation, which needs no braces as the value of an attribute. -/
def Expr.isQuoted : Expr → Bool
  | .string _ => true
  | _ => false

/-- A value in markup, in braces unless it stands bare. -/
def braceShapes (bare : Bool) (s : List Shape) : List Shape :=
  if bare then s else .symbol .leftBrace :: (s ++ [.symbol .rightBrace])

open Layout (strength exprStrength) in
mutual

/-- The shapes of an expression that needs no parentheses. -/
def Expr.shapes : Expr → List Shape
  | .name id => [.name id.text]
  | .number _ digits => [.number digits]
  | .string q => [.quoted q.value]
  | .boolean m _ => [.boolean m.head.word]
  | .null _ => [.keyword .nullWord]
  | .self _ => [.keyword .thisWord]
  | .parent _ => [.keyword .superWord]
  | .binary _ op left right =>
    operandShapes (strength op) (exprStrength left) left.shapes ++
      .symbol op.symbol :: operandShapes (strength op + 1) (exprStrength right) right.shapes
  | .unary _ op operand =>
    (match op with
      | .negate => .symbol .minus
      | .not => .symbol .bang) :: operandShapes 8 (exprStrength operand) operand.shapes
  | .assign _ target value =>
    operandShapes 2 (exprStrength target) target.shapes ++
      .symbol .assign :: operandShapes 1 (exprStrength value) value.shapes
  | .member _ object property =>
    operandShapes 9 (exprStrength object) object.shapes ++ [.symbol .dot, .name property.text]
  | .index _ object i =>
    operandShapes 9 (exprStrength object) object.shapes ++
      .symbol .leftBracket :: (i.shapes ++ [.symbol .rightBracket])
  | .call _ callee args =>
    operandShapes 9 (exprStrength callee) callee.shapes ++
      .symbol .leftParen :: (commas (Expr.shapesAll args) ++ [.symbol .rightParen])
  | .create _ type args =>
    .keyword .newWord :: (type.shapes ++
      .symbol .leftParen :: (commas (Expr.shapesAll args) ++ [.symbol .rightParen]))
  | .array _ elements =>
    .symbol .leftBracket :: (commas (Expr.shapesAll elements) ++ [.symbol .rightBracket])
  | .lambda _ params result body =>
    .symbol .leftParen :: (commas (Param.shapesAll params) ++
      .symbol .rightParen :: (typeSuffixShapes result ++ .symbol .arrow :: body.shapes))
  | .markup e => .keyword .vdomWord :: e.shapes

/-- The shapes of each expression. -/
def Expr.shapesAll : List Expr → List (List Shape)
  | [] => []
  | e :: es => e.shapes :: Expr.shapesAll es

/-- A value behind an equals sign, if there is one. -/
def Expr.initialiserShapes : Option Expr → List Shape
  | none => []
  | some e => .symbol .assign :: e.shapes

/-- The shapes of a parameter. -/
def Param.shapes : Param → List Shape
  | ⟨_, name, type, fallback⟩ =>
    .name name.text :: (typeSuffixShapes type ++ Expr.initialiserShapes fallback)

/-- The shapes of each parameter. -/
def Param.shapesAll : List Param → List (List Shape)
  | [] => []
  | p :: ps => p.shapes :: Param.shapesAll ps

/-- The shapes of the body of a lambda. -/
def LambdaBody.shapes : LambdaBody → List Shape
  | .block b => b.shapes
  | .value e => e.shapes

/-- The shapes of an element. -/
def Element.shapes : Element → List Shape
  | ⟨_, tag, attributes, children, selfClosing⟩ =>
    .symbol .less :: .word tag :: (Attribute.shapesAll attributes ++
      if selfClosing then [.symbol .slashGreater]
      else .symbol .greater ::
        (Child.shapesAll children ++ [.symbol .lessSlash, .word tag, .symbol .greater]))

/-- The shapes of attributes, one behind the other. -/
def Attribute.shapesAll : List Attribute → List Shape
  | [] => []
  | ⟨_, name, value⟩ :: rest =>
    .word name :: .symbol .assign :: (braceShapes value.isQuoted value.shapes ++ Attribute.shapesAll rest)

/-- The shapes of children, one behind the other. -/
def Child.shapesAll : List Child → List Shape
  | [] => []
  | .element e :: rest => e.shapes ++ Child.shapesAll rest
  | .text _ t :: rest => t.pieces ++ Child.shapesAll rest
  | .hole _ e :: rest => braceShapes false e.shapes ++ Child.shapesAll rest

/-- The shapes of a block. -/
def Block.shapes : Block → List Shape
  | ⟨_, statements⟩ => .symbol .leftBrace :: (Stmt.shapesAll statements ++ [.symbol .rightBrace])

/-- The shapes of an arm. -/
def Arm.shapes : Arm → List Shape
  | ⟨_, value, body⟩ => value.shapes ++ .symbol .fatArrow :: body.shapes

/-- The shapes of arms, one behind the other. -/
def Arm.shapesAll : List Arm → List Shape
  | [] => []
  | a :: rest => a.shapes ++ Arm.shapesAll rest

/-- The shapes of a default case, if there is one. -/
def Block.fallbackShapes : Option Block → List Shape
  | none => []
  | some b => .keyword .defaultWord :: .symbol .fatArrow :: b.shapes

/-- The shapes of the other side of a branch, if there is one. -/
def Stmt.otherwiseShapes : Option Stmt → List Shape
  | none => []
  | some s => .keyword .elseWord :: s.shapes

/-- The shapes of a statement. -/
def Stmt.shapes : Stmt → List Shape
  | .uses _ names path =>
    .keyword .importWord :: (importShapes names ++ [.quoted path.value, .symbol .semicolon])
  | .binds _ name type value =>
    .keyword .letWord :: .name name.text ::
      (typeSuffixShapes type ++ (Expr.initialiserShapes value ++ [.symbol .semicolon]))
  | .block b => b.shapes
  | .branch _ condition yes no =>
    .keyword .ifWord :: .symbol .leftParen ::
      (condition.shapes ++ .symbol .rightParen :: (yes.shapes ++ Stmt.otherwiseShapes no))
  | .select _ subject arms fallback =>
    .keyword .matchWord :: .symbol .leftParen ::
      (subject.shapes ++ .symbol .rightParen :: .symbol .leftBrace ::
        (Arm.shapesAll arms ++ (Block.fallbackShapes fallback ++ [.symbol .rightBrace])))
  | .each _ item iterable body =>
    .keyword .foreachWord :: .symbol .leftParen :: .name item.text :: .keyword .inWord ::
      (iterable.shapes ++ .symbol .rightParen :: body.shapes)
  | .returns _ none => [.keyword .returnWord, .symbol .semicolon]
  | .returns _ (some e) => .keyword .returnWord :: (e.shapes ++ [.symbol .semicolon])
  | .does _ e => e.shapes ++ [.symbol .semicolon]
  | .declares d => d.shapes

/-- The shapes of statements, one behind the other. -/
def Stmt.shapesAll : List Stmt → List Shape
  | [] => []
  | s :: ss => s.shapes ++ Stmt.shapesAll ss

/-- The shapes of a field. -/
def Field.shapes : Field → List Shape
  | ⟨_, annotations, modifiers, name, type, init⟩ =>
    annotationShapes annotations ++ (modifiers.shapes ++ .name name.text ::
      (typeSuffixShapes type ++ (Expr.initialiserShapes init ++ [.symbol .semicolon])))

/-- The shapes of fields, one behind the other. -/
def Field.shapesAll : List Field → List Shape
  | [] => []
  | f :: fs => f.shapes ++ Field.shapesAll fs

/-- The shapes of the body of a method, or of the semicolon in its place. -/
def Block.bodyShapes : Option Block → List Shape
  | none => [.symbol .semicolon]
  | some b => b.shapes

/-- The shapes of a method. -/
def Method.shapes : Method → List Shape
  | ⟨mark, annotations, modifiers, name, isConstructor, typeParams, params, result, body⟩ =>
    annotationShapes annotations ++
      ((Method.shownModifiers
        ⟨mark, annotations, modifiers, name, isConstructor, typeParams, params, result, body⟩).shapes ++
      Method.nameShape
        ⟨mark, annotations, modifiers, name, isConstructor, typeParams, params, result, body⟩ ::
      (typeParamShapes typeParams ++ .symbol .leftParen :: (commas (Param.shapesAll params) ++
        .symbol .rightParen :: (typeSuffixShapes result ++ Block.bodyShapes body))))

/-- The shapes of methods, one behind the other. -/
def Method.shapesAll : List Method → List Shape
  | [] => []
  | m :: ms => m.shapes ++ Method.shapesAll ms

/-- The shapes of a declaration. -/
def Declaration.shapes : Declaration → List Shape
  | ⟨_, annotations, heading, name, typeParams, fields, methods⟩ =>
    annotationShapes annotations ++ (headingShapes heading name typeParams ++
      .symbol .leftBrace ::
        (Field.shapesAll fields ++ (Method.shapesAll methods ++ [.symbol .rightBrace])))

end

/-! ## Balanced parentheses -/

/-- How many parentheses are open behind the shape, if it does not close one that was not opened. -/
def Shape.open? (depth : Nat) (k : Shape) : Option Nat :=
  match k.kind with
  | .symbol .leftParen => some (depth + 1)
  | .symbol .rightParen => if depth = 0 then none else some (depth - 1)
  | .endOfInput => none
  | _ => some depth

/-- As many parentheses are open behind the shapes as in front of them. -/
def Balanced (s : List Shape) : Prop := ∀ depth, s.foldlM Shape.open? depth = some depth

/-- Whether a shape is neither a parenthesis nor the end of the input. -/
def Shape.isNeutral (k : Shape) : Bool :=
  match k.kind with
  | .symbol .leftParen | .symbol .rightParen | .endOfInput => false
  | _ => true

/-- Parentheses that are open around the shapes stay open. -/
theorem open?_deeper {k : Shape} {depth depth' : Nat} (opened : k.open? depth = some depth') (more : Nat) :
    k.open? (depth + more) = some (depth' + more) := by
  unfold Shape.open? at opened ⊢
  split at opened
  · cases opened
    exact congrArg some (by omega)
  · split at opened
    · cases opened
    · next inside =>
      cases opened
      rw [if_neg (by omega)]
      exact congrArg some (by omega)
  · cases opened
  · cases opened
    rfl

theorem foldlM_deeper {s : List Shape} {depth depth' : Nat}
    (opened : s.foldlM Shape.open? depth = some depth') (more : Nat) :
    s.foldlM Shape.open? (depth + more) = some (depth' + more) := by
  induction s generalizing depth with
  | nil =>
    cases opened
    rfl
  | cons k s ih =>
    rw [List.foldlM_cons] at opened ⊢
    obtain ⟨next, first, rest⟩ := Option.bind_eq_some_iff.1 opened
    rw [open?_deeper first more]
    exact ih rest

theorem balanced_iff {s : List Shape} : Balanced s ↔ s.foldlM Shape.open? 0 = some 0 := by
  refine ⟨fun balanced => balanced 0, fun opened depth => ?_⟩
  have deeper := foldlM_deeper opened depth
  rwa [Nat.zero_add] at deeper

instance (s : List Shape) : Decidable (Balanced s) := decidable_of_iff _ balanced_iff.symm

theorem balanced_nil : Balanced [] := fun _ => rfl

theorem balanced_append {s s' : List Shape} (first : Balanced s) (second : Balanced s') :
    Balanced (s ++ s') := by
  intro depth
  rw [List.foldlM_append, first depth]
  exact second depth

theorem balanced_cons {k : Shape} {s : List Shape} (neutral : k.isNeutral = true)
    (rest : Balanced s) : Balanced (k :: s) := by
  intro depth
  have stays : k.open? depth = some depth := by
    unfold Shape.isNeutral at neutral
    unfold Shape.open?
    split at neutral <;> simp_all
  rw [List.foldlM_cons, stays]
  exact rest depth

theorem balanced_group {s s' : List Shape} (group : Balanced s) (rest : Balanced s') :
    Balanced (.symbol .leftParen :: (s ++ .symbol .rightParen :: s')) := by
  intro depth
  have opens : (Shape.symbol .leftParen).open? depth = some (depth + 1) := rfl
  have closes : (Shape.symbol .rightParen).open? (depth + 1) = some depth := rfl
  rw [List.foldlM_cons, opens, Option.bind_eq_bind, Option.bind_some, List.foldlM_append, group,
    Option.bind_eq_bind, Option.bind_some, List.foldlM_cons, closes, Option.bind_eq_bind, Option.bind_some]
  exact rest depth

theorem balanced_singleton {k : Shape} (neutral : k.isNeutral = true) : Balanced [k] :=
  balanced_cons neutral balanced_nil

theorem kind_of_shape {t : Token} {k : Shape} (same : t.shape = k.loose) : t.kind = k.kind :=
  congrArg Shape.kind same

theorem Shape.open?_cases {depth next : Nat} {k : Shape} (opened : k.open? depth = some next) :
    (k.kind = .symbol .leftParen ∧ next = depth + 1) ∨
      (k.kind = .symbol .rightParen ∧ depth = next + 1) ∨
        (k.kind ≠ .symbol .leftParen ∧ k.kind ≠ .symbol .rightParen ∧ k.kind ≠ .endOfInput ∧ next = depth) := by
  unfold open? at opened
  split at opened
  · next isLeft => exact .inl ⟨isLeft, (Option.some.inj opened).symm⟩
  · next isRight =>
    split at opened
    · cases opened
    · next inside =>
      have closed : depth - 1 = next := Option.some.inj opened
      exact .inr (.inl ⟨isRight, by omega⟩)
  · cases opened
  · next noLeft noRight noEnd => exact .inr (.inr ⟨noLeft, noRight, noEnd, (Option.some.inj opened).symm⟩)

/-- Looking for the parenthesis that closes one more than are open skips tokens of the shapes. -/
theorem lambdaAhead_open {s : List Shape} {ts tr : List Token} {depth depth' : Nat}
    (kinds : ts.map Token.kind = s.map Shape.kind) (opened : s.foldlM Shape.open? depth = some depth') :
    Grammar.lambdaAhead (depth + 1) (ts ++ tr) = Grammar.lambdaAhead (depth' + 1) tr := by
  induction s generalizing ts depth with
  | nil =>
    cases opened
    rw [List.map_eq_nil_iff.1 kinds, List.nil_append]
  | cons k s ih =>
    obtain ⟨t, ts, rfl, kind, kinds⟩ := List.map_eq_cons_iff.1 kinds
    rw [List.foldlM_cons] at opened
    obtain ⟨next, first, rest⟩ := Option.bind_eq_some_iff.1 opened
    rw [List.cons_append, Grammar.lambdaAhead.eq_def, ← ih kinds rest]
    dsimp only
    rw [kind]
    obtain ⟨isLeft, rfl⟩ | ⟨isRight, rfl⟩ | ⟨noLeft, noRight, noEnd, rfl⟩ := Shape.open?_cases first
    · rw [isLeft]
    · have inside : ¬ next + 1 + 1 ≤ 1 := by omega
      simp only [isRight, if_neg inside]
      rfl
    · split <;> first | contradiction | rfl

/-- Looking for a closing parenthesis skips tokens whose parentheses are balanced. -/
theorem lambdaAhead_balanced {s : List Shape} {ts : List Token} (balanced : Balanced s)
    (kinds : ts.map Token.kind = s.map Shape.kind) (tr : List Token) :
    Grammar.lambdaAhead 1 (ts ++ tr) = Grammar.lambdaAhead 1 tr := lambdaAhead_open kinds (balanced 0)

/-- At the matching parenthesis, the next token decides. -/
theorem lambdaAhead_closed {t t' : Token} (isRight : t.kind = .symbol .rightParen) (ts : List Token) :
    Grammar.lambdaAhead 1 (t :: t' :: ts) =
      (t'.kind == .symbol .arrow || t'.kind == .symbol .colon) := by
  rw [Grammar.lambdaAhead.eq_def]
  simp only [isRight, if_pos (Nat.le_refl 1)]

theorem balanced_commas {ss : List (List Shape)} (each : ∀ s ∈ ss, Balanced s) :
    Balanced (commas ss) := by
  induction ss with
  | nil => exact balanced_nil
  | cons s ss ih =>
    obtain ⟨first, rest⟩ := List.forall_mem_cons.1 each
    cases ss with
    | nil => exact first
    | cons s' ss => exact balanced_append first (balanced_cons rfl (ih rest))

theorem balanced_nameShapes (names : List Name) : Balanced (nameShapes names) := by
  refine balanced_commas fun s found => ?_
  obtain ⟨n, _, rfl⟩ := List.mem_map.1 found
  exact balanced_singleton rfl

theorem balanced_question (nullable : Bool) : Balanced (questionShapes nullable) := by
  cases nullable
  · exact balanced_nil
  · exact balanced_singleton rfl

mutual

theorem TypeExpr.balanced : ∀ t : TypeExpr, Balanced t.shapes
  | .simple _ _ nullable => balanced_cons rfl (balanced_question nullable)
  | .generic _ _ args nullable =>
    balanced_cons rfl (balanced_cons rfl (balanced_append (balanced_commas (TypeExpr.balancedAll args))
      (balanced_cons rfl (balanced_question nullable))))
  | .function _ params result _ =>
    balanced_group (balanced_commas (TypeExpr.balancedAll params)) (balanced_cons rfl result.balanced)

theorem TypeExpr.balancedAll : ∀ ts : List TypeExpr, ∀ s ∈ TypeExpr.shapesAll ts, Balanced s
  | [] => by simp [TypeExpr.shapesAll]
  | t :: ts => List.forall_mem_cons.2 ⟨t.balanced, TypeExpr.balancedAll ts⟩

end

theorem balanced_typeSuffix (type : Option TypeExpr) : Balanced (typeSuffixShapes type) := by
  cases type with
  | none => exact balanced_nil
  | some t => exact balanced_cons rfl t.balanced

theorem balanced_typeParams (names : List Name) : Balanced (typeParamShapes names) := by
  unfold typeParamShapes
  split
  · exact balanced_nil
  · exact balanced_cons rfl (balanced_append (balanced_nameShapes names) (balanced_singleton rfl))

theorem balanced_neutral {s : List Shape} (neutral : ∀ k ∈ s, k.isNeutral = true) : Balanced s := by
  induction s with
  | nil => exact balanced_nil
  | cons k s ih =>
    obtain ⟨first, rest⟩ := List.forall_mem_cons.1 neutral
    exact balanced_cons first (ih rest)

theorem balanced_annotations (as : List Annotation) : Balanced (annotationShapes as) := by
  refine balanced_neutral fun k found => ?_
  obtain ⟨a, _, rfl⟩ := List.mem_map.1 found
  rfl

theorem balanced_modifiers (m : Modifiers) : Balanced m.shapes := by
  refine balanced_neutral fun k found => ?_
  obtain ⟨word, _, rfl⟩ := List.mem_map.1 found
  rfl

theorem balanced_typesBehind (word : Keyword) (ts : List TypeExpr) : Balanced (typesBehind word ts) := by
  unfold typesBehind
  split
  · exact balanced_nil
  · exact balanced_cons rfl (balanced_commas (TypeExpr.balancedAll ts))

theorem balanced_heading (heading : Heading) (name : Name) (typeParams : List Name) :
    Balanced (headingShapes heading name typeParams) := by
  cases heading with
  | ofClass isOpen parent interfaces =>
    refine balanced_append ?_ (balanced_cons rfl (balanced_cons rfl (balanced_append
      (balanced_typeParams typeParams) (balanced_append ?_ (balanced_typesBehind _ interfaces)))))
    · cases isOpen
      · exact balanced_nil
      · exact balanced_singleton rfl
    · cases parent with
      | none => exact balanced_nil
      | some t => exact balanced_cons rfl t.balanced
  | ofInterface parents =>
    exact balanced_cons rfl (balanced_cons rfl (balanced_append (balanced_typeParams typeParams)
      (balanced_typesBehind _ parents)))

theorem balanced_imports (names : List Name) : Balanced (importShapes names) := by
  unfold importShapes
  split
  · exact balanced_nil
  · exact balanced_cons rfl (balanced_append (balanced_nameShapes names)
      (balanced_cons rfl (balanced_singleton rfl)))

theorem balanced_operand (context strength : Nat) {s : List Shape} (inside : Balanced s) :
    Balanced (operandShapes context strength s) := by
  unfold operandShapes
  split
  · exact balanced_group inside balanced_nil
  · exact inside

theorem balanced_methodName (m : Method) : m.nameShape.isNeutral = true := by
  unfold Method.nameShape
  split <;> rfl

mutual

theorem Expr.balanced : ∀ e : Expr, e.isPlain = true → Balanced e.shapes
  | .name _, _ | .number .., _ | .string _, _ | .boolean .., _ | .null _, _ | .self _, _
  | .parent _, _ => balanced_singleton rfl
  | .binary _ op left right, plain => by
    rw [Expr.isPlain, Bool.and_eq_true] at plain
    exact balanced_append (balanced_operand _ _ (left.balanced plain.1))
      (balanced_cons (by cases op <;> rfl) (balanced_operand _ _ (right.balanced plain.2)))
  | .unary _ op operand, plain =>
    balanced_cons (by cases op <;> rfl) (balanced_operand _ _ (operand.balanced plain))
  | .assign _ target value, plain => by
    rw [Expr.isPlain, Bool.and_eq_true] at plain
    exact balanced_append (balanced_operand _ _ (target.balanced plain.1))
      (balanced_cons rfl (balanced_operand _ _ (value.balanced plain.2)))
  | .member _ object _, plain =>
    balanced_append (balanced_operand _ _ (object.balanced plain))
      (balanced_cons rfl (balanced_singleton rfl))
  | .index _ object i, plain => by
    rw [Expr.isPlain, Bool.and_eq_true] at plain
    exact balanced_append (balanced_operand _ _ (object.balanced plain.1))
      (balanced_cons rfl (balanced_append (i.balanced plain.2) (balanced_singleton rfl)))
  | .call _ callee args, plain => by
    rw [Expr.isPlain, Bool.and_eq_true] at plain
    exact balanced_append (balanced_operand _ _ (callee.balanced plain.1))
      (balanced_group (balanced_commas (Expr.balancedAll args plain.2)) balanced_nil)
  | .create _ type args, plain => by
    rw [Expr.isPlain, Bool.and_eq_true] at plain
    exact balanced_cons rfl (balanced_append type.balanced
      (balanced_group (balanced_commas (Expr.balancedAll args plain.2)) balanced_nil))
  | .array _ elements, plain =>
    balanced_cons rfl (balanced_append (balanced_commas (Expr.balancedAll elements plain))
      (balanced_singleton rfl))
  | .lambda _ params result body, plain => by
    rw [Expr.isPlain, Bool.and_eq_true, Bool.and_eq_true] at plain
    exact balanced_group (balanced_commas (Param.balancedAll params plain.1.1))
      (balanced_append (balanced_typeSuffix result) (balanced_cons rfl (body.balanced plain.2)))

theorem Expr.balancedAll : ∀ es : List Expr, Expr.arePlain es = true →
    ∀ s ∈ Expr.shapesAll es, Balanced s
  | [], _ => by simp [Expr.shapesAll]
  | e :: es, plain => by
    rw [Expr.arePlain, Bool.and_eq_true] at plain
    exact List.forall_mem_cons.2 ⟨e.balanced plain.1, Expr.balancedAll es plain.2⟩

theorem Expr.initialiser_balanced : ∀ e : Option Expr, Expr.isPlainOption e = true →
    Balanced (Expr.initialiserShapes e)
  | none, _ => balanced_nil
  | some e, plain => balanced_cons rfl (e.balanced plain)

theorem Param.balanced : ∀ p : Param, p.isPlain = true → Balanced p.shapes
  | ⟨_, _, type, fallback⟩, plain => by
    rw [Param.isPlain, Bool.and_eq_true] at plain
    exact balanced_cons rfl (balanced_append (balanced_typeSuffix type)
      (Expr.initialiser_balanced fallback plain.2))

theorem Param.balancedAll : ∀ ps : List Param, Param.arePlain ps = true →
    ∀ s ∈ Param.shapesAll ps, Balanced s
  | [], _ => by simp [Param.shapesAll]
  | p :: ps, plain => by
    rw [Param.arePlain, Bool.and_eq_true] at plain
    exact List.forall_mem_cons.2 ⟨p.balanced plain.1, Param.balancedAll ps plain.2⟩

theorem LambdaBody.balanced : ∀ b : LambdaBody, b.isPlain = true → Balanced b.shapes
  | .block b, plain => b.balanced plain
  | .value e, plain => e.balanced plain

theorem Block.balanced : ∀ b : Block, b.isPlain = true → Balanced b.shapes
  | ⟨_, statements⟩, plain =>
    balanced_cons rfl (balanced_append (Stmt.balancedAll statements plain) (balanced_singleton rfl))

theorem Arm.balancedAll : ∀ as : List Arm, Arm.arePlain as = true → Balanced (Arm.shapesAll as)
  | [], _ => balanced_nil
  | ⟨_, value, body⟩ :: rest, plain => by
    rw [Arm.arePlain, Arm.isPlain, Bool.and_eq_true, Bool.and_eq_true] at plain
    exact balanced_append (balanced_append (value.balanced plain.1.1)
      (balanced_cons rfl (body.balanced plain.1.2))) (Arm.balancedAll rest plain.2)

theorem Block.fallback_balanced : ∀ b : Option Block, Block.isPlainOption b = true →
    Balanced (Block.fallbackShapes b)
  | none, _ => balanced_nil
  | some b, plain => balanced_cons rfl (balanced_cons rfl (b.balanced plain))

theorem Stmt.otherwise_balanced : ∀ s : Option Stmt, Stmt.isPlainOption s = true →
    Balanced (Stmt.otherwiseShapes s)
  | none, _ => balanced_nil
  | some s, plain => balanced_cons rfl (s.balanced plain)

theorem Stmt.balanced : ∀ s : Stmt, s.isPlain = true → Balanced s.shapes
  | .uses _ names _, _ =>
    balanced_cons rfl (balanced_append (balanced_imports names)
      (balanced_cons rfl (balanced_singleton rfl)))
  | .binds _ _ type value, plain => by
    rw [Stmt.isPlain, Bool.and_eq_true] at plain
    exact balanced_cons rfl (balanced_cons rfl (balanced_append (balanced_typeSuffix type)
      (balanced_append (Expr.initialiser_balanced value plain.2) (balanced_singleton rfl))))
  | .block b, plain => b.balanced plain
  | .branch _ condition yes no, plain => by
    rw [Stmt.isPlain, Bool.and_eq_true, Bool.and_eq_true] at plain
    exact balanced_cons rfl (balanced_group (condition.balanced plain.1.1)
      (balanced_append (yes.balanced plain.1.2) (Stmt.otherwise_balanced no plain.2)))
  | .select _ subject arms fallback, plain => by
    rw [Stmt.isPlain, Bool.and_eq_true, Bool.and_eq_true] at plain
    exact balanced_cons rfl (balanced_group (subject.balanced plain.1.1) (balanced_cons rfl
      (balanced_append (Arm.balancedAll arms plain.1.2)
        (balanced_append (Block.fallback_balanced fallback plain.2) (balanced_singleton rfl)))))
  | .each _ item iterable body, plain => by
    rw [Stmt.isPlain, Bool.and_eq_true] at plain
    exact balanced_cons rfl (balanced_group (s := .name item.text :: .keyword .inWord :: iterable.shapes)
      (balanced_cons rfl (balanced_cons rfl (iterable.balanced plain.1))) (body.balanced plain.2))
  | .returns _ none, _ => balanced_cons rfl (balanced_singleton rfl)
  | .returns _ (some e), plain =>
    balanced_cons rfl (balanced_append (e.balanced plain) (balanced_singleton rfl))
  | .does _ e, plain => balanced_append (e.balanced plain) (balanced_singleton rfl)
  | .declares d, plain => d.balanced plain

theorem Stmt.balancedAll : ∀ ss : List Stmt, Stmt.arePlain ss = true → Balanced (Stmt.shapesAll ss)
  | [], _ => balanced_nil
  | s :: ss, plain => by
    rw [Stmt.arePlain, Bool.and_eq_true] at plain
    exact balanced_append (s.balanced plain.1) (Stmt.balancedAll ss plain.2)

theorem Field.balancedAll : ∀ fs : List Field, Field.arePlain fs = true → Balanced (Field.shapesAll fs)
  | [], _ => balanced_nil
  | ⟨_, annotations, modifiers, _, type, init⟩ :: rest, plain => by
    rw [Field.arePlain, Field.isPlain, Bool.and_eq_true, Bool.and_eq_true] at plain
    exact balanced_append (balanced_append (balanced_annotations annotations)
      (balanced_append (balanced_modifiers modifiers) (balanced_cons rfl
        (balanced_append (balanced_typeSuffix type)
          (balanced_append (Expr.initialiser_balanced init plain.1.2) (balanced_singleton rfl))))))
      (Field.balancedAll rest plain.2)

theorem Block.body_balanced : ∀ b : Option Block, Block.isPlainOption b = true →
    Balanced (Block.bodyShapes b)
  | none, _ => balanced_singleton rfl
  | some b, plain => b.balanced plain

theorem Method.balancedAll : ∀ ms : List Method, Method.arePlain ms = true →
    Balanced (Method.shapesAll ms)
  | [], _ => balanced_nil
  | ⟨_, annotations, _, _, _, typeParams, params, result, body⟩ :: rest, plain => by
    rw [Method.arePlain, Method.isPlain, Bool.and_eq_true, Bool.and_eq_true, Bool.and_eq_true] at plain
    exact balanced_append (balanced_append (balanced_annotations annotations)
      (balanced_append (balanced_modifiers _) (balanced_cons (balanced_methodName _)
        (balanced_append (balanced_typeParams typeParams)
          (balanced_group (balanced_commas (Param.balancedAll params plain.1.1.1))
            (balanced_append (balanced_typeSuffix result) (Block.body_balanced body plain.1.2)))))))
      (Method.balancedAll rest plain.2)

theorem Declaration.balanced : ∀ d : Declaration, d.isPlain = true → Balanced d.shapes
  | ⟨_, annotations, heading, name, typeParams, fields, methods⟩, plain => by
    rw [Declaration.isPlain, Bool.and_eq_true, Bool.and_eq_true] at plain
    exact balanced_append (balanced_annotations annotations)
      (balanced_append (balanced_heading heading name typeParams) (balanced_cons rfl
        (balanced_append (Field.balancedAll fields plain.1.2)
          (balanced_append (Method.balancedAll methods plain.2) (balanced_singleton rfl)))))

end

end ClassScript
