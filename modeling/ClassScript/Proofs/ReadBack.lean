import ClassScript.Proofs.Reads
import ClassScript.Proofs.Spelling

/-!
# Reading a layout back

Every reader of the grammar reads the shapes of a tidy tree back as that tree up to tokens and spans,
relative to the readers of the constructs that nest (`Grammar.ReadsBack`). Operators are the heart of it:
the shapes of an expression are read by climbing its left spine (`Climbs`), and an operand is read with a
limit that serves its context (`Serves`) exactly because it is in parentheses when it is weaker.
-/

namespace ClassScript

open Reader

/-! ## Tokens of given shapes -/

theorem word_of_shape {t : Token} {kind : TokenKind} {word : String}
    (shape : t.shape = ⟨kind, Text.ofString word, none⟩) : t.word = word := by
  have lexeme : t.lexeme = Text.ofString word := congrArg Shape.text shape
  rw [Token.word, lexeme, Text.shown_ofString]

theorem bare_of_shape {t : Token} {n : Name} (shape : t.shape = .name n.text) :
    (Name.ofToken t).bare = n.bare := by
  rw [Name.ofToken, Name.bare, word_of_shape shape, Name.bare]

theorem contents_of_shape {t : Token} {value : Text} (quotable : IsQuotable value)
    (shape : t.shape = .quoted value) : t.contents = value := by
  have lexeme : t.lexeme = .char '"' :: (value ++ [Glyph.char '"']) := congrArg Shape.text shape
  have inside : ∀ g ∈ value, (!Glyph.is '"' g) = true :=
    fun g found => by rw [quotable.1 g found, Bool.not_false]
  rw [Token.contents, lexeme, List.drop_succ_cons, List.drop_zero, List.takeWhile_append_of_pos inside,
    List.takeWhile_cons_of_neg (by decide), List.append_nil]

theorem annotation_of_shape {t : Token} {word : String} (shape : t.shape = .atName word) :
    Text.shown (t.lexeme.drop 1) = word := by
  have lexeme : t.lexeme = .char '@' :: Text.ofString word := congrArg Shape.text shape
  rw [lexeme, List.drop_succ_cons, List.drop_zero, Text.shown_ofString]

/-! ## Lists of trees -/

/-- A property of lists that is one of their members. -/
theorem of_mem {α : Type} {P : α → Prop} {all : List α → Prop}
    (cons : ∀ a l, all (a :: l) → P a ∧ all l) {l : List α} (holds : all l) : ∀ a ∈ l, P a := by
  induction l with
  | nil => simp
  | cons a l ih =>
    obtain ⟨first, rest⟩ := cons a l holds
    exact List.forall_mem_cons.2 ⟨first, ih rest⟩

theorem TypeExpr.shapesAll_eq (ts : List TypeExpr) : TypeExpr.shapesAll ts = ts.map TypeExpr.shapes :=
  eq_map rfl (fun _ _ => rfl) ts

theorem Stmt.shapesAll_eq (ss : List Stmt) : Stmt.shapesAll ss = (ss.map Stmt.shapes).flatten := by
  induction ss with
  | nil => rfl
  | cons s ss ih => rw [shapesAll, ih, List.map_cons, List.flatten_cons]

theorem TypeExpr.tidy_of_mem {ts : List TypeExpr} : TypeExpr.TidyAll ts → ∀ t ∈ ts, t.Tidy :=
  of_mem fun _ _ => id

theorem Expr.tidy_of_mem {es : List Expr} : Expr.TidyAll es → ∀ e ∈ es, e.Tidy := of_mem fun _ _ => id

theorem Param.tidy_of_mem {ps : List Param} : Param.TidyAll ps → ∀ p ∈ ps, p.Tidy := of_mem fun _ _ => id

theorem Stmt.tidy_of_mem {ss : List Stmt} : Stmt.TidyAll ss → ∀ s ∈ ss, s.Tidy := of_mem fun _ _ => id

theorem length_le_commas {s : List Shape} {ss : List (List Shape)} (found : s ∈ ss) :
    s.length ≤ (commas ss).length := by
  induction ss with
  | nil => cases found
  | cons s' ss ih =>
    rw [commas_cons, List.length_append]
    rcases List.mem_cons.1 found with rfl | later
    · omega
    · cases ss with
      | nil => cases later
      | cons s'' ss =>
        have inside := ih later
        rw [commas_cons, List.length_append] at inside
        rw [List.flatMap_cons, List.length_append, List.length_cons]
        omega

theorem length_le_flatten_of_mem {s : List Shape} {ss : List (List Shape)} (found : s ∈ ss) :
    s.length ≤ ss.flatten.length := by
  obtain ⟨before, behind, rfl⟩ := List.append_of_mem found
  rw [List.flatten_append, List.flatten_cons, List.length_append, List.length_append]
  omega

theorem TypeExpr.tidy_of_part {t t' : TypeExpr} (tidy : t.Tidy) (part : t' ∈ t.parts) : t'.Tidy := by
  cases t with
  | simple => cases part
  | generic m name args nullable => exact TypeExpr.tidy_of_mem tidy.2.2 t' part
  | function m ps result nullable =>
    rcases List.mem_append.1 part with inside | last
    · exact TypeExpr.tidy_of_mem tidy.2.1 t' inside
    · rw [List.mem_singleton.1 last]
      exact tidy.2.2

theorem TypeExpr.length_lt_of_part {t t' : TypeExpr} (part : t' ∈ t.parts) :
    t'.shapes.length < t.shapes.length := by
  have member {ts : List TypeExpr} (found : t' ∈ ts) :
      t'.shapes.length ≤ (commas (TypeExpr.shapesAll ts)).length := by
    rw [TypeExpr.shapesAll_eq]
    exact length_le_commas (List.mem_map_of_mem found)
  cases t with
  | simple => cases part
  | generic m name args nullable =>
    have inside := member (show t' ∈ args from part)
    rw [TypeExpr.shapes, List.length_cons, List.length_cons, List.length_append]
    omega
  | function m ps result nullable =>
    rw [TypeExpr.shapes, List.length_cons, List.length_append, List.length_cons, List.length_cons]
    rcases List.mem_append.1 part with found | last
    · have inside := member found
      omega
    · rw [List.mem_singleton.1 last]
      omega

/-! ## What a tree starts with -/

/-- Whether a token can start a type. -/
def startsType : TokenKind → Bool
  | .identifier | .symbol .leftParen => true
  | _ => false

theorem TypeExpr.starts (t : TypeExpr) (r : List Shape) : startsType (firstKind (t.shapes ++ r)) = true := by
  cases t <;> rfl

/-- Whether a token can start an expression. -/
def startsExpr : TokenKind → Bool
  | .identifier | .number | .string | .boolean | .keyword .nullWord | .keyword .thisWord
  | .keyword .superWord | .keyword .newWord | .keyword .vdomWord | .symbol .leftBracket
  | .symbol .leftParen | .symbol .bang | .symbol .minus => true
  | _ => false

theorem operand_starts {context strength : Nat} {s r : List Shape}
    (inside : ∀ r, startsExpr (firstKind (s ++ r)) = true) :
    startsExpr (firstKind (operandShapes context strength s ++ r)) = true := by
  unfold operandShapes
  split
  · rfl
  · exact inside r

theorem Expr.starts : ∀ e : Expr, e.Tidy → ∀ r, startsExpr (firstKind (e.shapes ++ r)) = true
  | .name _, _, _ | .number .., _, _ | .string _, _, _ | .boolean .., _, _ | .null _, _, _
  | .self _, _, _ | .create .., _, _ | .array .., _, _ | .lambda .., _, _ | .markup _, _, _ => rfl
  | .unary _ op _, _, _ => by cases op <;> rfl
  | .binary _ _ left _, ⟨tidy, _⟩, r => by
    rw [shapes, List.append_assoc]
    exact operand_starts (left.starts tidy)
  | .assign _ target _, ⟨_, tidy, _⟩, r => by
    rw [shapes, List.append_assoc]
    exact operand_starts (target.starts tidy)
  | .member _ object _, ⟨tidy, _⟩, r => by
    rw [shapes, List.append_assoc]
    rcases tidy with isParent | tidy
    · obtain ⟨m, rfl⟩ := Layout.isParent_eq isParent
      rfl
    · exact operand_starts (object.starts tidy)
  | .index _ object _, ⟨tidy, _⟩, r => by
    rw [shapes, List.append_assoc]
    exact operand_starts (object.starts tidy)
  | .call _ callee _, ⟨tidy, _⟩, r => by
    rw [shapes, List.append_assoc]
    rcases tidy with isParent | tidy
    · obtain ⟨m, rfl⟩ := Layout.isParent_eq isParent
      rfl
    · exact operand_starts (callee.starts tidy)

/-- Whether a token can start a declaration. -/
def startsDeclaration : TokenKind → Bool
  | .atName | .keyword .openWord | .keyword .classWord | .keyword .interfaceWord => true
  | _ => false

theorem Declaration.starts (d : Declaration) (r : List Shape) :
    startsDeclaration (firstKind (d.shapes ++ r)) = true := by
  obtain ⟨mark, annotations, heading, name, tps, fs, ms⟩ := d
  cases annotations with
  | cons a as => rfl
  | nil =>
    cases heading with
    | ofClass isOpen parent interfaces => cases isOpen <;> rfl
    | ofInterface parents => rfl

/-- Whether a token can start a statement. -/
def startsStmt (k : TokenKind) : Bool :=
  match k with
  | .keyword .importWord | .keyword .letWord | .keyword .returnWord | .keyword .ifWord
  | .keyword .matchWord | .keyword .foreachWord | .symbol .leftBrace => true
  | _ => startsDeclaration k || startsExpr k

theorem startsStmt_of_declaration {k : TokenKind} (starts : startsDeclaration k = true) :
    startsStmt k = true := by
  unfold startsStmt
  rw [starts, Bool.true_or]
  split <;> rfl

theorem startsStmt_of_expr {k : TokenKind} (starts : startsExpr k = true) : startsStmt k = true := by
  unfold startsStmt
  rw [starts, Bool.or_true]
  split <;> rfl

theorem Stmt.starts {s : Stmt} (tidy : s.Tidy) (r : List Shape) :
    startsStmt (firstKind (s.shapes ++ r)) = true := by
  cases s with
  | uses | binds | branch | select | each => rfl
  | block b =>
    cases b
    rfl
  | returns m value => cases value <;> rfl
  | does m e =>
    rw [shapes, List.append_assoc]
    exact startsStmt_of_expr (e.starts tidy _)
  | declares d => exact startsStmt_of_declaration (d.starts r)

/-- A token that starts something is of no class that does not. -/
theorem kind_ne_of_starts {starts : TokenKind → Bool} {k k' : TokenKind} (first : starts k = true)
    (other : starts k' = false) : k ≠ k' := by
  rintro rfl
  rw [first] at other
  cases other

/-- What starts with a token is not empty. -/
theorem ne_nil_of_starts {starts : TokenKind → Bool} {s : List Shape}
    (first : ∀ r, starts (firstKind (s ++ r)) = true) (other : starts .endOfInput = false) : s ≠ [] := by
  rintro rfl
  exact kind_ne_of_starts (first []) other rfl

theorem initialiser_first {P : TokenKind → Prop} (value : Option Expr) {r : List Shape}
    (some_value : P (.symbol .assign)) (none : P (firstKind r)) :
    P (firstKind (Expr.initialiserShapes value ++ r)) := by
  cases value with
  | none => exact none
  | some e => exact some_value

theorem typeSuffix_first {P : TokenKind → Prop} (type : Option TypeExpr) {r : List Shape}
    (some_type : P (.symbol .colon)) (none : P (firstKind r)) :
    P (firstKind (typeSuffixShapes type ++ r)) := by
  cases type with
  | none => exact none
  | some t => exact some_type

/-! ## What follows a tree -/

/-- How tightly the token binds to an operand in front of it. -/
def infixLimit (k : TokenKind) : Nat :=
  match Infix.ofKind? k with
  | none => 0
  | some i => i.precedence

/-- Whether a parenthesis in front of a token closes the parameters of a lambda. -/
def followsParameters (k : TokenKind) : Bool := k == .symbol .arrow || k == .symbol .colon

/-- Whether an expression that is read with the limit ends in front of a token, whatever it is. -/
def endsExpr (limit : Nat) (k : TokenKind) : Bool := decide (infixLimit k ≤ limit) && !followsParameters k

/-- An expression that is read with the limit ends in front of the shapes. -/
def Ends (limit : Nat) (r : List Shape) : Prop := endsExpr limit (firstKind r) = true

/-- Whether a type ends in front of a token. -/
def endsType (k : TokenKind) : Bool := k != .symbol .question && k != .symbol .less

/-- A type ends in front of the shapes. -/
def EndsType (r : List Shape) : Prop := endsType (firstKind r) = true

/-- The limits with which the operands of a context are read: the operand stands in parentheses if it
is weaker than the context. -/
inductive Serves : Nat → Nat → Prop
  | whole : Serves 0 0
  | value : Serves (Precedence.assignment - 1) 1
  | right (op : BinaryOp) : Serves (Precedence.binary op) (Layout.strength op + 1)
  | operand : Serves Precedence.unary 8

namespace Grammar

open Layout (strength exprStrength)

/-- What the readers of the constructs that nest do with the shapes of tidy trees of at most `n`
tokens: they read them back. -/
structure ReadsBack (g : Grammar) (n : Nat) : Prop where
  statement : ∀ s : Stmt, s.Tidy → s.shapes.length ≤ n → ∀ depth r, firstKind r ≠ .keyword .elseWord →
    Reads (g.statement depth) s.shapes r fun a => a.bare = s.bare
  expression : ∀ e : Expr, e.Tidy → ∀ limit context, Serves limit context → e.isSheltered context = true →
    (operandShapes context (exprStrength e) e.shapes).length ≤ n → ∀ depth r, Ends limit r →
    Reads (g.expression depth limit) (operandShapes context (exprStrength e) e.shapes) r
      fun a => a.bare = e.bare
  type : ∀ t : TypeExpr, t.Tidy → t.shapes.length ≤ n → ∀ depth r, EndsType r →
    Reads (g.type depth) t.shapes r fun a => a.bare = t.bare
  element : ∀ e : Element, e.Tidy → e.shapes.length ≤ n → ∀ depth r,
    Reads (g.element depth) e.shapes r fun a => a.bare = e.bare

theorem reads_name (n : Name) (r : List Shape) : Reads name [.name n.text] r fun a => a.bare = n.bare :=
  reads_expect_bind rfl fun _ shape => reads_pure (bare_of_shape shape)

theorem reads_names {names : List Name} (some_names : names ≠ []) {r : List Shape}
    (ends : firstKind r ≠ .symbol .comma) :
    Reads (commaList name) (nameShapes names) r fun ns => ns.map Name.bare = names.map Name.bare :=
  reads_commaList (fun _ => True) (fun _ => trivial) some_names
    (fun n _ r _ => reads_name n r) trivial ends

/-- One level deeper, there is room, or the nesting may be too deep. -/
theorem reads_deeper {deep : Prop} {depth : Nat} (room : deep ∨ depth + 1 ≤ maxNesting) {α : Type}
    {f : Nat → Reader α} {s r : List Shape} {Q : α → Prop} (rest : ReadsOr deep (f (depth + 1)) s r Q) :
    ReadsOr deep (enter depth >>= f) s r Q := by
  unfold enter
  split
  · next tooDeep =>
    intro ts tr last _ _ _
    exact .inr ⟨room.resolve_right (Nat.not_le.2 tooDeep), _, rfl⟩
  · exact rest

theorem reads_enter {depth : Nat} {α : Type} {f : Nat → Reader α} {s r : List Shape} {Q : α → Prop}
    (rest : ∀ depth, Reads (f depth) s r Q) : Reads (enter depth >>= f) s r Q :=
  reads_deeper (.inl trivial) (rest (depth + 1))

/-- In front of what ends a type, the type is read back. -/
def ReadsType (deep : Prop) (g : Grammar) (depth : Nat) (t : TypeExpr) : Prop :=
  ∀ r, EndsType r → ReadsOr deep (g.type depth) t.shapes r fun a => a.bare = t.bare

/-- Types are read back if each of them is. -/
theorem reads_typeList {deep : Prop} {g : Grammar} {depth : Nat} {ts : List TypeExpr} (some_types : ts ≠ [])
    (each : ∀ t ∈ ts, g.ReadsType deep depth t) {r : List Shape} (last : EndsType r)
    (ends : firstKind r ≠ .symbol .comma) :
    ReadsOr deep (g.types depth) (commas (TypeExpr.shapesAll ts)) r
      fun bs => TypeExpr.bareAll bs = TypeExpr.bareAll ts := by
  rw [TypeExpr.shapesAll_eq]
  simp only [TypeExpr.bareAll_eq]
  exact reads_commaList EndsType (fun _ => rfl) some_types each last ends

section Parts

variable {g : Grammar} {n : Nat} (readsBack : g.ReadsBack n) (depth : Nat)
include readsBack

theorem reads_types {ts : List TypeExpr} (some_types : ts ≠ []) (tidy : TypeExpr.TidyAll ts)
    (small : (commas (TypeExpr.shapesAll ts)).length ≤ n) {r : List Shape} (last : EndsType r)
    (ends : firstKind r ≠ .symbol .comma) :
    Reads (g.types depth) (commas (TypeExpr.shapesAll ts)) r
      fun bs => TypeExpr.bareAll bs = TypeExpr.bareAll ts := by
  refine reads_typeList some_types (fun t found => ?_) last ends
  rw [TypeExpr.shapesAll_eq] at small
  have short := length_le_commas (List.mem_map_of_mem (f := TypeExpr.shapes) found)
  exact readsBack.type t (TypeExpr.tidy_of_mem tidy t found) (by omega) depth

theorem reads_typed {type : Option TypeExpr} (tidy : TypeExpr.TidyOption type)
    (small : (typeSuffixShapes type).length ≤ n) {r : List Shape} (last : EndsType r)
    (ends : firstKind r ≠ .symbol .colon) :
    Reads (g.typeAnnotation depth) (typeSuffixShapes type) r
      fun t => t.map TypeExpr.bare = type.map TypeExpr.bare := by
  cases type with
  | none => exact reads_accept_no ends (reads_pure rfl)
  | some t =>
    have short : t.shapes.length ≤ n := Nat.le_of_succ_le small
    refine reads_accept_yes rfl (reads_last_bind (readsBack.type t tidy short depth r last) ?_)
    intro a same
    exact reads_pure (by rw [Option.map_some, Option.map_some, same])

/-- An expression that stands by itself is read with no limit. -/
theorem reads_value {e : Expr} (tidy : e.Tidy) (small : e.shapes.length ≤ n) {r : List Shape}
    (ends : Ends 0 r) : Reads (g.expression depth 0) e.shapes r fun a => a.bare = e.bare := by
  have reads := readsBack.expression e tidy 0 0 .whole (Expr.sheltered_iff.2 fun weak => nomatch weak)
  simp only [operandShapes, Nat.not_lt_zero, if_false] at reads
  exact reads small depth r ends

theorem reads_initialiser {value : Option Expr} (tidy : Expr.TidyOption value)
    (small : (Expr.initialiserShapes value).length ≤ n) {r : List Shape} (last : Ends 0 r)
    (ends : firstKind r ≠ .symbol .assign) :
    Reads (g.initialiser depth) (Expr.initialiserShapes value) r
      fun e => Expr.bareOption e = Expr.bareOption value := by
  cases value with
  | none => exact reads_accept_no ends (reads_pure rfl)
  | some e =>
    have short : e.shapes.length ≤ n := Nat.le_of_succ_le small
    refine reads_accept_yes rfl (reads_last_bind (reads_value readsBack depth tidy short last) ?_)
    intro a same
    exact reads_pure (by rw [Expr.bareOption, Expr.bareOption, same])

theorem reads_block {b : Block} (tidy : b.Tidy) (small : b.shapes.length ≤ n + 1) {r : List Shape} :
    Reads (g.block depth) b.shapes r fun a => a.bare = b.bare := by
  obtain ⟨mark, ss⟩ := b
  have short : ∀ s ∈ ss, s.shapes.length ≤ n := by
    intro s found
    have inside := length_le_flatten_of_mem (List.mem_map_of_mem (f := Stmt.shapes) found)
    rw [Block.shapes, List.length_cons, List.length_append, Stmt.shapesAll_eq] at small
    omega
  have inside : Reads (untilToken (.symbol .rightBrace) (g.statement depth))
      ((ss.map Stmt.shapes).flatten ++ [Shape.symbol .rightBrace]) r
      fun bs => bs.map Stmt.bare = ss.map Stmt.bare := by
    refine reads_untilToken (fun r => firstKind r ≠ .keyword .elseWord) (.symbol .rightBrace) ?_ ?_ ?_
      (ne_of_beq_false rfl)
    · intro s found r follows
      exact readsBack.statement s (Stmt.tidy_of_mem tidy s found) (short s found) depth r follows
    · intro s found r
      have starts := Stmt.starts (Stmt.tidy_of_mem tidy s found) r
      exact ⟨kind_ne_of_starts starts rfl, kind_ne_of_starts starts rfl,
        kind_ne_of_starts starts rfl⟩
    · exact fun s found => ne_nil_of_starts (Stmt.starts (Stmt.tidy_of_mem tidy s found)) rfl
  rw [Block.shapes, Stmt.shapesAll_eq]
  refine reads_expect_bind rfl fun start _ => reads_last_bind inside fun bs all => ?_
  refine reads_markFrom_bind fun m _ => reads_pure ?_
  rw [Block.bare, Block.bare, Stmt.bareAll_eq, Stmt.bareAll_eq, all]

/-- A parameter is followed by another one or by the closing parenthesis. -/
def FollowsParam (r : List Shape) : Prop :=
  firstKind r = .symbol .comma ∨ firstKind r = .symbol .rightParen

theorem reads_parameter {p : Param} (tidy : p.Tidy) (small : p.shapes.length ≤ n) {r : List Shape}
    (follows : FollowsParam r) : Reads (g.parameter depth) p.shapes r fun a => a.bare = p.bare := by
  obtain ⟨mark, name, type, fallback⟩ := p
  obtain ⟨_, tidyType, tidyFallback⟩ := tidy
  obtain ⟨ends, noAssign, endsType, noColon⟩ : Ends 0 r ∧ firstKind r ≠ .symbol .assign ∧
      EndsType r ∧ firstKind r ≠ .symbol .colon := by
    rcases follows with follows | follows <;> rw [Ends, EndsType, follows] <;>
      exact ⟨rfl, ne_of_beq_false rfl, rfl, ne_of_beq_false rfl⟩
  rw [Param.shapes, List.length_cons, List.length_append] at small
  rw [Param.shapes]
  refine reads_expect_bind rfl fun start shape => ?_
  refine reads_bind (reads_typed readsBack depth tidyType (by omega) ?_ ?_) fun t sameType => ?_
  · exact initialiser_first (P := fun k => ClassScript.endsType k = true) fallback rfl endsType
  · exact initialiser_first (P := fun k => k ≠ .symbol .colon) fallback (ne_of_beq_false rfl) noColon
  · refine reads_last_bind (reads_initialiser readsBack depth tidyFallback (by omega) ends noAssign)
      fun e sameValue => ?_
    refine reads_markFrom_bind fun m _ => reads_pure ?_
    rw [Param.bare, Param.bare, bare_of_shape shape, sameType, sameValue]

/-- Parameters behind an opening parenthesis, with the closing one. -/
theorem reads_parameters {ps : List Param} (tidy : Param.TidyAll ps)
    (small : (commas (Param.shapesAll ps)).length ≤ n) {r : List Shape} :
    Reads (g.parameters depth) (commas (Param.shapesAll ps) ++ [Shape.symbol .rightParen]) r
      fun bs => Param.bareAll bs = Param.bareAll ps := by
  cases ps with
  | nil => exact reads_accept_yes rfl (reads_pure rfl)
  | cons p ps =>
    have starts : firstKind (commas (Param.shapesAll (p :: ps)) ++ [Shape.symbol .rightParen] ++ r) ≠
        .symbol .rightParen := by
      obtain ⟨mark, name, type, fallback⟩ := p
      rw [Param.shapesAll, commas_cons]
      exact ne_of_beq_false rfl
    have inside : Reads (commaList (g.parameter depth)) (commas (Param.shapesAll (p :: ps)))
        (.symbol .rightParen :: r) fun bs => bs.map Param.bare = (p :: ps).map Param.bare := by
      rw [Param.shapesAll_eq] at small ⊢
      refine reads_commaList FollowsParam (fun _ => .inl rfl) (List.cons_ne_nil _ _) ?_ (.inr rfl)
        (ne_of_beq_false rfl)
      intro p found r follows
      have short := length_le_commas (List.mem_map_of_mem (f := Param.shapes) found)
      exact reads_parameter readsBack depth (Param.tidy_of_mem tidy p found) (by omega) follows
    refine reads_accept_no starts (reads_bind inside fun bs all => ?_)
    refine reads_expect_bind rfl fun _ _ => reads_pure ?_
    rw [Param.bareAll_eq, Param.bareAll_eq, all]

end Parts

/-! ## Types -/

theorem bare_asNullable (t : TypeExpr) (span : Span) :
    (t.asNullable span).bare = t.bare.asNullable Span.none := by
  cases t <;> rfl

section Types

variable {deep : Prop} {g : Grammar} (depth : Nat)

/-- The question mark behind a type, if there is one. -/
theorem reads_question {type : TypeExpr} (start : Token) (nullable : Bool) {r : List Shape}
    (ends : EndsType r) :
    ReadsOr deep (do
      if ← accept (.symbol .question) then return type.asNullable (← spanFrom start)
      else return type) (questionShapes nullable) r
      fun a => a.bare = if nullable then type.bare.asNullable Span.none else type.bare := by
  cases nullable with
  | true =>
    refine reads_accept_yes rfl (reads_spanFrom_bind fun span => reads_pure ?_)
    rw [bare_asNullable, if_pos rfl]
  | false =>
    have other : firstKind r ≠ .symbol .question := by
      intro question
      rw [EndsType, question] at ends
      cases ends
    exact reads_accept_no other (reads_pure rfl)

theorem question_first {P : TokenKind → Prop} (nullable : Bool) {r : List Shape}
    (some_question : P (.symbol .question)) (none : P (firstKind r)) :
    P (firstKind (questionShapes nullable ++ r)) := by
  cases nullable with
  | true => exact some_question
  | false => exact none

theorem reads_functionTypeParams {ts : List TypeExpr} (each : ∀ t ∈ ts, g.ReadsType deep depth t)
    {r : List Shape} :
    ReadsOr deep (g.functionTypeParams depth) (commas (TypeExpr.shapesAll ts) ++ [Shape.symbol .rightParen]) r
      fun bs => TypeExpr.bareAll bs = TypeExpr.bareAll ts := by
  cases ts with
  | nil => exact reads_accept_yes rfl (reads_pure rfl)
  | cons t ts =>
    have starts : firstKind (commas (TypeExpr.shapesAll (t :: ts)) ++ [Shape.symbol .rightParen] ++ r) ≠
        .symbol .rightParen := by
      rw [TypeExpr.shapesAll, commas_cons, List.append_assoc, List.append_assoc]
      exact kind_ne_of_starts (t.starts _) rfl
    refine reads_accept_no starts ?_
    refine reads_bind (reads_typeList (List.cons_ne_nil _ _) each rfl (ne_of_beq_false rfl)) ?_
    exact fun bs all => reads_expect_bind rfl fun _ _ => reads_pure all

theorem reads_simpleType (name : String) {r : List Shape} (ends : firstKind r ≠ .symbol .less) :
    ReadsOr deep (g.namedType depth) [.name name] r fun a => a.bare = .simple Mark.blank name false := by
  refine reads_next_bind fun start shape => reads_accept_no ends (reads_pure ?_)
  rw [TypeExpr.bare, word_of_shape shape]

theorem reads_genericType (name : String) {args : List TypeExpr} (some_args : args ≠ [])
    (each : ∀ t ∈ args, g.ReadsType deep depth t) {r : List Shape} :
    ReadsOr deep (g.namedType depth)
      (.name name :: .symbol .less :: (commas (TypeExpr.shapesAll args) ++ [Shape.symbol .greater])) r
      fun a => a.bare = .generic Mark.blank name (TypeExpr.bareAll args) false := by
  refine reads_next_bind fun start shape => reads_accept_yes rfl ?_
  refine reads_bind (reads_typeList some_args each rfl (ne_of_beq_false rfl)) fun bs all => ?_
  refine reads_expect_bind rfl fun _ _ => reads_markFrom_bind fun m _ => reads_pure ?_
  rw [TypeExpr.bare, word_of_shape shape, all]

theorem reads_functionType {ps : List TypeExpr} {result : TypeExpr}
    (each : ∀ t ∈ ps, g.ReadsType deep depth t) (returned : g.ReadsType deep depth result)
    {r : List Shape} (ends : EndsType r) :
    ReadsOr deep (g.functionType depth) (.symbol .leftParen :: (commas (TypeExpr.shapesAll ps) ++
      .symbol .rightParen :: .symbol .arrow :: result.shapes)) r
      fun a => a.bare = .function Mark.blank (TypeExpr.bareAll ps) result.bare false := by
  have split : commas (TypeExpr.shapesAll ps) ++ .symbol .rightParen :: .symbol .arrow :: result.shapes =
      (commas (TypeExpr.shapesAll ps) ++ [Shape.symbol .rightParen]) ++ .symbol .arrow :: result.shapes := by
    rw [List.append_assoc, List.singleton_append]
  rw [split]
  refine reads_next_bind fun start _ => ?_
  refine reads_bind (reads_functionTypeParams depth each) fun bs all => ?_
  refine reads_expect_bind rfl fun _ _ => ?_
  refine reads_last_bind (returned r ends) fun t same => ?_
  refine reads_markFrom_bind fun m _ => reads_pure ?_
  rw [TypeExpr.bare, all, same]

/-- A type is read back if there is room for it and its parts are read back, one level deeper. -/
theorem reads_typeOf {t : TypeExpr} (tidy : t.Tidy) (room : deep ∨ depth + 1 ≤ maxNesting)
    (parts : ∀ t' ∈ t.parts, g.ReadsType deep (depth + 1) t') {r : List Shape} (ends : EndsType r) :
    ReadsOr deep (g.typeStep depth) t.shapes r fun a => a.bare = t.bare := by
  have noLess : firstKind r ≠ .symbol .less := by
    intro less
    rw [EndsType, less] at ends
    cases ends
  unfold typeStep
  refine reads_deeper room (reads_peek_bind fun start kind => ?_)
  dsimp only
  cases t with
  | simple m name nullable =>
    have identifier : start.kind = .identifier := kind
    have other := question_first (P := fun k => k ≠ .symbol .less) nullable (ne_of_beq_false rfl) noLess
    rw [identifier]
    refine reads_take_bind (reads_simpleType (depth + 1) name other) fun t same => ?_
    refine reads_mono (reads_question start nullable ends) fun a found => ?_
    rw [found, same]
    cases nullable <;> rfl
  | generic m name args nullable =>
    have identifier : start.kind = .identifier := kind
    have split : TypeExpr.shapes (.generic m name args nullable) = (.name name :: .symbol .less ::
        (commas (TypeExpr.shapesAll args) ++ [Shape.symbol .greater])) ++ questionShapes nullable := by
      rw [TypeExpr.shapes, List.cons_append, List.cons_append, List.append_assoc, List.singleton_append]
    rw [identifier, split]
    refine reads_bind (reads_genericType (depth + 1) name tidy.2.1 parts) fun t same => ?_
    refine reads_mono (reads_question start nullable ends) fun a found => ?_
    rw [found, same]
    cases nullable <;> rfl
  | function m ps result nullable =>
    have left : start.kind = .symbol .leftParen := kind
    obtain ⟨each, returned⟩ := List.forall_mem_append.1 parts
    rw [left, TypeExpr.shapes]
    refine reads_last_bind (reads_functionType (depth + 1) each (returned result List.mem_cons_self) ends)
      fun t same => ?_
    refine reads_mono (reads_question start false ends) fun a found => ?_
    rw [found, same, tidy.1]
    rfl

theorem reads_typeStep {n : Nat} (readsBack : g.ReadsBack n) {t : TypeExpr} (tidy : t.Tidy)
    (small : t.shapes.length ≤ n + 1) {r : List Shape} (ends : EndsType r) :
    Reads (g.typeStep depth) t.shapes r fun a => a.bare = t.bare := by
  refine reads_typeOf depth tidy (.inl trivial) (fun t' part => ?_) ends
  have shorter := TypeExpr.length_lt_of_part part
  exact readsBack.type t' (TypeExpr.tidy_of_part tidy part) (by omega) (depth + 1)

end Types

/-! ## Operands -/

/-- What stands behind the matching parenthesis decides between a lambda and a group. -/
theorem lambdaAhead_shapes {ts : List Token} {s r : List Shape} (balanced : Balanced s)
    (kinds : ts.map Token.kind =
      (Shape.symbol .leftParen :: (s ++ .symbol .rightParen :: r)).map Shape.kind) :
    lambdaAhead 1 (ts.drop 1) = followsParameters (firstKind r) := by
  rw [List.map_cons, List.map_append, List.map_cons] at kinds
  obtain ⟨left, behind, rfl, -, kinds⟩ := List.map_eq_cons_iff.1 kinds
  obtain ⟨ts₁, behind, rfl, inside, kinds⟩ := List.map_eq_append_iff.1 kinds
  obtain ⟨right, ts₂, rfl, isRight, kinds⟩ := List.map_eq_cons_iff.1 kinds
  have isRight : right.kind = .symbol .rightParen := isRight
  rw [List.drop_succ_cons, List.drop_zero, lambdaAhead_balanced balanced inside]
  cases ts₂ with
  | nil =>
    have none : r = [] := List.map_eq_nil_iff.1 kinds.symm
    rw [none, lambdaAhead.eq_def]
    simp only [isRight, Nat.le_refl, if_true]
    rfl
  | cons t ts₂ =>
    rw [lambdaAhead_closed isRight, kind_of_kinds kinds]
    rfl

/-! ## Markup -/

/-- The gap in front of a piece is the one that its shape says. -/
theorem gap_text {k k' : Shape} {last t : Token} (joint : k'.gap = some true ∨ k'.gap = some false ∧ Joins k k')
    (apart : ∀ gap, k'.gap = some gap → last.isApart t = gap) :
    (if t.span.start > last.span.stop then Text.ofString " " else Text.ofString "") ++ k'.text =
      if k'.gap = some true then .char ' ' :: k'.text else k'.text := by
  rcases joint with gap | ⟨gap, -⟩
  · have later : last.span.stop < t.span.start := of_decide_eq_true (apart _ gap)
    rw [if_pos later, if_pos gap]
    rfl
  · have near : ¬ last.span.stop < t.span.start := of_decide_eq_false (apart _ gap)
    have noGap : ¬ k'.gap = some true := by
      rw [gap]
      decide
    rw [if_neg near, if_neg noGap]
    rfl

/-- In front of a token that ends it, a text is read on as the run it is. -/
theorem reads_textRest {k : Shape} {ks r : List Shape} (follows : Follows k ks)
    (ends : endsText (firstKind r) = true) (sofar : Text) (fuel : Nat) (enough : ks.length ≤ fuel) :
    Reads (textRest sofar fuel) ks r fun all => all = sofar ++ joined ks := by
  induction ks generalizing k sofar fuel with
  | nil =>
    cases fuel with
    | zero => exact reads_pure (List.append_nil _).symm
    | succ fuel =>
      refine reads_peek_bind fun t kind => ?_
      rw [kind, List.nil_append, if_pos ends]
      exact reads_pure (List.append_nil _).symm
  | cons k' ks ih =>
    obtain ⟨piece, joint, more⟩ := follows
    cases fuel with
    | zero => cases enough
    | succ fuel =>
      -- Whether there is a gap is seen from the token taken last, so the run is followed token by token.
      intro ts tr last fit behind some_behind
      cases fit with
      | @cons _ t ts _ _ shape apart rest =>
        obtain ⟨t', tr, rfl⟩ := List.exists_cons_of_ne_nil some_behind
        have inText : ¬ endsText t.kind = true := by
          rw [kind_of_shape shape, piece.inText]
          exact Bool.false_ne_true
        have spaced : sofar ++ (if t.span.start > last.span.stop then Text.ofString " " else Text.ofString "") ++
            t.lexeme = sofar ++ if k'.gap = some true then .char ' ' :: k'.text else k'.text := by
          have lexeme : t.lexeme = k'.text := congrArg Shape.text shape
          rw [lexeme, List.append_assoc, gap_text joint apart]
        have taken : next ⟨last, t :: ts ++ t' :: tr⟩ = .ok (t, ⟨t, ts ++ t' :: tr⟩) := by
          cases ts <;> rfl
        have stepped : textRest sofar (fuel + 1) ⟨last, t :: ts ++ t' :: tr⟩ =
            textRest (sofar ++ if k'.gap = some true then .char ' ' :: k'.text else k'.text) fuel
              ⟨t, ts ++ t' :: tr⟩ := by
          have looked : peek ⟨last, t :: ts ++ t' :: tr⟩ = .ok (t, ⟨last, t :: ts ++ t' :: tr⟩) := rfl
          have got : (get : Reader Cursor) ⟨last, t :: ts ++ t' :: tr⟩ =
              .ok (⟨last, t :: ts ++ t' :: tr⟩, ⟨last, t :: ts ++ t' :: tr⟩) := rfl
          rw [textRest, bind_of_ok looked, if_neg inText, ← spaced, bind_of_ok got]
          exact bind_of_ok taken
        rw [stepped, List.getLastD_cons, joined, ← List.append_assoc]
        exact ih more _ fuel (Nat.le_of_succ_le_succ enough) ts (t' :: tr) t rest behind some_behind

/-- The pieces of a run are read back as its text. -/
theorem reads_text {t : Text} (isRun : IsRun t) {r : List Shape} (ends : endsText (firstKind r) = true) :
    Reads text t.pieces r fun c => ∃ m, c = .text m t := by
  obtain ⟨k, ks, first, piece, follows, rfl⟩ := isRun
  rw [pieces_joined first piece follows]
  refine reads_next_bind fun start shape => reads_get_bind fun c kinds => ?_
  have enough : ks.length ≤ c.ahead.length := by
    have long := length_of_kinds kinds
    rw [List.length_append] at long
    omega
  refine reads_last_bind (reads_textRest follows ends start.lexeme _ enough) fun all same => ?_
  refine reads_markFrom_bind fun m _ => reads_pure ⟨m, ?_⟩
  have lexeme : start.lexeme = k.text := congrArg Shape.text shape
  rw [same, lexeme, joined, first, if_neg (by decide)]

theorem pieces_first {t : Text} (isRun : IsRun t) (r : List Shape) :
    endsText (firstKind (t.pieces ++ r)) = false := by
  obtain ⟨k, ks, first, piece, follows, rfl⟩ := isRun
  rw [pieces_joined first piece follows]
  exact piece.inText

theorem isName_ofWord (word : String) : (TokenKind.ofWord word).isName = true := by
  rcases Lexer.ofWord_cases word with ⟨kind, -⟩ | ⟨k, kind, -⟩ | kind <;> rw [kind] <;> rfl

section Markup

variable {g : Grammar} {n : Nat} (readsBack : g.ReadsBack n) (depth : Nat)
include readsBack

theorem reads_attr (name : String) {value : Expr} (tidy : value.Tidy) (small : value.shapes.length ≤ n)
    {r : List Shape} :
    Reads (g.attr depth) (.word name :: .symbol .assign :: braceShapes value.isQuoted value.shapes) r
      fun a => a.name = name ∧ a.value.bare = value.bare := by
  unfold attr
  refine reads_next_bind fun start shape => reads_expect_bind rfl fun _ _ => ?_
  refine reads_peek_bind fun t kind => ?_
  have rest : ∀ e : Expr, e.bare = value.bare →
      Reads (do return (⟨← markFrom start start, start.word, e⟩ : Attribute)) [] r
        fun a => a.name = name ∧ a.value.bare = value.bare :=
    fun e same => reads_markFrom_bind fun _ _ => reads_pure ⟨word_of_shape shape, same⟩
  cases quoted : value.isQuoted with
  | true =>
    cases value with
    | string q =>
      have kind : t.kind = .string := kind
      rw [kind]
      refine reads_next_bind fun t shape => rest _ ?_
      rw [Expr.bare, Expr.bare, Quotation.bare, Quotation.bare, contents_of_shape tidy shape]
    | _ => cases quoted
  | false =>
    rw [quoted] at kind
    have kind : t.kind = .symbol .leftBrace := kind
    rw [kind]
    refine reads_next_bind fun _ _ => reads_bind (reads_value readsBack depth tidy small rfl) fun e same => ?_
    exact reads_expect_bind rfl fun _ _ => rest e same

omit readsBack in
theorem attribute_shapes (m : Mark) (name : String) (value : Expr) (rest : List Attribute) :
    Attribute.shapesAll (⟨m, name, value⟩ :: rest) =
      (.word name :: .symbol .assign :: braceShapes value.isQuoted value.shapes) ++
        Attribute.shapesAll rest := by
  rw [Attribute.shapesAll, List.cons_append, List.cons_append]

omit readsBack in
theorem length_le_braceShapes (bare : Bool) (s : List Shape) : s.length ≤ (braceShapes bare s).length := by
  cases bare with
  | true => exact Nat.le_refl _
  | false =>
    rw [braceShapes, if_neg Bool.false_ne_true, List.length_cons, List.length_append]
    omega

theorem reads_attributesUpTo {as : List Attribute} (tidy : Attribute.TidyAll as)
    (small : (Attribute.shapesAll as).length ≤ n) {r : List Shape}
    (ends : (firstKind r).isName = false) (fuel : Nat) (enough : as.length ≤ fuel) :
    Reads (g.attributesUpTo depth fuel) (Attribute.shapesAll as) r
      fun bs => Attribute.bareAll bs = Attribute.bareAll as := by
  induction as generalizing fuel with
  | nil =>
    cases fuel with
    | zero => exact reads_pure rfl
    | succ fuel =>
      refine reads_peek_bind fun t kind => ?_
      have other : ¬ t.kind.isName = true := by
        rw [kind, Attribute.shapesAll, List.nil_append, ends]
        exact Bool.false_ne_true
      rw [if_neg other]
      exact reads_pure rfl
  | cons a as ih =>
    obtain ⟨m, name, value⟩ := a
    obtain ⟨-, tidyValue, tidyRest⟩ := tidy
    cases fuel with
    | zero => cases enough
    | succ fuel =>
      have inside := length_le_braceShapes value.isQuoted value.shapes
      rw [Attribute.shapesAll, List.length_cons, List.length_cons, List.length_append] at small
      refine reads_peek_bind fun t kind => ?_
      have named : t.kind.isName = true := by
        rw [kind]
        exact isName_ofWord name
      rw [if_pos named, attribute_shapes]
      refine reads_bind (reads_attr readsBack depth name tidyValue (by omega)) fun b same => ?_
      refine reads_last_bind (ih tidyRest (by omega) fuel (Nat.le_of_succ_le_succ enough)) fun bs all => ?_
      refine reads_pure ?_
      obtain ⟨_, _, _⟩ := b
      obtain ⟨rfl, sameValue⟩ := same
      rw [Attribute.bareAll, Attribute.bareAll, all, sameValue]

theorem reads_hole {e : Expr} (tidy : e.Tidy) (small : e.shapes.length ≤ n) {r : List Shape} :
    Reads (g.hole depth) (braceShapes false e.shapes) r fun c => ∃ m a, c = .hole m a ∧ a.bare = e.bare := by
  refine reads_next_bind fun _ _ => reads_bind (reads_value readsBack depth tidy small rfl) fun a same => ?_
  exact reads_expect_bind rfl fun _ _ => reads_markFrom_bind fun m _ => reads_pure ⟨m, a, rfl, same⟩

omit readsBack in
theorem reads_closingTag (tag : String) {r : List Shape} :
    Reads (closingTag tag) [.symbol .lessSlash, .word tag, .symbol .greater] r fun _ => True := by
  unfold closingTag
  refine reads_next_bind fun _ _ => reads_next_bind fun t shape => ?_
  have same : ¬ (t.word != tag) = true := by
    rw [word_of_shape shape, bne_self_eq_false]
    exact Bool.false_ne_true
  dsimp only
  rw [if_neg same]
  exact reads_expect_bind rfl fun _ _ => reads_pure trivial

omit readsBack in
/-- A text ends in front of children that start with no text, and in front of a closing tag. -/
theorem children_end {cs : List Child} (noText : Child.startsText cs = false) {s r : List Shape} :
    endsText (firstKind (Child.shapesAll cs ++ (.symbol .lessSlash :: s) ++ r)) = true := by
  cases cs with
  | nil => rfl
  | cons c cs =>
    cases c with
    | element e =>
      obtain ⟨_, _, _, _, _⟩ := e
      rfl
    | text m t => cases noText
    | hole m e => rfl

/-- Children with the closing tag of their element. -/
theorem reads_childrenUpTo (tag : String) {cs : List Child} (tidy : Child.TidyAll cs)
    (small : (Child.shapesAll cs).length ≤ n) {r : List Shape} (fuel : Nat) (enough : cs.length < fuel) :
    Reads (g.childrenUpTo depth tag fuel)
      (Child.shapesAll cs ++ [Shape.symbol .lessSlash, .word tag, .symbol .greater]) r
      fun bs => Child.bareAll bs = Child.bareAll cs := by
  induction cs generalizing fuel with
  | nil =>
    cases fuel with
    | zero => cases enough
    | succ fuel =>
      refine reads_peek_bind fun t kind => ?_
      have kind : t.kind = .symbol .lessSlash := kind
      rw [kind]
      exact reads_last_bind (reads_closingTag tag) fun _ _ => reads_pure rfl
  | cons c cs ih =>
    cases fuel with
    | zero => cases enough
    | succ fuel =>
      have left : cs.length < fuel := Nat.lt_of_succ_lt_succ enough
      refine reads_peek_bind fun ahead kind => ?_
      cases c with
      | element e =>
        obtain ⟨tidyElement, tidyRest, -⟩ := tidy
        rw [Child.shapesAll, List.length_append] at small
        have kind : ahead.kind = .symbol .less := by
          obtain ⟨_, _, _, _, _⟩ := e
          exact kind
        rw [kind, Child.shapesAll, List.append_assoc]
        refine reads_bind (readsBack.element e tidyElement (by omega) depth _) fun b same => ?_
        refine reads_last_bind (ih tidyRest (by omega) fuel left) fun bs all => reads_pure ?_
        rw [Child.bareAll, Child.bareAll, same, all]
      | hole m e =>
        obtain ⟨tidyValue, tidyRest⟩ := tidy
        have inside := length_le_braceShapes false e.shapes
        rw [Child.shapesAll, List.length_append] at small
        have kind : ahead.kind = .symbol .leftBrace := kind
        rw [kind, Child.shapesAll, List.append_assoc]
        refine reads_bind (reads_hole readsBack depth tidyValue (by omega)) fun b same => ?_
        refine reads_last_bind (ih tidyRest (by omega) fuel left) fun bs all => reads_pure ?_
        obtain ⟨_, a, rfl, same⟩ := same
        rw [Child.bareAll, Child.bareAll, same, all]
      | text m t =>
        obtain ⟨isRun, tidyRest, noText⟩ := tidy
        rw [Child.shapesAll, List.length_append] at small
        rw [Child.shapesAll, List.append_assoc] at kind ⊢
        have inText : endsText ahead.kind = false := by
          rw [kind, List.append_assoc]
          exact pieces_first isRun _
        split
        iterate 4
          next other =>
            rw [other] at inText
            cases inText
        refine reads_bind (reads_text isRun (children_end noText)) fun b same => ?_
        refine reads_last_bind (ih tidyRest (by omega) fuel left) fun bs all => reads_pure ?_
        obtain ⟨_, rfl⟩ := same
        rw [Child.bareAll, Child.bareAll, all]

omit readsBack in
theorem length_le_attributes (as : List Attribute) : as.length ≤ (Attribute.shapesAll as).length := by
  induction as with
  | nil => exact Nat.le_refl 0
  | cons a as ih =>
    obtain ⟨m, name, value⟩ := a
    rw [attribute_shapes, List.length_append, List.length_cons, List.length_cons]
    omega

omit readsBack in
theorem length_le_children {cs : List Child} (tidy : Child.TidyAll cs) :
    cs.length ≤ (Child.shapesAll cs).length := by
  induction cs with
  | nil => exact Nat.le_refl 0
  | cons c cs ih =>
    cases c with
    | element e =>
      obtain ⟨_, tag, attributes, children, selfClosing⟩ := e
      have more := ih tidy.2.1
      rw [Child.shapesAll, Element.shapes, List.length_append, List.length_cons, List.length_cons]
      omega
    | text m t =>
      obtain ⟨k, ks, first, piece, follows, rfl⟩ := tidy.1
      have more := ih tidy.2.1
      rw [Child.shapesAll, pieces_joined first piece follows, List.length_append, List.length_cons, List.length_cons]
      omega
    | hole m e =>
      have more := ih tidy.2
      rw [Child.shapesAll, List.length_append, List.length_cons, braceShapes, if_neg Bool.false_ne_true,
        List.length_cons]
      omega

/-- An element from its tag on, at some depth. -/
theorem reads_elementStep {e : Element} (tidy : e.Tidy) (small : e.shapes.length ≤ n + 1) {r : List Shape} :
    Reads (g.elementStep depth) e.shapes r fun a => a.bare = e.bare := by
  obtain ⟨m, tag, attributes, children, selfClosing⟩ := e
  obtain ⟨-, tidyAttributes, tidyChildren, -, empty⟩ := tidy
  rw [Element.shapes, List.length_cons, List.length_cons, List.length_append] at small
  unfold elementStep
  rw [Element.shapes]
  refine reads_enter fun depth => reads_next_bind fun start _ => reads_next_bind fun tagToken shape => ?_
  have isTag : tagToken.word = tag := word_of_shape shape
  have named : ¬ (!tagToken.kind.isName) = true := by
    rw [kind_of_shape shape]
    simp [Shape.word, isName_ofWord]
  dsimp only
  rw [if_neg named, isTag]
  refine reads_get_bind fun c kinds => ?_
  have enough : attributes.length ≤ c.ahead.length := by
    have long := length_of_kinds kinds
    have few := length_le_attributes attributes
    rw [List.length_append, List.length_append] at long
    omega
  cases selfClosing with
  | true =>
    obtain rfl := empty rfl
    refine reads_bind (reads_attributesUpTo readsBack depth tidyAttributes (by omega) rfl _ enough) fun as all => ?_
    refine reads_accept_yes rfl (reads_markFrom_bind fun _ _ => reads_pure ?_)
    rw [Element.bare, Element.bare, all]
  | false =>
    rw [if_neg Bool.false_ne_true, List.length_cons, List.length_append] at small
    refine reads_bind (reads_attributesUpTo readsBack depth tidyAttributes (by omega) rfl _ enough) fun as all => ?_
    refine reads_accept_no (ne_of_beq_false rfl) (reads_expect_bind rfl fun _ _ => ?_)
    refine reads_get_bind fun c kinds => ?_
    have enough : children.length < c.ahead.length + 1 := by
      have long := length_of_kinds kinds
      have few := length_le_children tidyChildren
      rw [List.length_append, List.length_append] at long
      omega
    refine reads_last_bind (reads_childrenUpTo readsBack depth tag tidyChildren (by omega) _ enough) fun cs same => ?_
    refine reads_markFrom_bind fun _ _ => reads_pure ?_
    rw [Element.bare, Element.bare, all, same]

/-- An element behind its introducing word. -/
theorem reads_markup {e : Element} (tidy : e.Tidy) (small : (Expr.markup e).shapes.length ≤ n + 1)
    {r : List Shape} :
    Reads (g.markup depth) (Expr.markup e).shapes r fun a => a.bare = (Expr.markup e).bare := by
  unfold markup
  rw [Expr.shapes]
  have short : e.shapes.length ≤ n := Nat.le_of_succ_le_succ small
  refine reads_next_bind fun start _ => reads_peekIs_bind ?_
  have tag : (firstKind (e.shapes ++ r) == .symbol .less) = true := by
    obtain ⟨_, _, _, _, _⟩ := e
    rfl
  have introduced : ¬ (!(firstKind (e.shapes ++ r) == .symbol .less)) = true := by
    rw [tag]
    exact Bool.false_ne_true
  dsimp only
  rw [if_neg introduced]
  refine reads_last_bind (readsBack.element e tidy short depth r) fun a same => ?_
  refine reads_spanFrom_bind fun span => reads_pure ?_
  obtain ⟨_, _, _, _, _⟩ := a
  rw [Expr.bare, Expr.bare, ← same]
  rfl

end Markup

section Operands

variable {g : Grammar} {n : Nat} (readsBack : g.ReadsBack n) (depth : Nat)
include readsBack

/-- Expressions with commas between them and the token that closes them. -/
theorem reads_expressions {es : List Expr} (tidy : Expr.TidyAll es)
    (small : (commas (Expr.shapesAll es)).length ≤ n) (stop : Symbol)
    (closes : stop = .rightParen ∨ stop = .rightBracket) {r : List Shape} :
    Reads (g.expressions depth (.symbol stop)) (commas (Expr.shapesAll es) ++ [Shape.symbol stop]) r
      fun bs => Expr.bareAll bs = Expr.bareAll es := by
  cases es with
  | nil => exact reads_accept_yes rfl (reads_pure rfl)
  | cons e es =>
    have starts : firstKind (commas (Expr.shapesAll (e :: es)) ++ [Shape.symbol stop] ++ r) ≠ .symbol stop := by
      rw [Expr.shapesAll, commas_cons, List.append_assoc, List.append_assoc]
      exact kind_ne_of_starts (e.starts tidy.1 _) (by rcases closes with rfl | rfl <;> rfl)
    have inside : Reads (commaList (g.expression depth 0)) (commas (Expr.shapesAll (e :: es)))
        (.symbol stop :: r) fun bs => bs.map Expr.bare = (e :: es).map Expr.bare := by
      rw [Expr.shapesAll_eq] at small ⊢
      refine reads_commaList (Ends 0) (fun _ => rfl) (List.cons_ne_nil _ _) ?_ ?_ ?_
      · intro e found r follows
        have short := length_le_commas (List.mem_map_of_mem (f := Expr.shapes) found)
        exact reads_value readsBack depth (Expr.tidy_of_mem tidy e found) (by omega) follows
      · rcases closes with rfl | rfl <;> rfl
      · rcases closes with rfl | rfl <;> exact ne_of_beq_false rfl
    refine reads_accept_no starts (reads_bind inside fun bs all => ?_)
    refine reads_expect_bind rfl fun _ _ => reads_pure ?_
    rw [Expr.bareAll_eq, Expr.bareAll_eq, all]

theorem reads_lambdaBody {b : LambdaBody} (tidy : b.Tidy) (small : b.shapes.length ≤ n)
    {r : List Shape} (ends : Ends 0 r) :
    Reads (g.lambdaBody depth) b.shapes r fun a => a.bare = b.bare := by
  refine reads_peekIs_bind ?_
  cases b with
  | block b =>
    have brace : (firstKind (LambdaBody.shapes (.block b) ++ r) == .symbol .leftBrace) = true := by
      cases b
      rfl
    have short : b.shapes.length ≤ n + 1 := Nat.le_succ_of_le small
    rw [brace, if_pos rfl]
    refine reads_last_bind (reads_block readsBack depth tidy short) fun a same => reads_pure ?_
    rw [LambdaBody.bare, LambdaBody.bare, same]
  | value e =>
    have other : (firstKind (LambdaBody.shapes (.value e) ++ r) == .symbol .leftBrace) = false :=
      beq_eq_false_iff_ne.2 (kind_ne_of_starts (e.starts tidy r) rfl)
    rw [other, if_neg Bool.false_ne_true]
    refine reads_last_bind (reads_value readsBack depth tidy small ends) fun a same => reads_pure ?_
    rw [LambdaBody.bare, LambdaBody.bare, same]

theorem reads_lambda {m : Mark} {ps : List Param} {result : Option TypeExpr} {body : LambdaBody}
    (tidy : (Expr.lambda m ps result body).Tidy)
    (small : (Expr.lambda m ps result body).shapes.length ≤ n + 1) {r : List Shape} (ends : Ends 0 r) :
    Reads (g.lambda depth) (Expr.lambda m ps result body).shapes r
      fun a => a.bare = (Expr.lambda m ps result body).bare := by
  obtain ⟨tidyParams, tidyResult, tidyBody, _⟩ := tidy
  have split : (Expr.lambda m ps result body).shapes = .symbol .leftParen ::
      ((commas (Param.shapesAll ps) ++ [Shape.symbol .rightParen]) ++
        (typeSuffixShapes result ++ .symbol .arrow :: body.shapes)) := by
    rw [Expr.shapes, List.append_assoc, List.singleton_append]
  simp only [split, List.length_cons, List.length_append, List.length_nil] at small
  rw [split]
  refine reads_next_bind fun start _ => ?_
  refine reads_bind (reads_parameters readsBack depth tidyParams (by omega)) fun params sameParams => ?_
  refine reads_bind (reads_typed readsBack depth tidyResult (by omega) rfl (ne_of_beq_false rfl)) fun t sameType => ?_
  refine reads_expect_bind rfl fun _ _ => ?_
  refine reads_last_bind (reads_lambdaBody readsBack depth tidyBody (by omega) ends) fun b sameBody => ?_
  refine reads_markFrom_bind fun _ _ => reads_pure ?_
  rw [Expr.bare, Expr.bare, sameParams, sameType, sameBody]

theorem reads_group {e : Expr} (tidy : e.Tidy) (small : e.shapes.length ≤ n) {r : List Shape} :
    Reads (g.group depth) (.symbol .leftParen :: (e.shapes ++ [Shape.symbol .rightParen])) r
      fun a => a.bare = e.bare := by
  refine reads_next_bind fun _ _ => reads_bind (reads_value readsBack depth tidy small rfl) fun a same => ?_
  exact reads_expect_bind rfl fun _ _ => reads_pure same

theorem reads_creation {m : Mark} {type : TypeExpr} {args : List Expr}
    (tidy : (Expr.create m type args).Tidy)
    (small : (Expr.create m type args).shapes.length ≤ n + 1) {r : List Shape} :
    Reads (g.creation depth) (Expr.create m type args).shapes r
      fun a => a.bare = (Expr.create m type args).bare := by
  obtain ⟨named, tidyType, tidyArgs⟩ := tidy
  simp only [Expr.shapes, List.length_cons, List.length_append, List.length_nil] at small
  rw [Expr.shapes]
  unfold creation
  refine reads_next_bind fun start _ => ?_
  refine reads_bind (readsBack.type type tidyType (by omega) depth _ rfl) fun t sameType => ?_
  have isNamed : ¬ t.name?.isNone = true := by
    rw [← TypeExpr.name?_bare, sameType, TypeExpr.name?_bare]
    cases found : type.name? with
    | none =>
      rw [found] at named
      cases named
    | some name => exact Bool.false_ne_true
  dsimp only
  rw [if_neg isNamed]
  refine reads_expect_bind rfl fun _ _ => ?_
  refine reads_last_bind (reads_expressions readsBack depth tidyArgs (by omega) _ (.inl rfl)) ?_
  refine fun bs all => reads_markFrom_bind fun _ _ => reads_pure ?_
  rw [Expr.bare, Expr.bare, sameType, all]

omit readsBack in
theorem reads_parent {r : List Shape}
    (calls : firstKind r = .symbol .leftParen ∨ firstKind r = .symbol .dot) :
    Reads parent [.keyword .superWord] r fun a => a.bare = .parent Mark.blank := by
  unfold parent
  refine reads_next_bind fun t _ => reads_peek_bind fun ahead kind => ?_
  have allowed : ¬ (ahead.kind != .symbol .leftParen && ahead.kind != .symbol .dot) = true := by
    rw [List.nil_append] at kind
    rcases calls with call | call <;> rw [kind, call] <;> decide
  dsimp only
  rw [if_neg allowed]
  exact reads_pure rfl

theorem reads_unary {m : Mark} {op : UnaryOp} {operand : Expr} (tidy : operand.Tidy)
    (sheltered : operand.isSheltered 8 = true)
    (small : (Expr.unary m op operand).shapes.length ≤ n + 1) {r : List Shape}
    (ends : Ends Precedence.unary r) :
    Reads (g.unary depth op) (Expr.unary m op operand).shapes r
      fun a => a.bare = (Expr.unary m op operand).bare := by
  obtain ⟨k, split⟩ : ∃ k, (Expr.unary m op operand).shapes =
      k :: operandShapes 8 (exprStrength operand) operand.shapes := by
    cases op <;> exact ⟨_, rfl⟩
  rw [split, List.length_cons] at small
  rw [split]
  refine reads_next_bind fun start _ => ?_
  have inside := readsBack.expression operand tidy _ _ .operand sheltered (by omega) depth r ends
  refine reads_last_bind inside fun a same => reads_markFrom_bind fun _ _ => reads_pure ?_
  rw [Expr.bare, Expr.bare, same]

/-- What an expression asks of the limit and of what follows when it is read without parentheses. -/
def Suits (limit : Nat) (r : List Shape) : Expr → Prop
  | .binary _ op _ _ => limit < Precedence.binary op ∧ Ends (Precedence.binary op) r
  | .assign .. => limit < Precedence.assignment ∧ Ends (Precedence.assignment - 1) r
  | .unary .. => Ends Precedence.unary r
  | .lambda .. => Ends 0 r
  | .parent _ => firstKind r = .symbol .leftParen ∨ firstKind r = .symbol .dot
  | _ => True

/-- Expressions that are one operand. -/
def isOperand : Expr → Bool
  | .binary .. | .assign .. | .member .. | .index .. | .call .. => false
  | _ => true

theorem reads_operand {e : Expr} (tidy : e.isParent = true ∨ e.Tidy) (single : isOperand e = true)
    (small : e.shapes.length ≤ n + 1) {limit : Nat} {r : List Shape} (suits : Suits limit r e) :
    Reads (g.operand depth) e.shapes r fun a => a.bare = e.bare := by
  unfold operand
  refine reads_peek_bind fun t kind => ?_
  cases e with
  | binary | assign | member | index | call => cases single
  | name id =>
    have kind : t.kind = .identifier := kind
    rw [kind]
    refine reads_next_bind fun t shape => reads_pure ?_
    rw [Expr.bare, Expr.bare, bare_of_shape shape]
  | number m digits =>
    have kind : t.kind = .number := kind
    rw [kind]
    refine reads_next_bind fun t shape => reads_pure ?_
    rw [Expr.bare, Expr.bare, word_of_shape shape]
  | string q =>
    have quotable : IsQuotable q.value := by simpa [Expr.isParent, Expr.Tidy] using tidy
    have kind : t.kind = .string := kind
    rw [kind]
    refine reads_next_bind fun t shape => reads_pure ?_
    rw [Expr.bare, Expr.bare, Quotation.bare, Quotation.bare, contents_of_shape quotable shape]
  | boolean m value =>
    have word : m.head.word = if value then "true" else "false" := by
      simpa [Expr.isParent, Expr.Tidy] using tidy
    have kind : t.kind = .boolean := kind
    rw [kind]
    refine reads_next_bind fun t shape => reads_pure ?_
    rw [Expr.bare, Expr.bare, Mark.bare, Mark.bare, Mark.ofToken, word_of_shape shape, word]
    cases value <;> rfl
  | null m =>
    have kind : t.kind = .keyword .nullWord := kind
    rw [kind]
    exact reads_next_bind fun t shape => reads_pure rfl
  | self m =>
    have kind : t.kind = .keyword .thisWord := kind
    rw [kind]
    exact reads_next_bind fun t shape => reads_pure rfl
  | parent m =>
    have kind : t.kind = .keyword .superWord := kind
    rw [kind]
    exact reads_parent suits
  | unary m op operand =>
    obtain ⟨tidy, sheltered⟩ : operand.Tidy ∧ operand.isSheltered 8 = true := by
      simpa [Expr.isParent, Expr.Tidy] using tidy
    have reads := reads_unary readsBack depth tidy sheltered small suits
    cases op with
    | negate =>
      have kind : t.kind = .symbol .minus := kind
      rw [kind]
      exact reads
    | not =>
      have kind : t.kind = .symbol .bang := kind
      rw [kind]
      exact reads
  | create m type args =>
    have tidy : (Expr.create m type args).Tidy := by simpa [Expr.isParent] using tidy
    have kind : t.kind = .keyword .newWord := kind
    rw [kind]
    exact reads_creation readsBack depth tidy small
  | array m elements =>
    have tidy : Expr.TidyAll elements := by simpa [Expr.isParent, Expr.Tidy] using tidy
    have kind : t.kind = .symbol .leftBracket := kind
    simp only [Expr.shapes, List.length_cons, List.length_append, List.length_nil] at small
    rw [kind, Expr.shapes]
    refine reads_next_bind fun start _ => ?_
    refine reads_last_bind (reads_expressions readsBack depth tidy (by omega) _ (.inr rfl)) ?_
    refine fun bs all => reads_markFrom_bind fun _ _ => reads_pure ?_
    rw [Expr.bare, Expr.bare, all]
  | lambda m ps result body =>
    have tidy : (Expr.lambda m ps result body).Tidy := by simpa [Expr.isParent] using tidy
    have kind : t.kind = .symbol .leftParen := kind
    rw [kind]
    refine reads_get_bind fun c kinds => ?_
    have ahead : lambdaAhead 1 (c.ahead.drop 1) = true := by
      rw [Expr.shapes, List.cons_append, List.append_assoc, List.cons_append, List.append_assoc,
        List.cons_append] at kinds
      rw [lambdaAhead_shapes tidy.2.2.2 kinds]
      exact typeSuffix_first (P := fun k => followsParameters k = true) result rfl rfl
    rw [if_pos ahead]
    exact reads_lambda readsBack depth tidy small suits
  | markup e =>
    have tidy : e.Tidy := by simpa [Expr.isParent, Expr.Tidy] using tidy
    have kind : t.kind = .keyword .vdomWord := kind
    rw [kind]
    exact reads_markup readsBack depth tidy small

/-- An operand in parentheses. -/
theorem reads_parenthesised_operand {e : Expr} (tidy : e.Tidy) (balanced : Balanced e.shapes)
    (small : e.shapes.length ≤ n) {r : List Shape} (noLambda : followsParameters (firstKind r) = false) :
    Reads (g.operand depth) (.symbol .leftParen :: (e.shapes ++ [Shape.symbol .rightParen])) r
      fun a => a.bare = e.bare := by
  unfold operand
  refine reads_peek_bind fun t kind => ?_
  have kind : t.kind = .symbol .leftParen := kind
  rw [kind]
  refine reads_get_bind fun c kinds => ?_
  have ahead : ¬ lambdaAhead 1 (c.ahead.drop 1) = true := by
    rw [List.cons_append, List.append_assoc, List.singleton_append] at kinds
    rw [lambdaAhead_shapes balanced kinds, noLambda]
    exact Bool.false_ne_true
  rw [if_neg ahead]
  exact reads_group readsBack depth tidy small

end Operands

/-! ## Operators -/

/-- The first operand of an expression and what follows it. -/
def climb (g : Grammar) (depth limit : Nat) (start : Token) : Reader Expr := do
  let left ← g.operand depth
  g.infixRest depth limit start left (← get).ahead.length

/-- Reading the shapes `s` of `e` in front of `r` comes to the point where `e` has been read and may be
extended, with a bound for as many operators as there are tokens left; or the nesting is too deep. -/
def Climbs (g : Grammar) (depth limit : Nat) (e : Expr) (s r : List Shape) : Prop :=
  ∀ start ts tr last, Fit last ts s → tr.map Token.kind = r.map Shape.kind → tr ≠ [] →
    (∃ a fuel, a.bare = e.bare ∧ tr.length ≤ fuel ∧
      climb g depth limit start ⟨last, ts ++ tr⟩ =
        g.infixRest depth limit start a fuel ⟨ts.getLastD last, tr⟩) ∨
      ∃ span, climb g depth limit start ⟨last, ts ++ tr⟩ = .error (.tooDeep, span)

theorem climbs_of_operand {g : Grammar} {depth limit : Nat} {e : Expr} {s r : List Shape}
    (reads : Reads (g.operand depth) s r fun a => a.bare = e.bare) : Climbs g depth limit e s r := by
  intro start ts tr last fit behind some_behind
  rcases reads ts tr last fit behind some_behind with ⟨a, run, same⟩ | ⟨-, span, deep⟩
  · refine .inl ⟨a, tr.length, same, Nat.le_refl _, ?_⟩
    rw [climb, bind_of_ok run]
    rfl
  · exact .inr ⟨span, bind_of_error deep⟩

/-- An operator that binds tighter than the limit takes what was read before as its left side. -/
theorem climbs_step {g : Grammar} {depth limit : Nat} {left e : Expr} {k : Shape} {kind : Infix}
    {s s' r : List Shape} (isInfix : Infix.ofKind? k.kind = some kind)
    (tighter : limit < kind.precedence) (first : Climbs g depth limit left s (k :: (s' ++ r)))
    (step : ∀ start a, a.bare = left.bare →
      Reads (g.infixStep depth start a kind) (k :: s') r fun b => b.bare = e.bare) :
    Climbs g depth limit e (s ++ k :: s') r := by
  intro start ts tr last fit behind some_behind
  obtain ⟨ts₁, ts₂, rfl, fit₁, fit₂⟩ := fit_split fit
  have kinds : (ts₂ ++ tr).map Token.kind = (k :: (s' ++ r)).map Shape.kind := by
    rw [List.map_append, fit_kinds fit₂, behind, ← List.map_append, List.cons_append]
  rw [List.append_assoc, getLastD_append]
  rcases first start ts₁ (ts₂ ++ tr) last fit₁ kinds (by simp [some_behind]) with
    ⟨a, fuel, same, enough, run⟩ | deep
  · generalize ts₁.getLastD last = last' at run fit₂ ⊢
    have taken := fit₂
    cases taken with
    | @cons _ t ts₃ _ _ shape _ _ =>
      -- The operator itself is a token, so the bound is not used up.
      obtain ⟨fuel, rfl⟩ : ∃ f, fuel = f + 1 := by
        rw [List.length_append, List.length_cons] at enough
        exact ⟨fuel - 1, by omega⟩
      have looked : peek ⟨last', t :: ts₃ ++ tr⟩ = .ok (t, ⟨last', t :: ts₃ ++ tr⟩) := rfl
      have stepped : g.infixRest depth limit start a (fuel + 1) ⟨last', t :: ts₃ ++ tr⟩ =
          (g.infixStep depth start a kind >>= fun e => g.infixRest depth limit start e fuel)
            ⟨last', t :: ts₃ ++ tr⟩ := by
        rw [infixRest, bind_of_ok looked, kind_of_shape shape, isInfix]
        simp only [if_pos tighter]
      rw [run, stepped]
      rcases step start a same (t :: ts₃) tr last' fit₂ behind some_behind with
        ⟨b, ran, sameStep⟩ | ⟨-, span, deep⟩
      · refine .inl ⟨b, fuel, sameStep, ?_, bind_of_ok ran⟩
        rw [List.length_append, List.length_cons] at enough
        omega
      · exact .inr ⟨span, bind_of_error deep⟩
  · exact .inr deep

/-- When no operator that binds tighter than the limit follows, the expression has been read. -/
theorem reads_of_climbs {g : Grammar} {depth limit : Nat} {e : Expr} {s r : List Shape}
    (climbs : ∀ depth, Climbs g depth limit e s r) (ends : Ends limit r) :
    Reads (g.expressionStep depth limit) s r fun a => a.bare = e.bare := by
  unfold expressionStep
  refine reads_enter fun depth => reads_peek_bind fun start _ => ?_
  intro ts tr last fit behind some_behind
  rcases climbs depth start ts tr last fit behind some_behind with
    ⟨a, fuel, same, enough, run⟩ | deep
  · refine .inl ⟨a, ?_, same⟩
    generalize ts.getLastD last = last' at run ⊢
    have stops : g.infixRest depth limit start a fuel ⟨last', tr⟩ = .ok (a, ⟨last', tr⟩) := by
      obtain ⟨t, tr, rfl⟩ := List.exists_cons_of_ne_nil some_behind
      have kind : t.kind = firstKind r := kind_of_kinds behind
      have looked : peek ⟨last', t :: tr⟩ = .ok (t, ⟨last', t :: tr⟩) := rfl
      have limited : infixLimit t.kind ≤ limit := by
        rw [Ends, endsExpr, ← kind, Bool.and_eq_true, decide_eq_true_eq] at ends
        exact ends.1
      cases fuel with
      | zero => rfl
      | succ fuel =>
        rw [infixRest, bind_of_ok looked]
        unfold infixLimit at limited
        cases found : Infix.ofKind? t.kind with
        | none => rfl
        | some i =>
          rw [found] at limited
          have weaker : ¬ limit < i.precedence := Nat.not_lt.2 limited
          simp only [if_neg weaker]
          rfl
    exact run.trans stops
  · exact .inr ⟨trivial, deep⟩

/-! ## Expressions -/

theorem ends_weaken {limit limit' : Nat} {r : List Shape} (ends : Ends limit r)
    (larger : limit ≤ limit') : Ends limit' r := by
  rw [Ends, endsExpr, Bool.and_eq_true, decide_eq_true_eq] at *
  exact ⟨Nat.le_trans ends.1 larger, ends.2⟩

theorem isTarget_bare (e : Expr) : e.bare.isTarget = e.isTarget := by
  cases e <;> rfl

theorem noLambda_of_ends {limit : Nat} {r : List Shape} (ends : Ends limit r) :
    followsParameters (firstKind r) = false := by
  rw [Ends, endsExpr, Bool.and_eq_true, Bool.not_eq_true'] at ends
  exact ends.2

/-! What an expression that needs no parentheses asks of its place is there. -/

theorem ofKind_symbol (op : BinaryOp) : Infix.ofKind? (.symbol op.symbol) = some (.binary op) := by
  cases op <;> rfl

theorem symbol_noLambda (op : BinaryOp) : followsParameters (.symbol op.symbol) = false := by
  cases op <;> rfl

theorem ends_symbol {op : BinaryOp} {limit : Nat} (enough : Precedence.binary op ≤ limit)
    (r : List Shape) : Ends limit (.symbol op.symbol :: r) := by
  have limited : infixLimit (.symbol op.symbol) = Precedence.binary op := by
    cases op <;> rfl
  have kind : firstKind (.symbol op.symbol :: r) = .symbol op.symbol := rfl
  rw [Ends, kind, endsExpr, limited, symbol_noLambda, decide_eq_true enough]
  rfl

/-- The two tables of operators order them in the same way. -/
theorem precedence_le {op op' : BinaryOp} (stronger : strength op ≤ strength op') :
    Precedence.binary op ≤ Precedence.binary op' := by
  cases op <;> cases op' <;> revert stronger <;> decide

theorem precedence_lt {op op' : BinaryOp} (stronger : strength op < strength op') :
    Precedence.binary op < Precedence.binary op' := by
  cases op <;> cases op' <;> revert stronger <;> decide

theorem two_le_strength (op : BinaryOp) : 2 ≤ strength op := by
  cases op <;> decide

theorem strength_lt_eight (op : BinaryOp) : strength op < 8 := by
  cases op <;> decide

theorem precedence_bounds (op : BinaryOp) :
    Precedence.assignment < Precedence.binary op ∧ Precedence.binary op ≤ Precedence.unary := by
  cases op <;> decide

theorem serves_bounds {limit context : Nat} (serves : Serves limit context) :
    limit ≤ Precedence.unary ∧ context ≤ 9 := by
  cases serves with
  | whole | value | operand => decide
  | right op => exact ⟨(precedence_bounds op).2, Nat.le_succ_of_le (strength_lt_eight op)⟩

theorem suits_left {op : BinaryOp} {left : Expr} {limit : Nat} {r : List Shape} (tidy : left.Tidy)
    (strong : ¬ exprStrength left < strength op) (tighter : limit < Precedence.binary op) :
    Suits limit (.symbol op.symbol :: r) left := by
  have two := two_le_strength op
  cases left with
  | binary m op' left right =>
    have stronger := precedence_le (Nat.not_lt.1 strong)
    exact ⟨Nat.lt_of_lt_of_le tighter stronger, ends_symbol stronger r⟩
  | unary m op' operand => exact ends_symbol (precedence_bounds op).2 r
  | assign m target value => exact absurd (Nat.lt_of_lt_of_le Nat.one_lt_two two) strong
  | lambda m ps result body => exact absurd (Nat.lt_of_lt_of_le Nat.two_pos two) strong
  | parent => exact tidy.elim
  | _ => trivial

theorem suits_target {target : Expr} {limit : Nat} {r : List Shape} (isTarget : target.isTarget = true) :
    Suits limit r target := by
  cases target with
  | name | member | index => trivial
  | _ => cases isTarget

/-- A target needs no parentheses. -/
theorem sheltered_target {target : Expr} (isTarget : target.isTarget = true) : target.isSheltered 2 = true := by
  refine Expr.sheltered_iff.2 fun weak => ?_
  cases target with
  | name | member | index => simp [exprStrength] at weak
  | _ => cases isTarget

theorem suits_object {object : Expr} {limit : Nat} {r : List Shape}
    (calls : object.isParent = true → firstKind r = .symbol .leftParen ∨ firstKind r = .symbol .dot)
    (strong : ¬ exprStrength object < 9) : Suits limit r object := by
  cases object with
  | parent => exact calls rfl
  | binary m op left right => exact absurd (Nat.lt_succ_of_lt (strength_lt_eight op)) strong
  | assign | unary | lambda => simp [exprStrength] at strong
  | _ => trivial

theorem suits_served {e : Expr} {limit context : Nat} {r : List Shape} (tidy : e.Tidy)
    (serves : Serves limit context) (ends : Ends limit r) (strong : ¬ exprStrength e < context) :
    Suits limit r e := by
  obtain ⟨low, _⟩ := serves_bounds serves
  cases e with
  | binary m op left right =>
    have tighter : limit < Precedence.binary op := by
      obtain ⟨above, _⟩ := precedence_bounds op
      cases serves with
      | whole => exact Nat.zero_lt_of_lt above
      | value => exact Nat.lt_of_le_of_lt (Nat.sub_le _ _) above
      | right op' => exact precedence_lt (Nat.not_lt.1 strong)
      | operand => exact absurd (strength_lt_eight op) strong
    exact ⟨tighter, ends_weaken ends (Nat.le_of_lt tighter)⟩
  | assign m target value =>
    cases serves with
    | whole => exact ⟨by decide, ends_weaken ends (by decide)⟩
    | value => exact ⟨by decide, ends⟩
    | right op =>
      have two := two_le_strength op
      exact absurd (Nat.lt_succ_of_lt (Nat.lt_of_lt_of_le Nat.one_lt_two two)) strong
    | operand => simp [exprStrength] at strong
  | unary m op operand => exact ends_weaken ends low
  | lambda m ps result body =>
    cases serves with
    | whole => exact ends
    | value | operand => simp [exprStrength] at strong
    | right op => exact absurd (Nat.succ_pos _) strong
  | parent => exact tidy.elim
  | _ => trivial

section Expressions

variable {g : Grammar} {n : Nat} (readsBack : g.ReadsBack n) (depth : Nat)
include readsBack

/-- A context in which an operand is read by climbing: it asks nothing if it stands in parentheses. -/
theorem climbs_operand {limit context : Nat} {e : Expr} {r : List Shape}
    (tidy : e.isParent = true ∨ e.Tidy) (sheltered : e.isSheltered context = true)
    (noLambda : followsParameters (firstKind r) = false)
    (small : (operandShapes context (exprStrength e) e.shapes).length ≤ n + 1) (inside : context ≤ 9)
    (whole : e.shapes.length ≤ n + 1 → ¬ exprStrength e < context → Climbs g depth limit e e.shapes r) :
    Climbs g depth limit e (operandShapes context (exprStrength e) e.shapes) r := by
  unfold operandShapes at small ⊢
  split at small
  · next weak =>
    rw [if_pos weak]
    rw [List.length_cons, List.length_append, List.length_singleton] at small
    have tidy : e.Tidy := by
      rcases tidy with isParent | tidy
      · obtain ⟨m, rfl⟩ := Layout.isParent_eq isParent
        have : (9 : Nat) < context := weak
        omega
      · exact tidy
    have balanced := Expr.sheltered_iff.1 sheltered weak
    exact climbs_of_operand (reads_parenthesised_operand readsBack depth tidy balanced (by omega) noLambda)
  · next strong =>
    rw [if_neg strong]
    exact whole small strong

/-! An operator is read in front of its right side, with what was read before as its left side. -/

theorem reads_binaryStep {m : Mark} {op : BinaryOp} {left right : Expr} (tidy : right.Tidy)
    (sheltered : right.isSheltered (strength op + 1) = true)
    (small : (operandShapes (strength op + 1) (exprStrength right) right.shapes).length ≤ n)
    {r : List Shape} (ends : Ends (Precedence.binary op) r) (start : Token) {a : Expr}
    (same : a.bare = left.bare) :
    Reads (g.infixStep depth start a (.binary op))
      (.symbol op.symbol :: operandShapes (strength op + 1) (exprStrength right) right.shapes) r
      fun b => b.bare = (Expr.binary m op left right).bare := by
  refine reads_next_bind fun head _ => ?_
  have inside := readsBack.expression right tidy _ _ (.right op) sheltered small depth r ends
  refine reads_last_bind inside fun b sameRight => reads_markFrom_bind fun _ _ => reads_pure ?_
  rw [Expr.bare, Expr.bare, same, sameRight]

theorem reads_assignStep {m : Mark} {target value : Expr} (isTarget : target.isTarget = true)
    (tidy : value.Tidy) (sheltered : value.isSheltered 1 = true)
    (small : (operandShapes 1 (exprStrength value) value.shapes).length ≤ n)
    {r : List Shape} (ends : Ends (Precedence.assignment - 1) r) (start : Token) {a : Expr}
    (same : a.bare = target.bare) :
    Reads (g.infixStep depth start a .assign)
      (.symbol .assign :: operandShapes 1 (exprStrength value) value.shapes) r
      fun b => b.bare = (Expr.assign m target value).bare := by
  refine reads_next_bind fun head _ => ?_
  have allowed : ¬ (!a.isTarget) = true := by
    rw [← isTarget_bare, same, isTarget_bare, isTarget]
    exact Bool.false_ne_true
  dsimp only
  rw [if_neg allowed]
  have inside := readsBack.expression value tidy _ _ .value sheltered small depth r ends
  refine reads_last_bind inside fun b sameValue => reads_markFrom_bind fun _ _ => reads_pure ?_
  rw [Expr.bare, Expr.bare, same, sameValue]

omit readsBack in
theorem reads_memberStep {m : Mark} {object : Expr} {property : Name} {r : List Shape} (start : Token)
    {a : Expr} (same : a.bare = object.bare) :
    Reads (g.infixStep depth start a .member) [.symbol .dot, .name property.text] r
      fun b => b.bare = (Expr.member m object property).bare := by
  refine reads_next_bind fun head _ => reads_last_bind (reads_name property r) fun n sameName => ?_
  refine reads_markFrom_bind fun _ _ => reads_pure ?_
  rw [Expr.bare, Expr.bare, same, sameName]

theorem reads_indexStep {m : Mark} {object i : Expr} (tidy : i.Tidy) (small : i.shapes.length ≤ n)
    {r : List Shape} (start : Token) {a : Expr} (same : a.bare = object.bare) :
    Reads (g.infixStep depth start a .index)
      (.symbol .leftBracket :: (i.shapes ++ [Shape.symbol .rightBracket])) r
      fun b => b.bare = (Expr.index m object i).bare := by
  refine reads_next_bind fun head _ => ?_
  refine reads_bind (reads_value readsBack depth tidy small rfl) fun b sameIndex => ?_
  refine reads_expect_bind rfl fun _ _ => reads_markFrom_bind fun _ _ => reads_pure ?_
  rw [Expr.bare, Expr.bare, same, sameIndex]

theorem reads_callStep {m : Mark} {callee : Expr} {args : List Expr} (tidy : Expr.TidyAll args)
    (small : (commas (Expr.shapesAll args)).length ≤ n) {r : List Shape} (start : Token) {a : Expr}
    (same : a.bare = callee.bare) :
    Reads (g.infixStep depth start a .call)
      (.symbol .leftParen :: (commas (Expr.shapesAll args) ++ [Shape.symbol .rightParen])) r
      fun b => b.bare = (Expr.call m callee args).bare := by
  refine reads_next_bind fun head _ => ?_
  refine reads_last_bind (reads_expressions readsBack depth tidy small _ (.inl rfl)) fun bs all => ?_
  refine reads_markFrom_bind fun _ _ => reads_pure ?_
  rw [Expr.bare, Expr.bare, same, all]

/-- Every expression is read by climbing its left spine, if it suits the limit and what follows. -/
theorem climbs_expr : ∀ e : Expr, e.isParent = true ∨ e.Tidy → e.shapes.length ≤ n + 1 →
    ∀ limit r, limit ≤ Precedence.unary → Suits limit r e → Climbs g depth limit e e.shapes r
  | .name _, tidy, small, _, _, _, suits | .number .., tidy, small, _, _, _, suits
  | .string _, tidy, small, _, _, _, suits | .boolean .., tidy, small, _, _, _, suits
  | .null _, tidy, small, _, _, _, suits | .self _, tidy, small, _, _, _, suits
  | .parent _, tidy, small, _, _, _, suits | .unary .., tidy, small, _, _, _, suits
  | .create .., tidy, small, _, _, _, suits | .array .., tidy, small, _, _, _, suits
  | .lambda .., tidy, small, _, _, _, suits | .markup _, tidy, small, _, _, _, suits =>
    climbs_of_operand (reads_operand readsBack depth tidy rfl small suits)
  | .binary _ op left right, tidy, small, limit, r, low, suits => by
    obtain ⟨tidyLeft, tidyRight, shelteredLeft, shelteredRight⟩ : left.Tidy ∧ right.Tidy ∧
        left.isSheltered (strength op) = true ∧ right.isSheltered (strength op + 1) = true := by
      simpa [Expr.isParent, Expr.Tidy] using tidy
    obtain ⟨tighter, ends⟩ := suits
    rw [Expr.shapes, List.length_append, List.length_cons] at small
    rw [Expr.shapes]
    refine climbs_step (ofKind_symbol op) tighter ?_
      (reads_binaryStep readsBack depth tidyRight shelteredRight (by omega) ends)
    refine climbs_operand readsBack depth (.inr tidyLeft) shelteredLeft (symbol_noLambda op) (by omega)
      (by cases op <;> decide) fun short strong => ?_
    exact climbs_expr left (.inr tidyLeft) short limit _ low (suits_left tidyLeft strong tighter)
  | .assign _ target value, tidy, small, limit, r, low, suits => by
    obtain ⟨isTarget, tidyTarget, tidyValue, sheltered⟩ : target.isTarget = true ∧ target.Tidy ∧
        value.Tidy ∧ value.isSheltered 1 = true := by
      simpa [Expr.isParent, Expr.Tidy] using tidy
    obtain ⟨tighter, ends⟩ := suits
    rw [Expr.shapes, List.length_append, List.length_cons] at small
    rw [Expr.shapes]
    refine climbs_step rfl tighter ?_
      (reads_assignStep readsBack depth isTarget tidyValue sheltered (by omega) ends)
    refine climbs_operand readsBack depth (.inr tidyTarget) (sheltered_target isTarget) rfl (by omega)
      (by decide) fun short _ => ?_
    exact climbs_expr target (.inr tidyTarget) short limit _ low (suits_target isTarget)
  | .member _ object _, tidy, small, limit, r, low, suits => by
    obtain ⟨tidyObject, _, sheltered⟩ : (object.isParent = true ∨ object.Tidy) ∧ _ ∧
        object.isSheltered 9 = true := by
      simpa [Expr.isParent, Expr.Tidy] using tidy
    rw [Expr.shapes, List.length_append] at small
    rw [Expr.shapes]
    refine climbs_step rfl (Nat.lt_of_le_of_lt low (by decide)) ?_ (reads_memberStep depth)
    refine climbs_operand readsBack depth tidyObject sheltered rfl (by omega) (by decide)
      fun short strong => ?_
    exact climbs_expr object tidyObject short limit _ low (suits_object (fun _ => .inr rfl) strong)
  | .index _ object i, tidy, small, limit, r, low, suits => by
    obtain ⟨tidyObject, tidyIndex, sheltered⟩ : object.Tidy ∧ i.Tidy ∧ object.isSheltered 9 = true := by
      simpa [Expr.isParent, Expr.Tidy] using tidy
    rw [Expr.shapes, List.length_append, List.length_cons, List.length_append] at small
    rw [Expr.shapes]
    refine climbs_step rfl (Nat.lt_of_le_of_lt low (by decide)) ?_
      (reads_indexStep readsBack depth tidyIndex (by omega))
    refine climbs_operand readsBack depth (.inr tidyObject) sheltered rfl (by omega) (by decide)
      fun short strong => ?_
    refine climbs_expr object (.inr tidyObject) short limit _ low (suits_object (fun isParent => ?_) strong)
    obtain ⟨m, rfl⟩ := Layout.isParent_eq isParent
    exact tidyObject.elim
  | .call _ callee args, tidy, small, limit, r, low, suits => by
    obtain ⟨tidyCallee, tidyArgs, sheltered⟩ : (callee.isParent = true ∨ callee.Tidy) ∧
        Expr.TidyAll args ∧ callee.isSheltered 9 = true := by
      simpa [Expr.isParent, Expr.Tidy] using tidy
    rw [Expr.shapes, List.length_append, List.length_cons, List.length_append] at small
    rw [Expr.shapes]
    refine climbs_step rfl (Nat.lt_of_le_of_lt low (by decide)) ?_
      (reads_callStep readsBack depth tidyArgs (by omega))
    refine climbs_operand readsBack depth tidyCallee sheltered rfl (by omega) (by decide)
      fun short strong => ?_
    exact climbs_expr callee tidyCallee short limit _ low (suits_object (fun _ => .inl rfl) strong)

theorem reads_expressionStep {e : Expr} (tidy : e.Tidy) {limit context : Nat}
    (serves : Serves limit context) (sheltered : e.isSheltered context = true)
    (small : (operandShapes context (exprStrength e) e.shapes).length ≤ n + 1) {r : List Shape}
    (ends : Ends limit r) :
    Reads (g.expressionStep depth limit) (operandShapes context (exprStrength e) e.shapes) r
      fun a => a.bare = e.bare := by
  obtain ⟨low, inside⟩ := serves_bounds serves
  refine reads_of_climbs (fun depth => ?_) ends
  refine climbs_operand readsBack depth (.inr tidy) sheltered (noLambda_of_ends ends) small inside
    fun short strong => ?_
  exact climbs_expr readsBack depth e (.inr tidy) short limit r low (suits_served tidy serves ends strong)

end Expressions

end Grammar

end ClassScript
