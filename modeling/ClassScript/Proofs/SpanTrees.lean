import ClassScript.Proofs.Covering

/-!
Spans form a tree. With one lemma for each reader of the grammar, what a program is read from is laid out by its
statements, theirs by their parts, and so on down to names (`Grammar.Lays`), so the outline of every program is sound
(`Program.spans_form_a_tree`).
-/

namespace ClassScript

/-! ## The parts of a construct -/

namespace Grammar

open Reader

/-- The readers of the constructs that nest lay out what they read. -/
structure Lays (tokens : List Token) (length : Nat) (g : Grammar) : Prop where
  statement : ∀ depth, Spans tokens length (g.statement depth) fun s => [s.outline]
  expression : ∀ depth precedence, Spans tokens length (g.expression depth precedence) fun e => [e.outline]
  type : ∀ depth, Spans tokens length (g.type depth) fun t => [t.outline]
  element : ∀ depth t, t.kind = .symbol .less → SpansAt tokens length t (g.element depth) fun e => [e.outline]

variable {tokens : List Token} {length : Nat} (row : Token.Row tokens length)
include row

omit row in
theorem enter_run {depth deeper : Nat} {c c' : Cursor} (run : enter depth c = .ok (deeper, c')) : c' = c := by
  unfold enter at run
  split at run
  · cases run
  · cases run
    rfl

omit row in
theorem spansAt_enter_bind {α : Type} {t : Token} {depth : Nat} {f : Nat → Reader α} {φ : α → List Outline}
    (rest : ∀ depth, SpansAt tokens length t (f depth) φ) : SpansAt tokens length t (enter depth >>= f) φ := by
  intro c a c' on here run
  obtain ⟨deeper, mid, entered, further⟩ := bind_ok run
  rw [enter_run entered] at further
  exact rest deeper c a c' on here further

omit row in
theorem spans_enter_bind {α : Type} {depth : Nat} {f : Nat → Reader α} {φ : α → List Outline}
    (rest : ∀ depth, Spans tokens length (f depth) φ) : Spans tokens length (enter depth >>= f) φ :=
  fun c a c' on run => spansAt_enter_bind (fun depth => (rest depth).at) c a c' on rfl run

theorem spans_name : Spans tokens length name fun n => [n.outline] := by
  intro c n c' on run
  obtain ⟨t, mid, taken, run⟩ := bind_ok run
  obtain ⟨_, _, looked, taken⟩ := bind_ok taken
  cases looked
  split at taken
  · next found =>
    have inside : c.head.kind ≠ .endOfInput := by
      rw [show c.head.kind = .identifier from beq_iff_eq.1 found]
      decide
    obtain ⟨rfl, onMid, isLast, past⟩ := next_past row on inside taken
    cases run
    have sound := sound_leaf row on.head_mem inside
    refine ⟨onMid, .inr ⟨past, .single sound (Nat.le_refl _) ?_⟩⟩
    rw [isLast]
    exact Nat.le_refl _
  · cases taken

section Parts

variable {g : Grammar} (lays : g.Lays tokens length) (depth : Nat)
include lays

theorem spans_types : Spans tokens length (g.types depth) fun ts => ts.map TypeExpr.outline :=
  spans_commaList row (lays.type depth)

theorem spans_annotatedType : Spans tokens length (g.typeAnnotation depth) TypeExpr.outlineOf? := by
  refine spans_of_builds fun s => builds_bind ((spans_accept row (by decide)).builds row) fun found => ?_
  split
  · exact builds_bind ((lays.type depth).builds row) fun t => builds_pure (.refl _)
  · exact builds_pure (.refl _)

theorem spans_initialiser : Spans tokens length (g.initialiser depth) Expr.outlineOf? := by
  refine spans_of_builds fun s => builds_bind ((spans_accept row (by decide)).builds row) fun found => ?_
  split
  · exact builds_bind ((lays.expression depth 0).builds row) fun e => builds_pure (.refl _)
  · exact builds_pure (.refl _)

theorem spans_block : Spans tokens length (g.block depth) fun b => [b.outline] := by
  refine spans_expect_bind row (by decide) fun start s first found kind => ?_
  refine builds_bind ((spans_untilToken row (by decide) (lays.statement depth)).builds row) fun ss => ?_
  refine builds_bind (builds_markFrom row first found (by rw [kind]; decide)) fun m => builds_pure ?_
  simp [Block.outline]

theorem spans_parameter : Spans tokens length (g.parameter depth) fun p => [p.outline] := by
  refine spans_expect_bind row (by decide) fun start s first found kind => ?_
  have inside : start.kind ≠ .endOfInput := by
    rw [kind]
    decide
  refine builds_first_leaf row first found inside ?_
  refine builds_bind ((spans_annotatedType row lays depth).builds row) fun type => ?_
  refine builds_bind ((spans_initialiser row lays depth).builds row) fun fallback => ?_
  refine builds_bind (builds_markFrom row first found inside) fun m => builds_pure ?_
  simp [Param.outline, Name.outline, Name.ofToken]

theorem spans_parameters : Spans tokens length (g.parameters depth) fun ps => ps.map Param.outline := by
  refine spans_of_builds fun s => builds_bind ((spans_accept row (by decide)).builds row) fun found => ?_
  split
  · exact builds_pure (.refl _)
  · refine builds_bind ((spans_commaList row (spans_parameter row lays depth)).builds row) fun ps => ?_
    exact builds_expect_bind row (by decide) fun _ _ _ => builds_pure (.refl _)

end Parts

theorem spans_typeParameters : Spans tokens length typeParameters fun names => names.map Name.outline := by
  refine spans_of_builds fun s => builds_bind ((spans_accept row (by decide)).builds row) fun found => ?_
  split
  · refine builds_bind ((spans_commaList row (spans_name row)).builds row) fun names => ?_
    exact builds_expect_bind row (by decide) fun _ _ _ => builds_pure (.refl _)
  · exact builds_pure (.refl _)

theorem spans_annotationsUpTo (fuel : Nat) :
    Spans tokens length (annotationsUpTo fuel) fun as => as.map Annotation.outline := by
  induction fuel with
  | zero => exact spans_pure rfl
  | succ fuel ih =>
    refine spans_peekIs_bind fun t => ?_
    split
    · next kind =>
      have inside : t.kind ≠ .endOfInput := by
        rw [beq_iff_eq.1 kind]
        decide
      refine spansAt_next_bind row inside fun s first found => builds_first_leaf row first found inside ?_
      exact builds_bind (ih.builds row) fun more => builds_pure (.refl _)
    · exact (spans_pure rfl).at

theorem spans_annotations : Spans tokens length annotations fun as => as.map Annotation.outline :=
  spans_of_builds fun _ => builds_bind (spans_get.builds row) fun _ => (spans_annotationsUpTo row _).builds row

/-! ## Types -/

section Types

variable {g : Grammar} (lays : g.Lays tokens length) (depth : Nat)
include lays

theorem spans_functionTypeParams :
    Spans tokens length (g.functionTypeParams depth) fun ts => ts.map TypeExpr.outline := by
  refine spans_of_builds fun s => builds_bind ((spans_accept row (by decide)).builds row) fun found => ?_
  split
  · exact builds_pure (.refl _)
  · refine builds_bind ((spans_types row lays depth).builds row) fun ts => ?_
    exact builds_expect_bind row (by decide) fun _ _ _ => builds_pure (.refl _)

theorem spansAt_functionType {t : Token} (inside : t.kind ≠ .endOfInput) :
    SpansAt tokens length t (g.functionType depth) fun t => [t.outline] := by
  refine spansAt_next_bind row inside fun s first found => ?_
  refine builds_bind ((spans_functionTypeParams row lays depth).builds row) fun params => ?_
  refine builds_expect_bind row (by decide) fun _ _ _ => ?_
  refine builds_bind ((lays.type depth).builds row) fun result => ?_
  refine builds_bind (builds_markFrom row first found inside) fun m => builds_pure ?_
  simp [TypeExpr.outline]

theorem spansAt_namedType {t : Token} (inside : t.kind ≠ .endOfInput) :
    SpansAt tokens length t (g.namedType depth) fun t => [t.outline] := by
  refine spansAt_next_bind row inside fun s first found => ?_
  refine builds_bind ((spans_accept row (by decide)).builds row) fun isGeneric => ?_
  split
  · refine builds_bind ((spans_types row lays depth).builds row) fun args => ?_
    refine builds_expect_bind row (by decide) fun _ _ _ => ?_
    refine builds_bind (builds_markFrom row first found inside) fun m => builds_pure ?_
    simp [TypeExpr.outline]
  · exact builds_first_leaf row first found inside (builds_pure (.refl _))

theorem spans_typeStep : Spans tokens length (g.typeStep depth) fun t => [t.outline] := by
  refine spans_enter_bind fun depth => spans_peek_bind fun start => ?_
  dsimp only
  have rest : ∀ (t : TypeExpr) s, s.head = start → start ∈ tokens → start.kind ≠ .endOfInput →
      Builds tokens length true s [t.outline] (do
        if ← accept (.symbol .question) then return t.asNullable (← spanFrom start)
        else return t) fun t => [t.outline] := by
    intro t s first found inside
    refine builds_bind ((spans_accept row (by decide)).builds row) fun isNullable => ?_
    split
    · obtain ⟨parts, whole, renewed⟩ := TypeExpr.outline_asNullable t
      rw [whole, List.append_nil]
      refine builds_parts (builds_bind (builds_spanFrom row first found inside) fun span => builds_pure ?_)
      rw [renewed]
    · exact builds_pure (.refl _)
  split
  · next kind => exact spansAt_bind row (spansAt_functionType row lays depth (by rw [kind]; decide)) (by simp) rest
  · next kind => exact spansAt_bind row (spansAt_namedType row lays depth (by rw [kind]; decide)) (by simp) rest
  · exact spansAt_bind row (φ := fun t => [t.outline]) (fun _ _ _ _ _ run => by cases run) (by simp) rest

end Types

/-! ## Markup -/

omit row in
theorem inside_of_isName {t : Token} (named : t.kind.isName = true) : t.kind ≠ .endOfInput := by
  intro atEnd
  rw [atEnd] at named
  cases named

theorem spans_textRest (sofar : Text) (fuel : Nat) : Spans tokens length (textRest sofar fuel) fun _ => [] := by
  induction fuel generalizing sofar with
  | zero => exact spans_pure rfl
  | succ fuel ih =>
    refine spans_peek_bind fun t => ?_
    split
    · exact (spans_pure rfl).at
    · next inText =>
      have inside : t.kind ≠ .endOfInput := fun atEnd => inText (by rw [atEnd]; rfl)
      intro c all c' on here run
      obtain ⟨_, _, got, run⟩ := bind_ok run
      cases got
      refine spansAt_next_bind (φ := fun _ => []) row inside (fun s first found => ?_) c all c' on here run
      exact (ih _).builds row

theorem spansAt_text {t : Token} (inside : t.kind ≠ .endOfInput) :
    SpansAt tokens length t text fun c => [c.outline] := by
  refine spansAt_next_bind row inside fun s first found => ?_
  refine builds_bind (spans_get.builds row) fun _ => ?_
  refine builds_bind ((spans_textRest row _ _).builds row) fun all => ?_
  refine builds_bind (builds_markFrom row first found inside) fun m => builds_pure ?_
  simp [Child.outline]

theorem spansAt_closingTag {t : Token} (inside : t.kind ≠ .endOfInput) (tag : String) :
    SpansAt tokens length t (closingTag tag) fun _ => [] := by
  refine spansAt_next_bind row inside fun s first found => ?_
  refine builds_next_bind row (fun c a c' on atEnd run => ?_) fun t found inside => ?_
  · obtain ⟨t, mid, taken, run⟩ := bind_ok run
    obtain ⟨-, still⟩ := next_still row on atEnd taken
    dsimp only at run
    split at run
    · cases run
    · obtain ⟨_, _, taken, -⟩ := bind_ok run
      obtain ⟨_, _, looked, taken⟩ := bind_ok taken
      cases looked
      have other : (mid.head.kind == .symbol .greater) = false := by
        rw [still, atEnd]
        rfl
      rw [show mid.ahead.headD mid.last = mid.head from rfl, other] at taken
      cases taken
  · dsimp only
    split
    · exact builds_failAt_bind
    · exact builds_expect_bind row (by decide) fun _ _ _ => builds_pure (.refl _)

section Markup

variable {g : Grammar} (lays : g.Lays tokens length) (depth : Nat)
include lays

theorem spansAt_attr {t : Token} (inside : t.kind ≠ .endOfInput) :
    SpansAt tokens length t (g.attr depth) fun a => [a.outline] := by
  refine spansAt_next_bind row inside fun s first found => ?_
  refine builds_expect_bind row (by decide) fun _ _ _ => builds_peek_bind fun v => ?_
  dsimp only
  have rest : ∀ e : Expr, Builds tokens length true s [e.outline]
      (do return (⟨← markFrom t t, t.word, e⟩ : Attribute)) fun a => [a.outline] := by
    intro e
    refine builds_bind (builds_markFrom row first found inside) fun m => builds_pure ?_
    simp [Attribute.outline]
  split
  · next kind => exact buildsAt_next_leaf_bind row (by rw [kind]; decide) (rest (.string ⟨v, v.contents⟩))
  · next kind =>
    refine buildsAt_next_bind row (by rw [kind]; decide) ?_
    refine builds_bind ((lays.expression depth 0).builds row) fun e => ?_
    exact builds_expect_bind row (by decide) fun _ _ _ => rest e
  · exact builds_failAt_bind.at

theorem spans_attributesUpTo (fuel : Nat) :
    Spans tokens length (g.attributesUpTo depth fuel) fun as => as.map Attribute.outline := by
  induction fuel with
  | zero => exact spans_pure rfl
  | succ fuel ih =>
    refine spans_peek_bind fun t => ?_
    split
    · next named =>
      refine spansAt_bind row (spansAt_attr row lays depth (inside_of_isName named)) (by simp) fun a s _ _ _ => ?_
      exact builds_bind (ih.builds row) fun more => builds_pure (.refl _)
    · exact (spans_pure rfl).at

theorem spansAt_hole {t : Token} (inside : t.kind ≠ .endOfInput) :
    SpansAt tokens length t (g.hole depth) fun c => [c.outline] := by
  refine spansAt_next_bind row inside fun s first found => ?_
  refine builds_bind ((lays.expression depth 0).builds row) fun e => ?_
  refine builds_expect_bind row (by decide) fun _ _ _ => ?_
  refine builds_bind (builds_markFrom row first found inside) fun m => builds_pure ?_
  simp [Child.outline]

theorem spans_childrenUpTo (tag : String) (fuel : Nat) :
    Spans tokens length (g.childrenUpTo depth tag fuel) fun cs => cs.map Child.outline := by
  induction fuel with
  | zero => exact spans_of_builds fun s => builds_bind (spans_peek.builds row) fun t => builds_failAt
  | succ fuel ih =>
    have others : ∀ (c : Child) (s : Cursor), Builds tokens length true s [c.outline]
        (do let more ← g.childrenUpTo depth tag fuel; return c :: more) fun cs => cs.map Child.outline :=
      fun c s => builds_bind (ih.builds row) fun more => builds_pure (.refl _)
    refine spans_peek_bind fun t => ?_
    split
    · exact fun _ _ _ _ _ run => by cases run
    · next kind =>
      intro c a c' on here run
      obtain ⟨_, mid, closed, run⟩ := bind_ok run
      cases run
      exact spansAt_closingTag row (by rw [kind]; decide) tag c _ _ on here closed
    · next kind =>
      exact spansAt_bind row (lays.element depth t kind) (by simp) fun e s _ _ _ => others (.element e) s
    · next kind =>
      exact spansAt_bind row (spansAt_hole row lays depth (by rw [kind]; decide)) (by simp) fun h s _ _ _ => others h s
    · next noEnd _ _ _ =>
      exact spansAt_bind row (spansAt_text row noEnd) (by simp) fun c s _ _ _ => others c s

theorem spansAt_elementStep {t : Token} (kind : t.kind = .symbol .less) :
    SpansAt tokens length t (g.elementStep depth) fun e => [e.outline] := by
  have inside : t.kind ≠ .endOfInput := by
    rw [kind]
    decide
  refine spansAt_enter_bind fun depth => spansAt_next_bind row inside fun s first found => ?_
  refine builds_next_bind row (fun c a c' on atEnd run => ?_) fun tagToken _ _ => ?_
  · obtain ⟨t', mid, taken, run⟩ := bind_ok run
    obtain ⟨rfl, -⟩ := next_still row on atEnd taken
    rw [atEnd] at run
    cases run
  · have rest : Builds tokens length true s [] (do
        let tag := tagToken.word
        let attributes ← g.attributesUpTo depth (← get).ahead.length
        if ← accept (.symbol .slashGreater) then
          return (⟨← markFrom t t, tag, attributes, [], true⟩ : Element)
        else
          let _ ← expect (.symbol .greater)
          let children ← g.childrenUpTo depth tag ((← get).ahead.length + 1)
          return ⟨← markFrom t t, tag, attributes, children, false⟩) fun e => [e.outline] := by
      refine builds_bind (spans_get.builds row) fun _ => ?_
      refine builds_bind ((spans_attributesUpTo row lays depth _).builds row) fun attributes => ?_
      refine builds_bind ((spans_accept row (by decide)).builds row) fun isClosed => ?_
      split
      · refine builds_bind (builds_markFrom row first found inside) fun m => builds_pure ?_
        simp [Element.outline]
      · refine builds_expect_bind row (by decide) fun _ _ _ => builds_bind (spans_get.builds row) fun _ => ?_
        refine builds_bind ((spans_childrenUpTo row lays depth _ _).builds row) fun children => ?_
        refine builds_bind (builds_markFrom row first found inside) fun m => builds_pure ?_
        simp [Element.outline]
    dsimp only at rest ⊢
    split
    · exact builds_failAt_bind
    · exact rest

theorem spansAt_markup {t : Token} (inside : t.kind ≠ .endOfInput) :
    SpansAt tokens length t (g.markup depth) fun e => [e.outline] := by
  refine spansAt_next_bind row inside fun s first found => builds_peekIs_bind fun u => ?_
  dsimp only
  have rest : u.kind = .symbol .less → BuildsAt tokens length u true s [] (do
      let e ← g.element depth
      return Expr.markup { e with mark := { e.mark with span := ← spanFrom t } }) fun e => [e.outline] := by
    intro kind c e c' on here covers run
    obtain ⟨e, mid, read, run⟩ := bind_ok run
    obtain ⟨onMid, more⟩ := lays.element depth u kind c e mid on here read
    have covers : Cursor.Covers tokens length true s mid [e.outline] := covers.append row more
    obtain ⟨parts, whole, renewed⟩ := Element.outline_remark e
    rw [whole] at covers
    refine builds_parts (φ := fun e => [Expr.outline e])
      (builds_bind (builds_spanFrom row first found inside) fun span => builds_pure ?_) mid _ c' onMid covers run
    rw [renewed]
  split
  · exact (builds_bind (spans_peek.builds row) fun t => builds_failAt_bind).at
  · next kind => exact rest (by simpa using kind)

end Markup

/-! ## Expressions -/

section Expressions

variable {g : Grammar} (lays : g.Lays tokens length) (depth : Nat)
include lays

theorem spans_expressions {stop : TokenKind} (inside : stop ≠ .endOfInput) :
    Spans tokens length (g.expressions depth stop) fun es => es.map Expr.outline := by
  refine spans_of_builds fun s => builds_bind ((spans_accept row inside).builds row) fun found => ?_
  split
  · exact builds_pure (.refl _)
  · refine builds_bind ((spans_commaList row (lays.expression depth 0)).builds row) fun es => ?_
    exact builds_expect_bind row inside fun _ _ _ => builds_pure (.refl _)

theorem spans_lambdaBody : Spans tokens length (g.lambdaBody depth) fun b => [b.outline] := by
  refine spans_of_builds fun s => builds_bind ((spans_peekIs _).builds row) fun found => ?_
  split
  · refine builds_bind ((spans_block row lays depth).builds row) fun b => builds_pure ?_
    simp [LambdaBody.outline]
  · refine builds_bind ((lays.expression depth 0).builds row) fun e => builds_pure ?_
    simp [LambdaBody.outline]

theorem spansAt_lambda {t : Token} (inside : t.kind ≠ .endOfInput) :
    SpansAt tokens length t (g.lambda depth) fun e => [e.outline] := by
  refine spansAt_next_bind row inside fun s first found => ?_
  refine builds_bind ((spans_parameters row lays depth).builds row) fun params => ?_
  refine builds_bind ((spans_annotatedType row lays depth).builds row) fun result => ?_
  refine builds_expect_bind row (by decide) fun _ _ _ => ?_
  refine builds_bind ((spans_lambdaBody row lays depth).builds row) fun body => ?_
  refine builds_bind (builds_markFrom row first found inside) fun m => builds_pure ?_
  simp [Expr.outline]

theorem spansAt_group {t : Token} (inside : t.kind ≠ .endOfInput) :
    SpansAt tokens length t (g.group depth) fun e => [e.outline] := by
  refine spansAt_next_bind row inside fun s first found => ?_
  refine builds_bind ((lays.expression depth 0).builds row) fun e => ?_
  exact builds_expect_bind row (by decide) fun _ _ _ => builds_pure (.refl _)

theorem spansAt_creation {t : Token} (inside : t.kind ≠ .endOfInput) :
    SpansAt tokens length t (g.creation depth) fun e => [e.outline] := by
  refine spansAt_next_bind row inside fun s first found => ?_
  refine builds_bind ((lays.type depth).builds row) fun type => ?_
  have rest : Builds tokens length true s [type.outline] (do
      let _ ← expect (.symbol .leftParen)
      let args ← g.expressions depth (.symbol .rightParen)
      return Expr.create (← markFrom t t) type args) fun e => [e.outline] := by
    refine builds_expect_bind row (by decide) fun _ _ _ => ?_
    refine builds_bind ((spans_expressions row lays depth (by decide)).builds row) fun args => ?_
    refine builds_bind (builds_markFrom row first found inside) fun m => builds_pure ?_
    simp [Expr.outline]
  dsimp only
  split
  · exact builds_bind (spans_get.builds row) fun c => builds_failAt_bind
  · exact rest

theorem spansAt_unary {t : Token} (inside : t.kind ≠ .endOfInput) (op : UnaryOp) :
    SpansAt tokens length t (g.unary depth op) fun e => [e.outline] := by
  refine spansAt_next_bind row inside fun s first found => ?_
  refine builds_bind ((lays.expression depth _).builds row) fun operand => ?_
  refine builds_bind (builds_markFrom row first found inside) fun m => builds_pure ?_
  simp [Expr.outline]

omit lays in
theorem spansAt_parent {t : Token} (inside : t.kind ≠ .endOfInput) :
    SpansAt tokens length t parent fun e => [e.outline] := by
  refine spansAt_next_bind row inside fun s first found => builds_first_leaf row first found inside ?_
  refine builds_peek_bind fun ahead => Builds.at ?_
  dsimp only
  split
  · exact builds_failAt_bind
  · exact builds_pure (.refl _)

theorem spans_operand : Spans tokens length (g.operand depth) fun e => [e.outline] := by
  refine spans_peek_bind fun t => ?_
  have leaf {f : Token → Reader Expr} (inside : t.kind ≠ .endOfInput)
      (isLeaf : ∃ e, f t = pure e ∧ e.outline = .leaf t) :
      SpansAt tokens length t (next >>= f) fun e => [e.outline] := by
    refine spansAt_next_bind row inside fun s first found => builds_first_leaf row first found inside ?_
    obtain ⟨e, same, outline⟩ := isLeaf
    rw [same]
    exact builds_pure (by rw [outline])
  split
  · next kind => exact leaf (by rw [kind]; decide) ⟨_, rfl, rfl⟩
  · next kind => exact leaf (by rw [kind]; decide) ⟨_, rfl, rfl⟩
  · next kind => exact leaf (by rw [kind]; decide) ⟨_, rfl, rfl⟩
  · next kind => exact leaf (by rw [kind]; decide) ⟨_, rfl, rfl⟩
  · next kind => exact leaf (by rw [kind]; decide) ⟨_, rfl, rfl⟩
  · next kind => exact leaf (by rw [kind]; decide) ⟨_, rfl, rfl⟩
  · next kind => exact spansAt_parent row (by rw [kind]; decide)
  · next kind => exact spansAt_creation row lays depth (by rw [kind]; decide)
  · next kind => exact spansAt_markup row lays depth (by rw [kind]; decide)
  · next kind =>
    have inside : t.kind ≠ .endOfInput := by
      rw [kind]
      decide
    refine spansAt_next_bind row inside fun s first found => ?_
    refine builds_bind ((spans_expressions row lays depth (by decide)).builds row) fun elements => ?_
    refine builds_bind (builds_markFrom row first found inside) fun m => builds_pure ?_
    simp [Expr.outline]
  · next kind =>
    have inside : t.kind ≠ .endOfInput := by
      rw [kind]
      decide
    intro c e c' on here run
    obtain ⟨_, _, got, run⟩ := bind_ok run
    cases got
    split at run
    · exact spansAt_lambda row lays depth inside c e c' on here run
    · exact spansAt_group row lays depth inside c e c' on here run
  · next kind => exact spansAt_unary row lays depth (by rw [kind]; decide) _
  · next kind => exact spansAt_unary row lays depth (by rw [kind]; decide) _
  · exact fun _ _ _ _ _ run => by cases run

variable {s : Cursor} {start : Token} (first : s.head = start) (found : start ∈ tokens)
  (inside : start.kind ≠ .endOfInput)
include first found inside

theorem buildsAt_infixStep (left : Expr) {t : Token} {kind : Infix} (isInfix : Infix.ofKind? t.kind = some kind) :
    BuildsAt tokens length t true s [left.outline] (g.infixStep depth start left kind) fun e => [e.outline] := by
  have within : t.kind ≠ .endOfInput := by
    intro atEnd
    rw [atEnd] at isInfix
    cases isInfix
  refine buildsAt_next_bind row within ?_
  cases kind with
  | binary op =>
    refine builds_bind ((lays.expression depth _).builds row) fun right => ?_
    refine builds_bind (builds_markFrom row first found inside) fun m => builds_pure ?_
    simp [Expr.outline]
  | assign =>
    have rest : Builds tokens length true s [left.outline] (do
        let value ← g.expression depth (Precedence.assignment - 1)
        return Expr.assign (← markFrom t start) left value) fun e => [e.outline] := by
      refine builds_bind ((lays.expression depth _).builds row) fun value => ?_
      refine builds_bind (builds_markFrom row first found inside) fun m => builds_pure ?_
      simp [Expr.outline]
    dsimp only
    split
    · exact builds_failAt_bind
    · exact rest
  | call =>
    refine builds_bind ((spans_expressions row lays depth (by decide)).builds row) fun args => ?_
    refine builds_bind (builds_markFrom row first found inside) fun m => builds_pure ?_
    simp [Expr.outline]
  | index =>
    refine builds_bind ((lays.expression depth 0).builds row) fun i => ?_
    refine builds_expect_bind row (by decide) fun _ _ _ => ?_
    refine builds_bind (builds_markFrom row first found inside) fun m => builds_pure ?_
    simp [Expr.outline]
  | member =>
    refine builds_bind ((spans_name row).builds row) fun property => ?_
    refine builds_bind (builds_markFrom row first found inside) fun m => builds_pure ?_
    simp [Expr.outline]

theorem builds_infixRest (precedence : Nat) (left : Expr) (fuel : Nat) :
    Builds tokens length true s [left.outline] (g.infixRest depth precedence start left fuel) fun e => [e.outline] := by
  induction fuel generalizing left with
  | zero => exact builds_pure (.refl _)
  | succ fuel ih =>
    have still {t : Token} : BuildsAt tokens length t true s [left.outline] (pure left) fun e => [e.outline] :=
      Builds.at (φ := fun e => [Expr.outline e]) (builds_pure (.refl _))
    refine builds_peek_bind fun t => ?_
    split
    · exact still
    · next kind isInfix =>
      split
      · intro c e c' on here covers run
        obtain ⟨left', mid, stepped, run⟩ := bind_ok run
        obtain ⟨onMid, covers⟩ :=
          buildsAt_infixStep row lays depth first found inside left isInfix c left' mid on here covers stepped
        exact ih left' mid e c' onMid covers run
      · exact still

omit first found inside in
theorem spans_expressionStep (precedence : Nat) :
    Spans tokens length (g.expressionStep depth precedence) fun e => [e.outline] := by
  refine spans_enter_bind fun depth => spans_peek_bind fun start => ?_
  refine spansAt_bind row (spans_operand row lays depth).at (by simp) fun left s first found inside => ?_
  refine builds_bind (φ := fun _ => [left.outline]) ?_ fun c =>
    builds_infixRest row lays depth first found inside precedence left _
  have got : Builds tokens length true s [left.outline] get fun _ => [left.outline] ++ [] := spans_get.builds row
  simpa using got

end Expressions

/-! ## Declarations -/

theorem spans_modifiersFrom (m : Modifiers) (fuel : Nat) : Spans tokens length (modifiersFrom m fuel) fun _ => [] := by
  induction fuel generalizing m with
  | zero => exact spans_pure rfl
  | succ fuel ih =>
    have checked {m : Modifiers} {t : Token} : SpansAt tokens length t
        (if m.isPublic && m.isPrivate then failAt .publicAndPrivate t else pure m : Reader Modifiers) fun _ => [] := by
      split
      · exact fun _ _ _ _ _ run => by cases run
      · exact (spans_pure rfl).at
    refine spans_peek_bind fun t => ?_
    split
    · next k kind =>
      split
      · split
        · exact fun _ _ _ _ _ run => by cases run
        · refine spansAt_next_bind row (by rw [kind]; nofun) fun s first found => ?_
          exact (ih _).builds row
      · exact checked
    · exact checked

theorem spans_modifiers : Spans tokens length modifiers fun _ => [] :=
  spans_of_builds fun _ => builds_bind (spans_get.builds row) fun _ => (spans_modifiersFrom row _ _).builds row

/-- The outline of a member. -/
def Member.outline : Member → Outline
  | .field f => f.outline
  | .method m => m.outline

section Declarations

variable {g : Grammar} (lays : g.Lays tokens length) (depth : Nat)
include lays

section Members

variable {s : Cursor} {start : Token} (first : s.head = start) (found : start ∈ tokens)
  (inside : start.kind ≠ .endOfInput) (annotations : List Annotation) (nameToken : Token) (mods : Modifiers)
include first found inside

theorem builds_method :
    Builds tokens length true s (annotations.map Annotation.outline ++ [Outline.leaf nameToken])
      (g.method depth start nameToken annotations mods) fun m => [m.outline] := by
  unfold method
  refine builds_bind ((spans_typeParameters row).builds row) fun typeParams => ?_
  refine builds_expect_bind row (by decide) fun _ _ _ => ?_
  refine builds_bind ((spans_parameters row lays depth).builds row) fun params => ?_
  refine builds_bind ((spans_annotatedType row lays depth).builds row) fun result => ?_
  refine builds_bind ((spans_peekIs _).builds row) fun hasBody => ?_
  dsimp only
  have rest : ∀ body : Option Block, Builds tokens length true s (annotations.map Annotation.outline ++
      [Outline.leaf nameToken] ++ typeParams.map Name.outline ++ params.map Param.outline ++ TypeExpr.outlineOf? result ++
      Block.outlineOf? body) (do return {
        mark := ← markFrom nameToken start
        annotations := annotations
        modifiers := if mods.isPublic || mods.isPrivate then mods else { mods with isPublic := true }
        name := Name.ofToken nameToken
        isConstructor := nameToken.kind == .keyword .constructorWord
        typeParams := typeParams
        params := params
        result
        body }) fun m : Method => [m.outline] := by
    intro body
    refine builds_bind (builds_markFrom row first found inside) fun m => builds_pure ?_
    simp [Method.outline, Name.outline, Name.ofToken]
  rw [List.append_nil]
  split
  · exact builds_bind ((spans_block row lays depth).builds row) fun b => rest (some b)
  · exact builds_expect_bind row (by decide) fun _ _ _ => by simpa [Block.outlineOf?] using rest none

theorem builds_field :
    Builds tokens length true s (annotations.map Annotation.outline ++ [Outline.leaf nameToken])
      (g.field depth start nameToken annotations mods) fun f => [f.outline] := by
  unfold field
  refine builds_bind ((spans_annotatedType row lays depth).builds row) fun type => ?_
  refine builds_bind ((spans_initialiser row lays depth).builds row) fun init => ?_
  refine builds_expect_bind row (by decide) fun _ _ _ => ?_
  refine builds_bind (builds_markFrom row first found inside) fun m => builds_pure ?_
  simp [Field.outline, Name.outline, Name.ofToken]

end Members

theorem spansAt_member {t : Token} (inside : t.kind ≠ .endOfInput) :
    SpansAt tokens length t (g.member depth) fun m => [Member.outline m] := by
  refine spansAt_peek_bind (spansAt_of_builds fun s first found => ?_)
  refine builds_bind ((spans_annotations row).builds row) fun annotations => ?_
  refine builds_bind ((spans_modifiers row).builds row) fun mods => builds_peek_bind fun nameToken => ?_
  dsimp only
  rw [List.nil_append, List.append_nil]
  split
  · exact builds_failAt_bind.at
  · next named =>
    have within : nameToken.kind ≠ .endOfInput := by
      intro atEnd
      rw [atEnd] at named
      exact named rfl
    refine buildsAt_next_leaf_bind row within (builds_peek_bind fun ahead => Builds.at ?_)
    split
    · exact builds_bind (builds_method row lays depth first found inside annotations nameToken mods) fun m =>
        builds_pure (.refl _)
    · split
      · exact builds_failAt_bind
      · exact builds_bind (builds_field row lays depth first found inside annotations nameToken mods) fun f =>
          builds_pure (.refl _)

theorem spans_membersUpTo (owner : String) (taken : List String) (fuel : Nat) :
    Spans tokens length (g.membersUpTo depth owner taken fuel) fun ms => ms.map Member.outline := by
  induction fuel generalizing taken with
  | zero => exact spans_of_builds fun s => builds_bind (spans_peek.builds row) fun t => builds_failAt
  | succ fuel ih =>
    have still {t : Token} : SpansAt tokens length t (pure []) fun ms => ms.map Member.outline := (spans_pure rfl).at
    refine spans_peek_bind fun t => ?_
    split
    · exact still
    · split
      · exact fun _ _ _ _ _ run => by cases run
      · next within =>
        have inside : t.kind ≠ .endOfInput := by simpa using within
        refine spansAt_bind row (spansAt_member row lays depth inside) (by simp) fun m s _ _ _ => ?_
        dsimp only
        split
        · exact builds_failAt_bind
        · exact builds_bind ((ih _).builds row) fun more => builds_pure (.refl _)

omit row lays in
theorem membersUpTo_stops {owner : String} {taken : List String} {fuel : Nat} {c c' : Cursor} {ms : List Member}
    (run : g.membersUpTo depth owner taken fuel c = .ok (ms, c')) : c'.head.kind = .symbol .rightBrace := by
  induction fuel generalizing taken c ms with
  | zero => cases run
  | succ fuel ih =>
    obtain ⟨_, _, looked, run⟩ := bind_ok run
    cases looked
    split at run
    · next found =>
      cases run
      exact beq_iff_eq.1 found
    · split at run
      · cases run
      · obtain ⟨m, mid, -, run⟩ := bind_ok run
        dsimp only at run
        split at run
        · cases run
        · obtain ⟨more, last, read, run⟩ := bind_ok run
          cases run
          exact ih read

omit row lays in
/-- Splitting members into fields and methods only reorders them. -/
theorem members_perm (ms : List Member) :
    (ms.map Member.outline).Perm
      ((ms.filterMap fun | .field f => some f | .method _ => none).map Field.outline ++
        (ms.filterMap fun | .field _ => none | .method m => some m).map Method.outline) := by
  induction ms with
  | nil => exact .nil
  | cons m ms ih =>
    cases m with
    | field f => exact ih.cons _
    | method m => exact (ih.cons _).trans List.perm_middle.symm

theorem spans_members (owner : String) :
    Spans tokens length (g.members depth owner) fun ms => ms.1.map Field.outline ++ ms.2.map Method.outline := by
  refine spans_of_builds fun s => builds_expect_bind row (by decide) fun _ _ _ => ?_
  refine builds_bind (spans_get.builds row) fun _ => ?_
  refine builds_bind_next row ((spans_membersUpTo row lays depth owner [] _).builds row) (fun read => ?_) fun all =>
    builds_pure (members_perm all)
  rw [membersUpTo_stops depth read]
  decide

section Heads

variable {s : Cursor} {start : Token} (first : s.head = start) (found : start ∈ tokens)
  (inside : start.kind ≠ .endOfInput) (head : Token) (annotations : List Annotation)
include first found inside

theorem builds_classDeclaration (isOpen : Bool) :
    Builds tokens length true s (annotations.map Annotation.outline)
      (g.classDeclaration depth start head annotations isOpen) fun d => [d.outline] := by
  unfold classDeclaration
  refine builds_bind ((spans_name row).builds row) fun name => ?_
  refine builds_bind ((spans_typeParameters row).builds row) fun typeParams => ?_
  refine builds_bind ((spans_accept row (by decide)).builds row) fun extends_ => ?_
  dsimp only
  have body : ∀ parent interfaces, Builds tokens length true s (annotations.map Annotation.outline ++ [name.outline] ++
      typeParams.map Name.outline ++ TypeExpr.outlineOf? parent ++ interfaces.map TypeExpr.outline) (do
        let members ← g.members depth name.text
        return (⟨← markFrom head start, annotations, .ofClass isOpen parent interfaces, name, typeParams, members.1,
          members.2⟩ : Declaration)) fun d => [d.outline] := by
    intro parent interfaces
    refine builds_bind ((spans_members row lays depth _).builds row) fun members => ?_
    refine builds_bind (builds_markFrom row first found inside) fun m => builds_pure ?_
    simp [Declaration.outline, Heading.outlines]
  have rest : ∀ parent, Builds tokens length true s (annotations.map Annotation.outline ++ [name.outline] ++
      typeParams.map Name.outline ++ TypeExpr.outlineOf? parent) (do
        let interfaces ← if ← accept (.keyword .implementsWord) then g.types depth else pure []
        let members ← g.members depth name.text
        return (⟨← markFrom head start, annotations, .ofClass isOpen parent interfaces, name, typeParams, members.1,
          members.2⟩ : Declaration)) fun d => [d.outline] := by
    intro parent
    refine builds_bind ((spans_accept row (by decide)).builds row) fun implements => ?_
    dsimp only
    rw [List.append_nil]
    split
    · exact builds_bind ((spans_types row lays depth).builds row) fun ts => body parent ts
    · have none := body parent []
      rw [List.map_nil, List.append_nil] at none
      exact none
  rw [List.append_nil]
  split
  · exact builds_bind ((lays.type depth).builds row) fun t => rest (some t)
  · simpa [TypeExpr.outlineOf?] using rest none

theorem builds_interfaceBody (name : Name) (typeParams : List Name) (parents : List TypeExpr) :
    Builds tokens length true s (annotations.map Annotation.outline ++ [name.outline] ++ typeParams.map Name.outline ++
      parents.map TypeExpr.outline) (do
        let members ← g.members depth name.text
        match members.2.find? (·.isConstructor) with
        | some m => failAt (.interfaceConstructor name.text) m.mark.head
        | none =>
          return (⟨← markFrom head start, annotations, .ofInterface parents, name, typeParams, members.1,
            members.2⟩ : Declaration)) fun d => [d.outline] := by
  refine builds_bind ((spans_members row lays depth _).builds row) fun members => ?_
  split
  · exact builds_failAt
  · refine builds_bind (builds_markFrom row first found inside) fun m => builds_pure ?_
    simp [Declaration.outline, Heading.outlines]

theorem builds_interfaceDeclaration :
    Builds tokens length true s (annotations.map Annotation.outline)
      (g.interfaceDeclaration depth start head annotations) fun d => [d.outline] := by
  unfold interfaceDeclaration
  refine builds_bind ((spans_name row).builds row) fun name => ?_
  refine builds_bind ((spans_typeParameters row).builds row) fun typeParams => ?_
  refine builds_bind ((spans_accept row (by decide)).builds row) fun extends_ => ?_
  dsimp only
  have body := builds_interfaceBody row lays depth first found inside head annotations name typeParams
  rw [List.append_nil]
  split
  · exact builds_bind ((spans_types row lays depth).builds row) fun ts => body ts
  · have none := body []
    rw [List.map_nil, List.append_nil] at none
    exact none

end Heads

theorem spansAt_declaration {t : Token} (inside : t.kind ≠ .endOfInput) :
    SpansAt tokens length t (g.declaration depth) fun d => [d.outline] := by
  refine spansAt_peek_bind (spansAt_of_builds fun s first found => ?_)
  refine builds_bind ((spans_annotations row).builds row) fun annotations => builds_peek_bind fun u => ?_
  rw [List.nil_append]
  split
  · next kind =>
    refine buildsAt_next_bind row (by rw [kind]; decide) (builds_expect_bind row (by decide) fun head _ _ => ?_)
    exact builds_classDeclaration row lays depth first found inside head annotations true
  · next kind =>
    exact buildsAt_next_bind row (by rw [kind]; decide)
      (builds_classDeclaration row lays depth first found inside u annotations false)
  · next kind =>
    exact buildsAt_next_bind row (by rw [kind]; decide)
      (builds_interfaceDeclaration row lays depth first found inside u annotations)
  · exact builds_failAt.at

end Declarations

/-! ## Statements -/

theorem spans_importNames : Spans tokens length importNames fun names => names.map Name.outline := by
  refine spans_of_builds fun s => builds_bind ((spans_accept row (by decide)).builds row) fun found => ?_
  split
  · refine builds_bind ((spans_commaList row (spans_name row)).builds row) fun names => ?_
    refine builds_expect_bind row (by decide) fun _ _ _ => ?_
    exact builds_expect_bind row (by decide) fun _ _ _ => builds_pure (.refl _)
  · exact builds_pure (.refl _)

theorem spansAt_importing {t : Token} (inside : t.kind ≠ .endOfInput) :
    SpansAt tokens length t importing fun s => [s.outline] := by
  refine spansAt_next_bind row inside fun s first found => ?_
  refine builds_bind ((spans_importNames row).builds row) fun names => ?_
  refine builds_expect_leaf_bind row (by decide) fun path _ _ => builds_expect_bind row (by decide) fun _ _ _ => ?_
  refine builds_bind (builds_markFrom row first found inside) fun m => builds_pure ?_
  simp [Stmt.outline, Quotation.outline]

section Statements

variable {g : Grammar} (lays : g.Lays tokens length) (depth : Nat)
include lays

theorem spans_parenthesised : Spans tokens length (g.parenthesised depth) fun e => [e.outline] := by
  refine spans_of_builds fun s => builds_expect_bind row (by decide) fun _ _ _ => ?_
  refine builds_bind ((lays.expression depth 0).builds row) fun e => ?_
  exact builds_expect_bind row (by decide) fun _ _ _ => builds_pure (.refl _)

theorem spansAt_arm (t : Token) :
    SpansAt tokens length t (do
      let value ← g.expression depth 0
      let _ ← expect (.symbol .fatArrow)
      let body ← g.block depth
      return (⟨← markFrom t t, value, body⟩ : Arm)) fun a => [a.outline] := by
  refine spansAt_bind row (lays.expression depth 0).at (by simp) fun value s first found inside => ?_
  refine builds_expect_bind row (by decide) fun _ _ _ => ?_
  refine builds_bind ((spans_block row lays depth).builds row) fun body => ?_
  refine builds_bind (builds_markFrom row first found inside) fun m => builds_pure ?_
  simp [Arm.outline]

/-- An arm that has been read is laid out, whatever follows. -/
theorem buildsAt_arm {β : Type} {t : Token} {moved : Bool} {s : Cursor} {nodes : List Outline} {ψ : β → List Outline}
    (f : Arm → Reader β) (rest : ∀ a, Builds tokens length moved s (nodes ++ [a.outline]) (f a) ψ) :
    BuildsAt tokens length t moved s nodes (do
      let value ← g.expression depth 0
      let _ ← expect (.symbol .fatArrow)
      let body ← g.block depth
      let m ← markFrom t t
      f ⟨m, value, body⟩) ψ := by
  intro c b c' on here covers run
  have regrouped : (do
      let value ← g.expression depth 0
      let _ ← expect (.symbol .fatArrow)
      let body ← g.block depth
      let m ← markFrom t t
      f ⟨m, value, body⟩) = ((do
        let value ← g.expression depth 0
        let _ ← expect (.symbol .fatArrow)
        let body ← g.block depth
        return (⟨← markFrom t t, value, body⟩ : Arm)) >>= f) := by
    simp only [bind_assoc, pure_bind]
  rw [regrouped] at run
  obtain ⟨a, mid, read, run⟩ := bind_ok run
  obtain ⟨onMid, more⟩ := spansAt_arm row lays depth t c a mid on here read
  exact rest a mid b c' onMid (covers.append row more) run

theorem builds_armsUpTo (fallback : Option Block) (fuel : Nat) (s : Cursor) (moved : Bool) (nodes : List Outline) :
    Builds tokens length moved s (nodes ++ Block.outlineOf? fallback) (g.armsUpTo depth fallback fuel)
      fun result => nodes ++ (result.1.map Arm.outline ++ Block.outlineOf? result.2) := by
  induction fuel generalizing fallback nodes moved with
  | zero => exact builds_bind (spans_peek.builds row) fun t => builds_failAt
  | succ fuel ih =>
    refine builds_peek_bind fun t => ?_
    split
    · exact Builds.at (builds_pure (.refl _))
    · split
      · exact builds_failAt.at
      · next noEnd =>
        split
        · refine buildsAt_next_bind row (by simpa using noEnd) ?_
          dsimp only
          split
          · exact builds_failAt_bind
          · next noFallback =>
            obtain rfl : fallback = none := by simpa using noFallback
            refine builds_expect_bind row (by decide) fun _ _ _ => ?_
            refine builds_bind ((spans_block row lays depth).builds row) fun b => ?_
            simpa [Block.outlineOf?] using ih (some b) true nodes
        · refine buildsAt_arm row lays depth (fun arm => do
            let result ← g.armsUpTo depth fallback fuel
            return (arm :: result.1, result.2)) fun arm => ?_
          have next := ih fallback moved (nodes ++ [arm.outline])
          refine builds_perm ?_ (builds_bind next fun result => builds_pure ?_)
          · rw [List.append_assoc, List.append_assoc]
            exact List.perm_append_comm.append_left nodes
          · simp

theorem spansAt_binding {t : Token} (inside : t.kind ≠ .endOfInput) :
    SpansAt tokens length t (g.binding depth) fun s => [s.outline] := by
  refine spansAt_next_bind row inside fun s first found => ?_
  refine builds_bind ((spans_name row).builds row) fun name => ?_
  refine builds_bind ((spans_annotatedType row lays depth).builds row) fun type => ?_
  refine builds_bind ((spans_initialiser row lays depth).builds row) fun value => ?_
  refine builds_expect_bind row (by decide) fun _ _ _ => ?_
  refine builds_bind (builds_markFrom row first found inside) fun m => builds_pure ?_
  simp [Stmt.outline]

theorem spansAt_returning {t : Token} (inside : t.kind ≠ .endOfInput) :
    SpansAt tokens length t (g.returning depth) fun s => [s.outline] := by
  refine spansAt_next_bind row inside fun s first found => ?_
  refine builds_bind ((spans_peekIs _).builds row) fun ends => ?_
  have rest : ∀ value : Option Expr, Builds tokens length true s (Expr.outlineOf? value) (do
      let _ ← expect (.symbol .semicolon)
      return Stmt.returns (← markFrom t t) value) fun s => [s.outline] := by
    intro value
    refine builds_expect_bind row (by decide) fun _ _ _ => ?_
    refine builds_bind (builds_markFrom row first found inside) fun m => builds_pure ?_
    simp [Stmt.outline]
  dsimp only
  split
  · exact rest none
  · exact builds_bind ((lays.expression depth 0).builds row) fun e => rest (some e)

theorem spansAt_branching {t : Token} (inside : t.kind ≠ .endOfInput) :
    SpansAt tokens length t (g.branching depth) fun s => [s.outline] := by
  refine spansAt_next_bind row inside fun s first found => ?_
  refine builds_bind ((spans_parenthesised row lays depth).builds row) fun condition => ?_
  refine builds_bind ((spans_block row lays depth).builds row) fun yes => ?_
  refine builds_bind ((spans_accept row (by decide)).builds row) fun hasElse => ?_
  have rest : ∀ no : Option Stmt, Builds tokens length true s ([condition.outline, yes.outline] ++ Stmt.outlineOf? no)
      (do return Stmt.branch (← markFrom t t) condition yes no) fun s => [s.outline] := by
    intro no
    refine builds_bind (builds_markFrom row first found inside) fun m => builds_pure ?_
    simp [Stmt.outline]
  dsimp only
  split
  · refine builds_bind ((spans_peekIs _).builds row) fun isIf => ?_
    split
    · exact builds_bind ((lays.statement depth).builds row) fun no => rest (some no)
    · refine builds_bind ((spans_block row lays depth).builds row) fun no => ?_
      exact rest (some (.block no))
  · exact rest none

omit row lays in
theorem armsUpTo_stops {fallback : Option Block} {fuel : Nat} {c c' : Cursor} {result : List Arm × Option Block}
    (run : g.armsUpTo depth fallback fuel c = .ok (result, c')) : c'.head.kind = .symbol .rightBrace := by
  induction fuel generalizing fallback c result with
  | zero => cases run
  | succ fuel ih =>
    obtain ⟨_, _, looked, run⟩ := bind_ok run
    cases looked
    split at run
    · next found =>
      cases run
      exact beq_iff_eq.1 found
    · split at run
      · cases run
      · split at run
        · obtain ⟨_, _, -, run⟩ := bind_ok run
          dsimp only at run
          split at run
          · cases run
          · obtain ⟨_, _, -, run⟩ := bind_ok run
            obtain ⟨_, _, -, run⟩ := bind_ok run
            exact ih run
        · obtain ⟨_, _, -, run⟩ := bind_ok run
          obtain ⟨_, _, -, run⟩ := bind_ok run
          obtain ⟨_, _, -, run⟩ := bind_ok run
          obtain ⟨_, _, -, run⟩ := bind_ok run
          obtain ⟨_, _, read, run⟩ := bind_ok run
          cases run
          exact ih read

theorem spansAt_selecting {t : Token} (inside : t.kind ≠ .endOfInput) :
    SpansAt tokens length t (g.selecting depth) fun s => [s.outline] := by
  refine spansAt_next_bind row inside fun s first found => ?_
  refine builds_bind ((spans_parenthesised row lays depth).builds row) fun subject => ?_
  refine builds_expect_bind row (by decide) fun _ _ _ => builds_bind (spans_get.builds row) fun _ => ?_
  refine builds_bind_next row (builds_armsUpTo row lays depth none _ s true _) (fun read => ?_) fun result => ?_
  · rw [armsUpTo_stops depth read]
    decide
  · refine builds_bind (builds_markFrom row first found inside) fun m => builds_pure ?_
    simp [Stmt.outline]

theorem spansAt_looping {t : Token} (inside : t.kind ≠ .endOfInput) :
    SpansAt tokens length t (g.looping depth) fun s => [s.outline] := by
  refine spansAt_next_bind row inside fun s first found => builds_expect_bind row (by decide) fun _ _ _ => ?_
  refine builds_bind ((spans_name row).builds row) fun item => builds_expect_bind row (by decide) fun _ _ _ => ?_
  refine builds_bind ((lays.expression depth 0).builds row) fun iterable => ?_
  refine builds_expect_bind row (by decide) fun _ _ _ => ?_
  refine builds_bind ((spans_block row lays depth).builds row) fun body => ?_
  refine builds_bind (builds_markFrom row first found inside) fun m => builds_pure ?_
  simp [Stmt.outline]

theorem spansAt_doing (t : Token) : SpansAt tokens length t (g.doing depth) fun s => [s.outline] := by
  refine spansAt_peek_bind ?_
  refine spansAt_bind row (lays.expression depth 0).at (by simp) fun e s first found inside => ?_
  refine builds_expect_bind row (by decide) fun _ _ _ => ?_
  refine builds_bind (builds_markFrom row first found inside) fun m => builds_pure ?_
  simp [Stmt.outline]

theorem spans_statementStep : Spans tokens length (g.statementStep depth) fun s => [s.outline] := by
  have declares {t : Token} (inside : t.kind ≠ .endOfInput) :
      SpansAt tokens length t (do return Stmt.declares (← g.declaration depth)) fun s => [s.outline] :=
    spansAt_bind row (spansAt_declaration row lays depth inside) (by simp) fun d s _ _ _ =>
      builds_pure (by rw [Stmt.outline_declares])
  refine spans_peek_bind fun t => ?_
  split
  · next kind => exact spansAt_importing row (by rw [kind]; decide)
  · next kind => exact declares (by rw [kind]; decide)
  · next kind => exact declares (by rw [kind]; decide)
  · next kind => exact declares (by rw [kind]; decide)
  · next kind => exact declares (by rw [kind]; decide)
  · next kind => exact spansAt_binding row lays depth (by rw [kind]; decide)
  · next kind => exact spansAt_returning row lays depth (by rw [kind]; decide)
  · next kind => exact spansAt_branching row lays depth (by rw [kind]; decide)
  · next kind => exact spansAt_selecting row lays depth (by rw [kind]; decide)
  · next kind => exact spansAt_looping row lays depth (by rw [kind]; decide)
  · refine Spans.at (spans_of_builds fun s => builds_bind ((spans_block row lays depth).builds row) fun b => ?_)
    exact builds_pure (.refl _)
  · exact spansAt_doing row lays depth t

end Statements

/-! ## Whole programs -/

theorem within_lays (fuel : Nat) : (within fuel).Lays tokens length := by
  induction fuel with
  | zero =>
    rw [within_zero]
    constructor
    · exact fun depth c a c' on run => by cases run
    · exact fun depth precedence c a c' on run => by cases run
    · exact fun depth c a c' on run => by cases run
    · exact fun depth t kind c a c' on here run => by cases run
  | succ fuel ih =>
    rw [within_succ]
    constructor
    · exact fun depth => spans_statementStep row ih depth
    · exact fun depth precedence => spans_expressionStep row ih depth precedence
    · exact fun depth => spans_typeStep row ih depth
    · exact fun depth t kind => spansAt_elementStep row ih depth kind

theorem spans_statementsUpTo {g : Grammar} (lays : g.Lays tokens length) (fuel : Nat) :
    Spans tokens length (g.statementsUpTo fuel) fun ss => ss.map Stmt.outline := by
  induction fuel with
  | zero => exact spans_of_builds fun s => builds_bind (spans_peek.builds row) fun t => builds_failAt
  | succ fuel ih =>
    refine spans_of_builds fun s => builds_bind ((spans_peekIs _).builds row) fun atEnd => ?_
    split
    · exact builds_pure (.refl _)
    · refine builds_bind ((lays.statement 0).builds row) fun s => builds_bind (ih.builds row) fun more => ?_
      exact builds_pure (.refl _)

theorem program_outline {g : Grammar} (lays : g.Lays tokens length) {file : String} {c c' : Cursor} {p : Program}
    (on : c.On tokens) (run : g.program file c = .ok (p, c')) (filled : p.statements ≠ []) :
    p.outline.Sound tokens length := by
  obtain ⟨start, _, looked, run⟩ := bind_ok run
  cases looked
  obtain ⟨_, _, got, run⟩ := bind_ok run
  cases got
  obtain ⟨ss, mid, read, run⟩ := bind_ok run
  obtain ⟨onMid, covers⟩ := spans_statementsUpTo row lays _ c ss mid on read
  dsimp only at run
  split at run
  · next none =>
    cases run
    exact absurd (List.isEmpty_iff.1 none) filled
  · next some =>
    have some : ss.map Stmt.outline ≠ [] := by simpa using some
    have inside := covers.inside row on some
    obtain ⟨span, last, spanned, run⟩ := bind_ok run
    cases run
    obtain ⟨-, covers⟩ :=
      builds_spanFrom row rfl on.head_mem inside mid span _ onMid (covers.moved some) spanned
    obtain ⟨-, laid⟩ := covers.resolve_left (by simp)
    rw [Program.outline, Stmt.outlines_eq]
    exact laid.sound _ List.mem_cons_self

end Grammar

/-- Spans form a tree over the source text of every program that is read: every node starts where a token starts, with
its line and column, covers some text, contains its parts, and no two of its parts overlap. -/
theorem Program.spans_form_a_tree {file : String} {source : Bytes} {p : Program}
    (read : Program.ofSource file source.text = .ok p) :
    ∃ tokens, source.text.tokens = .ok tokens ∧
      (p.statements ≠ [] → p.outline.Sound (Token.significant tokens) source.length) := by
  have length : source.length = source.text.width := by
    rw [← Text.length_bytes, Bytes.bytes_text]
  unfold Program.ofSource Token.ofSource at read
  cases scanned : source.text.tokens with
  | error fault =>
    rw [scanned] at read
    cases read
  | ok tokens =>
    rw [scanned] at read
    have read : Program.ofTokens file tokens = .ok p := read
    unfold Program.ofTokens at read
    dsimp only at read
    split at read
    · cases read
    · next program rest run =>
      cases read
      have row := Token.row_of_tokens scanned
      have on : Cursor.On (Token.significant tokens)
          ⟨(Token.significant tokens).headD default, Token.significant tokens⟩ :=
        ⟨Token.significant_ne_nil tokens, List.suffix_refl _⟩
      rw [length]
      exact ⟨tokens, rfl, Grammar.program_outline row (Grammar.within_lays row _) on run⟩

/-- A class with an annotation, a type with a question mark, parentheses around an operand, and markup. -/
def panelSource : Bytes :=
  Bytes.ofString "@ui open class Panel { item(n: Row? = (1 + n) * 2) { return vdom <li on={n}>n {n} <b/></li>; } }"

theorem panelSource_spans_form_a_tree :
    ∃ p tokens, Program.ofSource "panel" panelSource.text = .ok p ∧ panelSource.text.tokens = .ok tokens ∧
      p.outline.Sound (Token.significant tokens) panelSource.length := by
  have readable : ((Program.ofSource "panel" panelSource.text).toOption.any fun p => !p.statements.isEmpty) = true := by
    rw [panelSource, Text.text_ofString rfl]
    decide +kernel
  cases read : Program.ofSource "panel" panelSource.text with
  | error d =>
    rw [read] at readable
    cases readable
  | ok p =>
    rw [read] at readable
    have filled : p.statements ≠ [] := by simpa [Except.toOption] using readable
    obtain ⟨tokens, scanned, sound⟩ := Program.spans_form_a_tree read
    exact ⟨p, tokens, rfl, scanned, sound filled⟩

end ClassScript
