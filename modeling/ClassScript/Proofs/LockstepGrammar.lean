import ClassScript.Proofs.Lockstep
import ClassScript.Proofs.ReadBackPrograms

/-!
# Expressions in step

Types, markup and expressions are read in step, if the constructs inside them are (`Grammar.InStep`). What is closed by a
token of its own, such as markup, ends with it in both inputs; a type or an expression may go on where the first input
ends. Parentheses are the one place where the second reader may see another construct than the first: with an arrow behind
them, they hold the parameters of a lambda (`group_strays`), and an expression in them is read as a parameter
(`parameter_of_expressionStep`).
-/

namespace ClassScript

theorem Token.word_of_shape {t t' : Token} (same : t'.shape = t.shape) : t'.word = t.word := by
  rw [Token.word, Token.word, show t'.lexeme = t.lexeme from congrArg Shape.text same]

theorem Name.bare_of_shape {t t' : Token} (same : t'.shape = t.shape) : (Name.ofToken t').bare = (Name.ofToken t).bare := by
  rw [Name.bare, Name.bare, Name.ofToken, Name.ofToken, Token.word_of_shape same]

theorem TypeExpr.bare_asNullable (t : TypeExpr) (span : Span) : (t.asNullable span).bare = t.bare.asNullable Span.none := by
  cases t <;> rfl

theorem Child.bareAll_cons (x : Child) (xs : List Child) : Child.bareAll (x :: xs) = Child.bareAll [x] ++ Child.bareAll xs := by
  cases x <;> rfl

namespace Grammar

open Reader

variable {offset n : Nat} {a e : Parting}

/-! ## Names, annotations and modifiers -/

theorem accords_name : Accords offset n true a .never Name.bare name name :=
  accords_map (accords_expect rfl) fun _ _ same => Name.bare_of_shape same

theorem accords_typeParameters (early : a ≤ .ending) :
    Accords offset n false a .ending (List.map Name.bare) typeParameters typeParameters := by
  refine accords_accept_bind (Nat.le_succ n) early (by decide) rfl ?_ (accords_pure rfl)
  refine accords_bind (accords_commaList fun _ => accords_name.widen (Parting.never_le _)).weaken fun names names' same => ?_
  exact (accords_bind (accords_expect rfl).weaken fun _ _ _ => accords_pure same).widen (by decide)

theorem accords_annotationsUpTo {fuel fuel' : Nat} (le : fuel ≤ fuel') (early : a ≤ .ending) :
    Accords offset fuel false a .ending (List.map Annotation.bare) (annotationsUpTo fuel) (annotationsUpTo fuel') := by
  induction fuel generalizing fuel' a with
  | zero => exact accords_out fun holds run => by cases run; exact holds.mono early
  | succ fuel ih =>
    obtain ⟨fuel', rfl⟩ := Nat.exists_eq_add_of_le' le
    refine accords_peekIs_bind early (by decide) rfl ?_ (accords_pure rfl)
    refine accords_item (accords_next (by decide)) fun t t' same => ?_
    refine accords_map (ih (Nat.le_add_left _ _) (by decide)) fun as as' others => ?_
    rw [List.map_cons, List.map_cons, others, show t'.lexeme = t.lexeme from congrArg Shape.text same]
    rfl

theorem accords_annotations (early : a ≤ .ending) :
    Accords offset n false a .ending (List.map Annotation.bare) annotations annotations :=
  accords_get_bind fun _ _ le => accords_annotationsUpTo le early

theorem accords_modifiersFrom (mods : Modifiers) {fuel fuel' : Nat} (le : fuel ≤ fuel') (early : a ≤ .ending) :
    Accords offset fuel false a .ending id (modifiersFrom mods fuel) (modifiersFrom mods fuel') := by
  induction fuel generalizing fuel' a mods with
  | zero => exact accords_out fun holds run => by cases run; exact holds.mono early
  | succ fuel ih =>
    obtain ⟨fuel', rfl⟩ := Nat.exists_eq_add_of_le' le
    have stop {a : Parting} (t t' : Token) : Accords offset (fuel + 1) false a a id
        (if (mods.isPublic && mods.isPrivate) = true then failAt .publicAndPrivate t else pure mods)
        (if (mods.isPublic && mods.isPrivate) = true then failAt .publicAndPrivate t' else pure mods) :=
      accords_ite Iff.rfl (fun _ => accords_failAt) fun _ => accords_pure rfl
    refine accords_peek_bind early (by decide) (fun t t' same _ => ?_) fun {c _ _} atEnd run => ?_
    · rw [Token.kind_of_shape same]
      split
      · next k _ =>
        refine accords_ite Iff.rfl (fun _ => ?_) fun _ => (stop t t').widen (by decide)
        cases addModifier mods k with
        | none => exact accords_failAt
        | some m' => exact accords_item (accords_next (by decide)) fun _ _ _ => ih m' (Nat.le_add_left _ _) (by decide)
      · exact (stop t t').widen (by decide)
    · rw [show c.head.kind = .endOfInput from atEnd.kind] at run
      exact (stop _ default).parted atEnd run

theorem accords_modifiers (early : a ≤ .ending) : Accords offset n false a .ending id modifiers modifiers :=
  accords_get_bind fun _ _ le =>
    (accords_modifiersFrom {} (Nat.succ_le_succ le) early).fewer (Nat.le_succ _)

/-! ## Grammars in step -/

/-- The readers of two grammars accord with each other, and an expression that starts with a name in the first grammar
accords with a parameter in the second, if an item of a list may end behind that. -/
structure InStep (offset : Nat) (g g' : Grammar) : Prop where
  statement (n depth depth' : Nat) :
    Accords offset n true .ending .ending Stmt.bare (g.statement depth) (g'.statement depth')
  expression (n depth depth' : Nat) {precedence precedence' : Nat} :
    (∀ kind : Infix, precedence < kind.precedence ↔ precedence' < kind.precedence) →
      Accords offset n true .ending .stray Expr.bare (g.expression depth precedence) (g'.expression depth' precedence')
  type (n depth depth' : Nat) : Accords offset n true .ending .ending TypeExpr.bare (g.type depth) (g'.type depth')
  element (n depth depth' : Nat) :
    Accords offset n true .ending .never Element.bare (g.element depth) (g'.element depth')
  starts {depth precedence : Nat} {c c₁ : Cursor} {e : Expr} : g.expression depth precedence c = .ok (e, c₁) →
    startsExpr c.head.kind = true
  parameter {depth depth' : Nat} {c c' c₁ c₁' : Cursor} {e : Expr} {p : Param} : c.Alike offset c' →
    c.head.kind = .identifier → g.expression depth 0 c = .ok (e, c₁) → g'.parameter depth' c' = .ok (p, c₁') →
      c₁'.head.kind = .symbol .comma ∨ c₁'.head.kind = .symbol .rightParen → c₁.Alike offset c₁' ∨ Parting.stray.Holds c₁
  prolongs {depth depth' : Nat} {c c' c₁ c₁' : Cursor} {s s' : Stmt} : c.Alike offset c' →
    g.statement depth c = .ok (s, c₁) → c₁.AtEnd → g'.statement depth' c' = .ok (s', c₁') →
      s'.bare = s.bare ∨ s.bare.Prolongs s'.bare

section Parts

variable {g g' : Grammar} (inStep : InStep offset g g') {depth d : Nat}
include inStep

theorem accords_expression (early : a ≤ .ending) :
    Accords offset n true a .stray Expr.bare (g.expression depth 0) (g'.expression d 0) :=
  (inStep.expression n depth d fun _ => Iff.rfl).mono early

/-! ## Types and parameters -/

theorem accords_types (early : a ≤ .ending) :
    Accords offset n true a .stray TypeExpr.bareAll (g.types depth) (g'.types d) := by
  have items := accords_commaList (n := n) (a := a) fun n => ((inStep.type n depth d).mono early).widen (by decide)
  rwa [← funext TypeExpr.bareAll_eq] at items

theorem accords_annotatedType (early : a ≤ .ending) :
    Accords offset n false a .ending (Option.map TypeExpr.bare) (g.typeAnnotation depth) (g'.typeAnnotation d) :=
  accords_accept_bind (Nat.le_succ n) early (by decide) rfl
    (accords_map ((inStep.type n depth d).mono (by decide)).weaken fun _ _ same => congrArg some same)
    (accords_pure rfl)

theorem accords_initialiser (strays : a ≤ .stray) :
    Accords offset n false a .stray Expr.bareOption (g.initialiser depth) (g'.initialiser d) :=
  accords_accept_bind (Nat.le_succ n) strays (by decide) rfl
    (accords_map (accords_expression inStep (by decide)).weaken fun _ _ same => congrArg some same)
    (accords_pure rfl)

theorem accords_parameter :
    Accords offset n true a .stray Param.bare (g.parameter depth) (g'.parameter d) := by
  refine accords_bind (accords_expect rfl) fun start start' same => ?_
  refine accords_bind (accords_annotatedType inStep (by decide)) fun type type' sameType => ?_
  refine accords_bind (accords_initialiser inStep (by decide)) fun fallback fallback' sameFallback => ?_
  refine accords_mark fun m m' => ?_
  rw [Param.bare, Param.bare, sameType, sameFallback, Name.bare_of_shape same]

theorem accords_parameters (early : a ≤ .ending) :
    Accords offset n false a .never Param.bareAll (g.parameters depth) (g'.parameters d) := by
  refine accords_accept_bind (Nat.le_succ n) early (by decide) rfl (accords_pure rfl) ?_
  refine accords_bind (accords_commaList fun _ => accords_parameter inStep).weaken fun params params' same => ?_
  refine (accords_bind (accords_expect rfl) fun _ _ _ => accords_pure ?_).weaken
  rw [Param.bareAll_eq, Param.bareAll_eq, same]

theorem accords_block : Accords offset n true a .never Block.bare (g.block depth) (g'.block d) := by
  refine accords_bind (accords_expect rfl) fun start start' _ => ?_
  refine accords_bind (accords_untilToken (by decide) (fun n => (inStep.statement n depth d).mono (by decide)) (by decide))
    fun ss ss' same => accords_mark fun m m' => ?_
  rw [Block.bare, Block.bare, Stmt.bareAll_eq, Stmt.bareAll_eq, same]

theorem accords_functionTypeParams (early : a ≤ .ending) :
    Accords offset n false a .never TypeExpr.bareAll (g.functionTypeParams depth) (g'.functionTypeParams d) := by
  refine accords_accept_bind (Nat.le_succ n) early (by decide) rfl (accords_pure rfl) ?_
  refine accords_bind (accords_types inStep (by decide)).weaken fun params params' same => ?_
  exact (accords_bind (accords_expect rfl) fun _ _ _ => accords_pure same).weaken

theorem accords_functionType (early : a ≤ .ending) :
    Accords offset n true a .ending TypeExpr.bare (g.functionType depth) (g'.functionType d) := by
  refine accords_bind (accords_next early) fun start start' _ => ?_
  refine accords_bind (accords_functionTypeParams inStep (by decide)) fun params params' sameParams => ?_
  refine accords_bind (accords_expecting rfl (by decide)).weaken fun _ _ _ => ?_
  refine accords_bind ((inStep.type n depth d).mono (by decide)).weaken fun result result' same => accords_mark fun m m' => ?_
  rw [TypeExpr.bare, TypeExpr.bare, sameParams, same]

theorem accords_namedType (early : a ≤ .ending) :
    Accords offset n true a .ending TypeExpr.bare (g.namedType depth) (g'.namedType d) := by
  refine accords_bind (accords_next early) fun start start' same => ?_
  have word := Token.word_of_shape same
  refine accords_accept_bind (Nat.le_succ n) (by decide) (by decide) rfl ?_ (accords_pure ?_)
  · refine accords_bind (accords_types inStep (by decide)).weaken fun args args' sameArgs => ?_
    refine Accords.widen (accords_bind (accords_expect rfl).weaken fun _ _ _ => accords_mark fun m m' => ?_) (by decide)
    rw [TypeExpr.bare, TypeExpr.bare, sameArgs, word]
  · rw [TypeExpr.bare, TypeExpr.bare, word]

theorem accords_typeStep : Accords offset n true .ending .ending TypeExpr.bare (g.typeStep depth) (g'.typeStep d) := by
  have question {start start' : Token} (type type' : TypeExpr) (same : type'.bare = type.bare) :
      Accords offset n false .ending .ending TypeExpr.bare
        (do if ← accept (.symbol .question) then return type.asNullable (← spanFrom start) else return type)
        (do if ← accept (.symbol .question) then return type'.asNullable (← spanFrom start') else return type') := by
    refine accords_accept_bind (b := .ending) (Nat.le_succ n) (by decide) (by decide) rfl ?_ (accords_pure same)
    refine (accords_spanFrom_bind fun s s' => accords_pure ?_).widen (by decide)
    rw [TypeExpr.bare_asNullable, TypeExpr.bare_asNullable, same]
  refine accords_enter_bind fun depth d => ?_
  refine accords_peek_bind (b := .ending) (by decide) (by decide) (fun t t' same _ => ?_) fun {c _ _} atEnd run => ?_
  · rw [Token.kind_of_shape same]
    split
    · exact accords_bind (accords_functionType inStep (by decide)) question
    · exact accords_bind (accords_namedType inStep (by decide)) question
    · exact accords_fails fun _ _ _ run => by cases run
  · rw [show c.head.kind = .endOfInput from atEnd.kind] at run
    cases run

/-! ## Markup -/

theorem accords_attr (early : a ≤ .ending) :
    Accords offset n true a .ending (fun x => Attribute.bareAll [x]) (g.attr depth) (g'.attr d) := by
  refine accords_bind (accords_next early) fun start start' same => ?_
  refine accords_bind (accords_expect rfl).weaken fun _ _ _ => ?_
  have named {a : Parting} (value value' : Expr) (sameValue : value'.bare = value.bare) :
      Accords offset n false a a (fun x => Attribute.bareAll [x])
        (do return ⟨← markFrom start start, start.word, value⟩) (do return ⟨← markFrom start' start', start'.word, value'⟩) := by
    refine accords_mark fun m m' => ?_
    simp only [Attribute.bareAll, sameValue, Token.word_of_shape same]
  refine accords_peek_bind (b := .ending) (by decide) (by decide) (fun t t' same _ => ?_) fun {c _ _} atEnd run => ?_
  · rw [Token.kind_of_shape same]
    split
    · refine accords_bind (accords_next (by decide)).weaken fun q q' same => named _ _ ?_
      rw [Expr.bare, Expr.bare, Quotation.bare, Quotation.bare, Token.contents, Token.contents,
        show q'.lexeme = q.lexeme from congrArg Shape.text same]
    · refine accords_bind (accords_next (by decide)).weaken fun _ _ _ => ?_
      refine accords_bind (accords_expression inStep (by decide)).weaken fun value value' sameValue => ?_
      refine accords_bind (accords_expect rfl).weaken fun _ _ _ => (named _ _ sameValue).widen (by decide)
    · exact accords_fails fun _ _ _ run => by cases run
  · rw [show c.head.kind = .endOfInput from atEnd.kind] at run
    cases run

theorem accords_attributesUpTo {fuel fuel' : Nat} (le : fuel ≤ fuel') (early : a ≤ .ending) :
    Accords offset fuel false a .ending Attribute.bareAll (g.attributesUpTo depth fuel) (g'.attributesUpTo d fuel') := by
  induction fuel generalizing fuel' a with
  | zero => exact accords_out fun holds run => by cases run; exact holds.mono early
  | succ fuel ih =>
    obtain ⟨fuel', rfl⟩ := Nat.exists_eq_add_of_le' le
    refine accords_peek_bind (b := .ending) early (by decide) (fun t t' same _ => ?_) fun {c _ _} atEnd run => ?_
    · refine accords_ite (by rw [Token.kind_of_shape same]) (fun _ => ?_) fun _ => (accords_pure rfl).widen (by decide)
      refine accords_item (accords_attr inStep (by decide)) fun x x' same => ?_
      refine accords_map (ih (Nat.le_add_left _ _) (by decide)) fun xs xs' others => ?_
      obtain ⟨m, name, value⟩ := x
      obtain ⟨m', name', value'⟩ := x'
      simp only [Attribute.bareAll] at same ⊢
      rw [(List.cons.inj same).1, others]
    · rw [show c.head.kind = .endOfInput from atEnd.kind] at run
      cases run
      exact atEnd

omit inStep in
/-- A run of text is the same, with the same gaps. -/
theorem accords_textRest (sofar : Text) {fuel fuel' : Nat} (le : fuel ≤ fuel') (early : a ≤ .ending) :
    Accords offset fuel false a .ending id (textRest sofar fuel) (textRest sofar fuel') := by
  have stopped (sofar : Text) (fuel : Nat) {c : Cursor} (ends : endsText c.head.kind = true) :
      textRest sofar (fuel + 1) c = .ok (sofar, c) := by
    show (if endsText c.head.kind then pure sofar else _ : Reader Text) c = _
    rw [if_pos ends]
    rfl
  have parted {sofar : Text} {fuel : Nat} {c c₁ : Cursor} {v : Text} (atEnd : c.AtEnd)
      (run : textRest sofar fuel c = .ok (v, c₁)) : c₁.AtEnd := by
    cases fuel with
    | zero =>
      cases run
      exact atEnd
    | succ fuel =>
      rw [stopped _ _ (by rw [atEnd.kind]; rfl)] at run
      cases run
      exact atEnd
  induction fuel generalizing fuel' a sofar with
  | zero => exact accords_out fun holds run => parted (holds.mono early : Parting.ending.Holds _) run
  | succ fuel ih =>
    obtain ⟨fuel', rfl⟩ := Nat.exists_eq_add_of_le' le
    refine ⟨fun {c c' c₁ c₁' v v'} alike few run run' => ?_, fun holds run => ?_⟩
    case refine_2 => exact parted (holds.mono early : Parting.ending.Holds _) run
    obtain atEnd | ⟨-, same, mid, mid', taken, taken', behind, less⟩ := alike.step
    · exact .inr (parted atEnd run)
    · have kind := Token.kind_of_shape same.shape
      by_cases ends : endsText c.head.kind = true
      · rw [stopped _ _ ends] at run
        cases run
        cases (stopped sofar (fuel' + fuel) (kind ▸ ends : endsText c'.head.kind = true)).symm.trans run'
        exact .inl ⟨rfl, alike, Nat.le_refl _⟩
      · have goesOn {c mid : Cursor} {fuel : Nat} (more : ¬ endsText c.head.kind = true)
            (taken : next c = .ok (c.head, mid)) :
            textRest sofar (fuel + 1) c =
              textRest (sofar ++ (if c.head.span.start > c.last.span.stop then (" " : Text) else ("" : Text)) ++ c.head.lexeme)
                fuel mid := by
          show (if endsText c.head.kind then pure sofar else _ : Reader Text) c = _
          rw [if_neg more]
          show (next >>= fun t => textRest (sofar ++
            (if c.head.span.start > c.last.span.stop then (" " : Text) else ("" : Text)) ++
            t.lexeme) fuel) c = _
          exact bind_of_ok taken
        rw [goesOn ends taken] at run
        rw [show fuel' + (fuel + 1) = fuel' + fuel + 1 from rfl, goesOn (kind ▸ ends) taken',
          show c'.head.lexeme = c.head.lexeme from congrArg Shape.text same.shape] at run'
        have gap : c'.head.span.start > c'.last.span.stop ↔ c.head.span.start > c.last.span.stop := by
          have := same.start
          have := alike.last.stop
          omega
        simp only [gap] at run'
        refine ((ih _ (Nat.le_add_left _ _) (Parting.never_le _)).aligned behind (by omega) run run').imp_left ?_
        rintro ⟨seen, alike, less'⟩
        exact ⟨seen, alike, Nat.le_trans less' (by omega)⟩

theorem accords_hole (early : a ≤ .ending) :
    Accords offset n true a .never (fun x => Child.bareAll [x]) (g.hole depth) (g'.hole d) := by
  refine accords_bind (accords_next early) fun start start' _ => ?_
  refine accords_bind (accords_expression inStep (by decide)).weaken fun value value' same => ?_
  refine accords_bind (accords_expect rfl).weaken fun _ _ _ => accords_mark fun m m' => ?_
  simp only [Child.bareAll, same]

omit inStep in
theorem accords_text (early : a ≤ .ending) : Accords offset n true a .ending (fun x => Child.bareAll [x]) text text := by
  refine accords_bind (accords_next early) fun start start' same => accords_get_bind fun c c' le => ?_
  rw [show start'.lexeme = start.lexeme from congrArg Shape.text same]
  refine accords_bind (accords_textRest start.lexeme le (by decide)) fun all all' same => accords_mark fun m m' => ?_
  rw [show all' = all from same]
  rfl

omit inStep in
theorem accords_closingTag (tag : String) (early : a ≤ .ending) :
    Accords offset n true a .never id (closingTag tag) (closingTag tag) := by
  refine accords_bind (accords_next early) fun _ _ _ => accords_bind (accords_next (by decide)).weaken fun t t' _ => ?_
  exact accords_guard (fun _ _ _ run => by cases run) (fun _ _ _ run => by cases run)
    (accords_map (accords_expect rfl).weaken fun _ _ _ => rfl)

theorem accords_childrenUpTo (tag : String) (fuel fuel' : Nat) (early : a ≤ .ending) :
    Accords offset n false a .never Child.bareAll (g.childrenUpTo depth tag fuel) (g'.childrenUpTo d tag fuel') := by
  induction fuel generalizing fuel' a with
  | zero => exact accords_fails fun _ _ _ run => by cases run
  | succ fuel ih =>
    have alone {c c₁ : Cursor} {v : List Child} (atEnd : Parting.ending.Holds c)
        (run : g.childrenUpTo depth tag (fuel + 1) c = .ok (v, c₁)) : Parting.never.Holds c₁ := by
      obtain ⟨_, _, looked, run⟩ := bind_ok run
      cases looked
      rw [show (c.ahead.headD c.last).kind = .endOfInput from atEnd.kind] at run
      cases run
    cases fuel' with
    | zero => exact ⟨fun _ _ _ run' => (by cases run'), fun holds run => alone (holds.mono early) run⟩
    | succ fuel' =>
      have others {a : Parting} (early : a ≤ .ending) {x x' : Child} (same : Child.bareAll [x'] = Child.bareAll [x]) :
          Accords offset n false a .never Child.bareAll (do return x :: (← g.childrenUpTo depth tag fuel))
            (do return x' :: (← g'.childrenUpTo d tag fuel')) :=
        accords_map (ih fuel' early) fun xs xs' same' => by
          rw [Child.bareAll_cons x', same, same', ← Child.bareAll_cons]
      refine accords_peek_bind early (Nat.le_refl _) (fun t t' same _ => ?_) fun holds run => alone holds run
      rw [Token.kind_of_shape same]
      split
      · exact accords_failAt
      · exact accords_map (accords_closingTag tag (by decide)).weaken fun _ _ _ => rfl
      · refine accords_bind ((inStep.element n depth d).mono (by decide)).weaken fun e e' same => ?_
        exact others (by decide) (by simp only [Child.bareAll, same])
      · exact accords_bind (accords_hole inStep (by decide)).weaken fun h h' same => others (by decide) same
      · exact accords_bind (accords_text (by decide)).weaken fun c c' same => others (by decide) same

theorem accords_elementStep :
    Accords offset n true .ending .never Element.bare (g.elementStep depth) (g'.elementStep d) := by
  refine accords_enter_bind fun depth d => ?_
  refine accords_bind (accords_next (by decide)) fun start start' _ => ?_
  refine accords_bind (accords_next (by decide)).weaken fun t t' same => ?_
  rw [Token.word_of_shape same]
  refine accords_guard (fun _ _ _ run => by cases run) (fun _ _ _ run => by cases run) (accords_get_bind fun c c' le => ?_)
  refine accords_bind (accords_attributesUpTo inStep le (by decide)) fun as as' sameAttributes => ?_
  refine accords_accept_bind (b := .ending) (Nat.le_succ _) (by decide) (by decide) rfl ?_ ?_
  · refine accords_mark fun m m' => ?_
    rw [Element.bare, Element.bare, sameAttributes]
  · refine (accords_bind (accords_expect rfl) fun _ _ _ => accords_get_bind fun c c' le => ?_).weaken
    refine accords_bind (accords_childrenUpTo inStep _ _ _ (by decide)) fun cs cs' sameChildren => accords_mark fun m m' => ?_
    rw [Element.bare, Element.bare, sameAttributes, sameChildren]

theorem accords_markup (early : a ≤ .ending) :
    Accords offset n true a .never Expr.bare (g.markup depth) (g'.markup d) := by
  refine accords_bind (accords_next early) fun start start' _ => ?_
  have element {a : Parting} (early : a ≤ .ending) : Accords offset n false a .never Expr.bare (do
      let e ← g.element depth
      return .markup { e with mark := { e.mark with span := ← spanFrom start } }) (do
      let e ← g'.element d
      return .markup { e with mark := { e.mark with span := ← spanFrom start' } }) := by
    refine accords_bind ((inStep.element n depth d).mono early).weaken fun e e' same => accords_spanFrom_bind fun s s' => ?_
    refine accords_pure ?_
    obtain ⟨m, tag, attributes, children, selfClosing⟩ := e
    obtain ⟨m', tag', attributes', children', selfClosing'⟩ := e'
    exact congrArg Expr.markup same
  refine accords_peekIs_bind (b := .ending) (by decide) (by decide) rfl (element (by decide)) ?_
  exact accords_fails fun _ _ _ run => by cases run

/-! ## Expressions -/

theorem accords_expressions {stop : TokenKind} (apart : Parting.stray.meets stop = false) (early : a ≤ .ending) :
    Accords offset n false a .never Expr.bareAll (g.expressions depth stop) (g'.expressions d stop) := by
  have apart' : Parting.ending.meets stop = false := (Bool.or_eq_false_iff.1 apart).1
  refine accords_accept_bind (Nat.le_succ n) early (by decide) apart' (accords_pure rfl) ?_
  refine accords_bind (accords_commaList fun _ => accords_expression inStep (by decide)).weaken fun es es' same => ?_
  refine (accords_bind (accords_expect apart) fun _ _ _ => accords_pure ?_).weaken
  rw [Expr.bareAll_eq, Expr.bareAll_eq, same]

theorem accords_lambdaBody (early : a ≤ .ending) :
    Accords offset n false a .stray LambdaBody.bare (g.lambdaBody depth) (g'.lambdaBody d) := by
  refine accords_peekIs_bind (b := .ending) early (by decide) rfl ?_ ?_
  · refine (accords_map (accords_block inStep).weaken fun b b' same => ?_).widen (by decide)
    rw [LambdaBody.bare, LambdaBody.bare, same]
  · refine accords_map (accords_expression inStep (by decide)).weaken fun e e' same => ?_
    rw [LambdaBody.bare, LambdaBody.bare, same]

theorem accords_lambda (early : a ≤ .ending) :
    Accords offset n true a .stray Expr.bare (g.lambda depth) (g'.lambda d) := by
  refine accords_bind (accords_next early) fun start start' _ => ?_
  refine accords_bind (accords_parameters inStep (by decide)) fun params params' sameParams => ?_
  refine accords_bind (accords_annotatedType inStep (by decide)) fun result result' sameResult => ?_
  refine accords_bind (accords_expecting rfl (by decide)).weaken fun _ _ _ => ?_
  refine accords_bind (accords_lambdaBody inStep (by decide)) fun body body' sameBody => accords_mark fun m m' => ?_
  rw [Expr.bare, Expr.bare, sameParams, sameResult, sameBody]

theorem accords_group (early : a ≤ .ending) :
    Accords offset n true a .never Expr.bare (g.group depth) (g'.group d) := by
  refine accords_bind (accords_next early) fun _ _ _ => ?_
  refine accords_bind (accords_expression inStep (by decide)).weaken fun e e' same => ?_
  exact accords_bind (accords_expect rfl).weaken fun _ _ _ => accords_pure same

theorem accords_creation (early : a ≤ .ending) :
    Accords offset n true a .never Expr.bare (g.creation depth) (g'.creation d) := by
  refine accords_bind (accords_next early) fun start start' _ => ?_
  refine accords_bind ((inStep.type n depth d).mono (by decide)).weaken fun type type' sameType => ?_
  refine accords_guard (fun _ _ _ run => by cases run) (fun _ _ _ run => by cases run) ?_
  refine accords_bind (accords_expect rfl).weaken fun _ _ _ => ?_
  refine accords_bind (accords_expressions inStep rfl (by decide)) fun args args' sameArgs => accords_mark fun m m' => ?_
  rw [Expr.bare, Expr.bare, sameType, sameArgs]

omit inStep in
theorem accords_parent (early : a ≤ .ending) : Accords offset n true a .never Expr.bare parent parent := by
  refine accords_bind (accords_next early) fun t t' _ => ?_
  refine accords_peek_bind (b := .ending) (by decide) (by decide) (fun u u' _ _ => ?_) fun {c _ _} atEnd run => ?_
  · exact accords_guard (fun _ _ _ run => by cases run) (fun _ _ _ run => by cases run) (accords_pure rfl)
  · rw [show c.head.kind = .endOfInput from atEnd.kind] at run
    cases run

theorem accords_unary (op : UnaryOp) (early : a ≤ .ending) :
    Accords offset n true a .stray Expr.bare (g.unary depth op) (g'.unary d op) := by
  refine accords_bind (accords_next early) fun start start' _ => ?_
  refine accords_bind ((inStep.expression n depth d fun _ => Iff.rfl).mono (by decide)).weaken fun e e' same => ?_
  refine accords_mark fun m m' => ?_
  rw [Expr.bare, Expr.bare, same]

omit inStep in
/-- What makes a lambda of parentheses does so whatever is behind the end of the first input. -/
theorem lambdaAhead_leads {ts ts' : List Token} (leads : Token.Leads offset ts ts') (depth : Nat)
    (ahead : lambdaAhead depth ts = true) : lambdaAhead depth ts' = true := by
  induction leads generalizing depth with
  | @ending eof u more isEnd =>
    rw [lambdaAhead, isEnd] at ahead
    cases ahead
  | @token t t' ts ts' same inside leads ih =>
    rw [lambdaAhead.eq_def] at ahead ⊢
    dsimp only at ahead ⊢
    rw [Token.kind_of_shape same.shape]
    split at ahead
    · exact ih _ ahead
    · split at ahead
      · next closed =>
        rw [if_pos closed]
        cases leads with
        | ending isEnd =>
          dsimp only at ahead
          rw [isEnd] at ahead
          cases ahead
        | token same =>
          dsimp only at ahead ⊢
          rwa [Token.kind_of_shape same.shape]
      · next more =>
        rw [if_neg more]
        exact ih _ ahead
    · cases ahead
    · exact ih _ ahead

omit inStep in
/-- A type stands behind a colon. -/
theorem typeAnnotation_run {c c₁ : Cursor} {type : Option TypeExpr} (run : g.typeAnnotation depth c = .ok (type, c₁)) :
    c.head.kind = .symbol .colon ∨ c₁ = c := by
  obtain ⟨taken, mid, accepted, run⟩ := bind_ok run
  cases taken with
  | true => exact .inl (accept_taken accepted).1
  | false =>
    cases run
    exact .inr (accept_still accepted).1

omit inStep in
/-- An arrow or a colon stands behind the parameters of a lambda. -/
theorem lambda_run {c c₁ : Cursor} {e : Expr} (run : g.lambda depth c = .ok (e, c₁)) :
    ∃ t inner params behind, next c = .ok (t, inner) ∧ g.parameters depth inner = .ok (params, behind) ∧
      behind.head.kind.isArrow = true := by
  obtain ⟨t, inner, taken, run⟩ := bind_ok run
  obtain ⟨params, behind, read, run⟩ := bind_ok run
  obtain ⟨_, typed, annotated, run⟩ := bind_ok run
  obtain ⟨_, _, expected, -⟩ := bind_ok run
  refine ⟨t, inner, params, behind, taken, read, ?_⟩
  rcases typeAnnotation_run annotated with colon | rfl
  · rw [colon]
    rfl
  · rw [(expect_run expected).1]
    rfl

omit inStep in
/-- A closing parenthesis stands behind an expression in parentheses. -/
theorem group_run {c c₁ : Cursor} {e : Expr} (run : g.group depth c = .ok (e, c₁)) :
    ∃ t inner behind t', next c = .ok (t, inner) ∧ g.expression depth 0 inner = .ok (e, behind) ∧
      behind.head.kind = .symbol .rightParen ∧ next behind = .ok (t', c₁) := by
  obtain ⟨t, inner, taken, run⟩ := bind_ok run
  obtain ⟨e, behind, read, run⟩ := bind_ok run
  obtain ⟨t', _, closed, run⟩ := bind_ok run
  cases run
  obtain ⟨isClosing, closed⟩ := expect_run closed
  exact ⟨t, inner, behind, t', taken, read, isClosing, closed⟩

omit inStep in
/-- Parameters are none, in front of a closing parenthesis, or start with one that has a comma or that parenthesis behind
it. -/
theorem parameters_run {c c₁ : Cursor} {params : List Param} (run : g.parameters depth c = .ok (params, c₁)) :
    c.head.kind = .symbol .rightParen ∨ ∃ p first, g.parameter depth c = .ok (p, first) ∧
      (first.head.kind = .symbol .comma ∨
        first.head.kind = .symbol .rightParen ∧ ∃ t, next first = .ok (t, c₁)) := by
  obtain ⟨closes, _, accepted, listed⟩ := bind_ok run
  clear run
  cases closes with
  | true => exact .inl (accept_taken accepted).1
  | false =>
    obtain rfl := (accept_still accepted).1
    obtain ⟨_, last, list, listed⟩ := bind_ok listed
    obtain ⟨t, _, closing, listed⟩ := bind_ok listed
    cases listed
    obtain ⟨isClosing, closing⟩ := expect_run closing
    obtain ⟨p, first, read, list⟩ := bind_ok list
    obtain ⟨_, _, got, list⟩ := bind_ok list
    cases got
    obtain ⟨_, _, more, list⟩ := bind_ok list
    cases list
    refine .inr ⟨p, first, read, ?_⟩
    rcases commaRest_run more with comma | rfl
    · exact .inl comma
    · exact .inr ⟨isClosing, t, closing⟩

/-- What the first reads as an expression in parentheses and the second as a lambda ends in front of an arrow or a colon,
or at the end of the first input. -/
theorem group_strays {c c' c₁ c₁' : Cursor} {v v' : Expr} (alike : c.Alike offset c') (run : g.group depth c = .ok (v, c₁))
    (run' : g'.lambda d c' = .ok (v', c₁')) : Parting.stray.Holds c₁ := by
  obtain ⟨_, inner, behind, _, taken, read, isClosing, closed⟩ := group_run run
  obtain ⟨_, inner', _, closed', taken', params, arrow⟩ := lambda_run run'
  have strayed (strays : Parting.stray.Holds behind) : Parting.stray.Holds c₁ := absurd isClosing (strays.other rfl)
  have ended (atEnd : inner.AtEnd) : Parting.stray.Holds c₁ :=
    strayed ((accords_expression (a := .ending) (n := 0) (d := 0) inStep (Nat.le_refl 1)).parted atEnd read)
  obtain atEnd | ⟨inside, -⟩ := alike.step
  · exact ended (atEnd.next taken)
  have alike := (alike.taken inside).2 taken taken'
  obtain atEnd | ⟨inside, -⟩ := alike.step
  · exact ended atEnd
  have kind := (alike.taken inside).1
  obtain closes | ⟨p, first', first, behindFirst⟩ := parameters_run params
  · have starts := inStep.starts read
    rw [← kind, closes] at starts
    cases starts
  have named : inner.head.kind = .identifier := by
    obtain ⟨_, _, named, -⟩ := bind_ok first
    rw [← kind, (expect_run named).1]
  obtain alike | strays := inStep.parameter alike named read first (behindFirst.imp_right And.left)
  · -- Behind the first parameter comes the closing parenthesis that the first reader has found.
    obtain ⟨kind, behindClosing⟩ := alike.taken (by rw [isClosing]; decide)
    obtain comma | ⟨-, _, closing⟩ := behindFirst
    · rw [kind, isClosing] at comma
      cases comma
    · have alike := behindClosing closed closing
      obtain atEnd | ⟨inside, -⟩ := alike.step
      · exact .inl atEnd
      · exact .inr (by rw [← (alike.taken inside).1]; exact arrow)
  · exact strayed strays

/-- Parentheses open a lambda or stand around an expression. -/
theorem accords_parentheses (early : a ≤ .ending) : Accords offset n true a .stray Expr.bare
    (do if lambdaAhead 1 ((← get).ahead.drop 1) then g.lambda depth else g.group depth)
    (do if lambdaAhead 1 ((← get).ahead.drop 1) then g'.lambda d else g'.group d) := by
  constructor
  · intro c c' c₁ c₁' v v' alike few run run'
    have run : (if lambdaAhead 1 (c.ahead.drop 1) then g.lambda depth else g.group depth) c = .ok (v, c₁) := run
    have run' : (if lambdaAhead 1 (c'.ahead.drop 1) then g'.lambda d else g'.group d) c' = .ok (v', c₁') := run'
    split at run
    · next isLambda =>
      have isLambda' : lambdaAhead 1 (c'.ahead.drop 1) = true := by
        obtain ⟨last, ahead⟩ := c
        obtain ⟨last', ahead'⟩ := c'
        obtain ⟨-, leads⟩ := alike
        cases leads with
        | ending => cases isLambda
        | token _ _ leads => exact lambdaAhead_leads leads 1 isLambda
      rw [if_pos isLambda'] at run'
      exact (accords_lambda inStep (Parting.never_le _)).aligned alike few run run'
    · split at run'
      · exact .inr (group_strays inStep alike run run')
      · exact ((accords_group inStep (Parting.never_le _)).widen (Parting.never_le _)).aligned alike few run run'
  · intro c c₁ v holds run
    have run : (if lambdaAhead 1 (c.ahead.drop 1) then g.lambda depth else g.group depth) c = .ok (v, c₁) := run
    split at run
    · exact (accords_lambda inStep (n := 0) (d := d) early).parted holds run
    · exact ((accords_group inStep (n := 0) (d := d) early).parted holds run).elim

theorem accords_operand (early : a ≤ .ending) :
    Accords offset n true a .stray Expr.bare (g.operand depth) (g'.operand d) := by
  refine accords_peek_bind (b := .ending) early (by decide) (fun t t' same _ => ?_) fun {c _ _} atEnd run => ?_
  · rw [Token.kind_of_shape same]
    have one {f : Token → Expr} (same : ∀ t t' : Token, t'.shape = t.shape → (f t').bare = (f t).bare) :
        Accords offset n true .never .stray Expr.bare (do return f (← next)) (do return f (← next)) :=
      (accords_map (accords_next (by decide)) same).widen (by decide)
    split
    · exact one fun t t' same => congrArg Expr.name (Name.bare_of_shape same)
    · exact one fun t t' same => congrArg (Expr.number Mark.blank) (Token.word_of_shape same)
    · refine one fun t t' same => ?_
      rw [Expr.bare, Expr.bare, Quotation.bare, Quotation.bare, Token.contents, Token.contents,
        show t'.lexeme = t.lexeme from congrArg Shape.text same]
    · refine one fun t t' same => ?_
      rw [Expr.bare, Expr.bare, Mark.bare, Mark.bare, Mark.ofToken, Mark.ofToken, Token.word_of_shape same]
    · exact one fun _ _ _ => rfl
    · exact one fun _ _ _ => rfl
    · exact (accords_parent (by decide)).widen (by decide)
    · exact (accords_creation inStep (by decide)).widen (by decide)
    · exact (accords_markup inStep (by decide)).widen (by decide)
    · refine Accords.widen (accords_bind (accords_next (by decide)) fun start start' _ => ?_) (by decide : Parting.never ≤ _)
      refine accords_bind (accords_expressions inStep rfl (by decide)) fun es es' same => accords_mark fun m m' => ?_
      rw [Expr.bare, Expr.bare, same]
    · exact accords_parentheses inStep (by decide)
    · exact accords_unary inStep .not (by decide)
    · exact accords_unary inStep .negate (by decide)
    · exact accords_failAt
  · rw [show c.head.kind = .endOfInput from atEnd.kind] at run
    cases run

theorem accords_infixStep {start start' : Token} {left left' : Expr} (same : left'.bare = left.bare) (kind : Infix)
    (early : a ≤ .ending) :
    Accords offset n true a .stray Expr.bare (g.infixStep depth start left kind) (g'.infixStep d start' left' kind) := by
  refine accords_bind (accords_next early) fun head head' _ => ?_
  cases kind with
  | binary op =>
    refine accords_bind ((inStep.expression n depth d fun _ => Iff.rfl).mono (by decide)).weaken fun e e' sameRight => ?_
    refine accords_mark fun m m' => ?_
    rw [Expr.bare, Expr.bare, same, sameRight]
  | assign =>
    refine accords_guard (fun _ _ _ run => by cases run) (fun _ _ _ run => by cases run) ?_
    refine accords_bind ((inStep.expression n depth d fun _ => Iff.rfl).mono (by decide)).weaken fun e e' sameValue => ?_
    refine accords_mark fun m m' => ?_
    rw [Expr.bare, Expr.bare, same, sameValue]
  | call =>
    refine Accords.widen (b := .never) ?_ (by decide)
    refine accords_bind (accords_expressions inStep rfl (by decide)) fun args args' sameArgs => accords_mark fun m m' => ?_
    rw [Expr.bare, Expr.bare, same, sameArgs]
  | index =>
    refine accords_bind (accords_expression inStep (by decide)).weaken fun i i' sameIndex => ?_
    refine Accords.widen (accords_bind (accords_expect rfl).weaken fun _ _ _ => accords_mark fun m m' => ?_) (Parting.never_le _)
    rw [Expr.bare, Expr.bare, same, sameIndex]
  | member =>
    refine Accords.widen (accords_bind accords_name.weaken fun p p' sameName => accords_mark fun m m' => ?_) (Parting.never_le _)
    rw [Expr.bare, Expr.bare, same, sameName]

omit inStep in
/-- In front of what is no operator, nothing is added. -/
theorem infixRest_stops {precedence fuel : Nat} {start : Token} {left : Expr} {c : Cursor}
    (none : Infix.ofKind? c.head.kind = none) : g.infixRest depth precedence start left fuel c = .ok (left, c) := by
  cases fuel with
  | zero => rfl
  | succ fuel =>
    rw [infixRest, bind_of_ok (show peek c = .ok (c.head, c) from rfl), none]
    rfl

omit inStep in
theorem infixRest_parted (fuel : Nat) {precedence : Nat} {start : Token} {left v : Expr} {c c₁ : Cursor}
    (strays : Parting.stray.Holds c) (run : g.infixRest depth precedence start left fuel c = .ok (v, c₁)) : Parting.stray.Holds c₁ := by
  have none : Infix.ofKind? c.head.kind = none := by
    rcases strays with atEnd | isArrow
    · rw [Cursor.AtEnd.kind atEnd]
      rfl
    · rcases Bool.or_eq_true_iff.1 isArrow with isArrow | isColon
      · rw [beq_iff_eq.1 isArrow]
        rfl
      · rw [beq_iff_eq.1 isColon]
        rfl
  rw [infixRest_stops none] at run
  cases run
  exact strays

theorem accords_infixRest {precedence precedence' : Nat}
    (alike : ∀ kind : Infix, precedence < kind.precedence ↔ precedence' < kind.precedence) {start start' : Token}
    {left left' : Expr} (same : left'.bare = left.bare) {fuel fuel' : Nat} (le : fuel ≤ fuel') (strays : a ≤ .stray) :
    Accords offset fuel false a .stray Expr.bare (g.infixRest depth precedence start left fuel)
      (g'.infixRest d precedence' start' left' fuel') := by
  induction fuel generalizing fuel' a left left' with
  | zero => exact accords_out fun holds run => infixRest_parted _ (holds.mono strays) run
  | succ fuel ih =>
    obtain ⟨fuel', rfl⟩ := Nat.exists_eq_add_of_le' le
    refine accords_peek_bind strays (by decide) (fun t t' sameShape _ => ?_) fun {c _ _} strays run =>
      infixRest_parted (fuel + 1) strays run
    rw [Token.kind_of_shape sameShape]
    split
    · exact (accords_pure same).widen (Parting.never_le _)
    · next kind _ =>
      refine accords_ite (alike kind).symm (fun _ => ?_) fun _ => (accords_pure same).widen (Parting.never_le _)
      refine accords_item (accords_infixStep inStep same kind (by decide)) fun e e' same => ?_
      exact ih same (Nat.le_add_left _ _) (by decide)

theorem accords_expressionStep {precedence precedence' : Nat}
    (alike : ∀ kind : Infix, precedence < kind.precedence ↔ precedence' < kind.precedence) :
    Accords offset n true .ending .stray Expr.bare (g.expressionStep depth precedence)
      (g'.expressionStep d precedence') := by
  refine accords_enter_bind fun depth d => ?_
  have behind (start start' : Token) : Accords offset n true .ending .stray Expr.bare
      (do let left ← g.operand depth; g.infixRest depth precedence start left (← get).ahead.length)
      (do let left ← g'.operand d; g'.infixRest d precedence' start' left (← get).ahead.length) :=
    accords_bind (accords_operand inStep (by decide)) fun left left' same => accords_get_bind fun _ _ le =>
      accords_infixRest inStep alike same le (by decide)
  exact accords_peek_bind (b := .ending) (by decide) (by decide) (fun t t' _ _ => (behind t t').mono (by decide)) fun atEnd run =>
    (behind _ default).parted atEnd run

omit inStep in
/-- A name is an operand of one token. -/
theorem operand_name {c c₁ : Cursor} {e : Expr} (named : c.head.kind = .identifier)
    (run : g.operand depth c = .ok (e, c₁)) : ∃ t, next c = .ok (t, c₁) := by
  obtain ⟨_, _, looked, run⟩ := bind_ok run
  cases looked
  rw [show (c.ahead.headD c.last).kind = .identifier from named] at run
  obtain ⟨t, _, taken, run⟩ := bind_ok run
  cases run
  exact ⟨t, taken⟩

omit inStep in
/-- In front of a comma or a closing parenthesis in the second input, the first reader stops as well. -/
theorem infixRest_stopped {c c' c₁ : Cursor} {fuel : Nat} {start : Token} {left e : Expr} (alike : c.Alike offset c')
    (run : g.infixRest depth 0 start left fuel c = .ok (e, c₁))
    (ends : c'.head.kind = .symbol .comma ∨ c'.head.kind = .symbol .rightParen) :
    c₁.Alike offset c' ∨ Parting.stray.Holds c₁ := by
  obtain atEnd | ⟨inside, -⟩ := alike.step
  · exact .inr (infixRest_parted _ (.inl atEnd) run)
  rw [(alike.taken inside).1] at ends
  have none : Infix.ofKind? c.head.kind = none := by
    rcases ends with comma | closing
    · rw [comma]
      rfl
    · rw [closing]
      rfl
  rw [infixRest_stops none] at run
  cases run
  exact .inl alike

omit inStep in
/-- An assignment reads its value, and the expression goes on behind that. -/
theorem infixRest_assign {c c₁ : Cursor} {fuel : Nat} {start : Token} {left e : Expr}
    (isAssign : c.head.kind = .symbol .assign) (run : g.infixRest depth 0 start left (fuel + 1) c = .ok (e, c₁)) :
    ∃ t inner value behind left', next c = .ok (t, inner) ∧
      g.expression depth (Precedence.assignment - 1) inner = .ok (value, behind) ∧
        g.infixRest depth 0 start left' fuel behind = .ok (e, c₁) := by
  rw [infixRest, bind_of_ok (show peek c = .ok (c.head, c) from rfl), isAssign] at run
  obtain ⟨_, _, step, run⟩ := bind_ok run
  obtain ⟨t, inner, taken, step⟩ := bind_ok step
  cases target : left.isTarget with
  | false =>
    rw [target] at step
    cases step
  | true =>
    rw [target] at step
    obtain ⟨value, _, read, step⟩ := bind_ok step
    obtain ⟨_, _, marked, step⟩ := bind_ok step
    cases marked
    cases step
    exact ⟨t, inner, value, _, _, taken, read, run⟩

omit inStep in
/-- A parameter is a name with a type and an initial value behind it, if there are any. -/
theorem parameter_run {c c₁ : Cursor} {p : Param} (run : g.parameter depth c = .ok (p, c₁)) :
    ∃ t mid type typed value, next c = .ok (t, mid) ∧ g.typeAnnotation depth mid = .ok (type, typed) ∧
      g.initialiser depth typed = .ok (value, c₁) := by
  obtain ⟨t, mid, named, run⟩ := bind_ok run
  obtain ⟨type, typed, annotated, run⟩ := bind_ok run
  obtain ⟨value, _, initialised, run⟩ := bind_ok run
  obtain ⟨_, _, marked, run⟩ := bind_ok run
  cases marked
  cases run
  exact ⟨t, mid, type, typed, value, (expect_run named).2, annotated, initialised⟩

omit inStep in
/-- An initial value stands behind an assignment sign. -/
theorem initialiser_run {c c₁ : Cursor} {value : Option Expr} (run : g.initialiser depth c = .ok (value, c₁)) :
    (c.head.kind = .symbol .assign ∧ ∃ t inner e, next c = .ok (t, inner) ∧ g.expression depth 0 inner = .ok (e, c₁)) ∨
      c₁ = c := by
  obtain ⟨assigned, _, accepted, run⟩ := bind_ok run
  cases assigned with
  | false =>
    cases run
    exact .inr (accept_still accepted).1
  | true =>
    obtain ⟨isAssign, t, taken⟩ := accept_taken accepted
    obtain ⟨e, _, read, run⟩ := bind_ok run
    cases run
    exact .inl ⟨isAssign, t, _, e, taken, read⟩

/-- What the first reads as an expression and the second as a parameter. -/
theorem parameter_of_expressionStep {c c' c₁ c₁' : Cursor} {e : Expr} {p : Param} (alike : c.Alike offset c')
    (named : c.head.kind = .identifier) (run : g.expressionStep depth 0 c = .ok (e, c₁))
    (run' : g'.parameter d c' = .ok (p, c₁'))
    (ends : c₁'.head.kind = .symbol .comma ∨ c₁'.head.kind = .symbol .rightParen) :
    c₁.Alike offset c₁' ∨ Parting.stray.Holds c₁ := by
  obtain ⟨deeper, _, entered, run⟩ := bind_ok run
  cases enter_run entered
  obtain ⟨_, _, looked, run⟩ := bind_ok run
  cases looked
  obtain ⟨left, mid, operand, run⟩ := bind_ok run
  obtain ⟨_, _, got, run⟩ := bind_ok run
  cases got
  obtain ⟨_, taken⟩ := operand_name named operand
  obtain ⟨_, mid', _, typed, _, taken', annotated, initialised⟩ := parameter_run run'
  have alike := (alike.taken (by rw [named]; decide)).2 taken taken'
  obtain atEnd | ⟨inside, -, _, _, -, -, -, less⟩ := alike.step
  · exact .inr (infixRest_parted _ (.inl atEnd) run)
  have kind := (alike.taken inside).1
  rcases typeAnnotation_run annotated with colon | rfl
  · refine .inr (infixRest_parted _ (.inr ?_) run)
    rw [← kind, colon]
    rfl
  obtain ⟨isAssign, _, _, _, taken', read'⟩ | rfl := initialiser_run initialised
  · obtain ⟨few, more⟩ : ∃ few, mid.ahead.length = few + 1 := Nat.exists_eq_succ_of_ne_zero (by omega)
    rw [more] at run
    obtain ⟨_, _, _, _, _, taken, read, run⟩ := infixRest_assign (kind.symm.trans isAssign) run
    have loose (kind : Infix) : Precedence.assignment - 1 < kind.precedence ↔ 0 < kind.precedence := by
      cases kind with
      | binary op => cases op <;> decide
      | _ => decide
    obtain ⟨-, alike, -⟩ | strays :=
      (inStep.expression _ deeper d loose).aligned ((alike.taken inside).2 taken taken') (Nat.le_refl _) read
        read'
    · exact infixRest_stopped alike run ends
    · exact .inr (infixRest_parted _ strays run)
  · exact infixRest_stopped alike run ends

end Parts

end Grammar

end ClassScript
