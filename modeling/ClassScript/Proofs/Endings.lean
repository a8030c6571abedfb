import ClassScript.Proofs.ExpressionSpans
import ClassScript.Proofs.LookAhead

/-!
# Where constructs end

A reader that returns stands on the last token of what it has read: a statement, type, member or element covers all from
the token ahead to the one taken last (`Grammar.CoversAhead`), and so does an expression, unless parentheses stand around
it (`Grammar.expression_enclosed`). The lists that end with the first token that does not belong to them end there, and
not because a count runs out (`Reader.StopsWhen`). So reading comes to an end on all tokens
(`Program.reading_goes_on`).
-/

namespace ClassScript

/-- A cursor takes these tokens, one at least, on the way to another. -/
structure Cursor.Takes (c : Cursor) (used : List Token) (c' : Cursor) : Prop where
  ahead : c.ahead = used ++ c'.ahead
  last : used.getLast? = some c'.last

/-- A span covers all from the first to the last of these tokens. -/
def Span.Joins (s : Span) (used : List Token) : Prop :=
  ∃ first ∈ used.head?, ∃ last ∈ used.getLast?, s = first.span.cover last.span

/-- A span joins these tokens, or those between the parentheses around them. -/
inductive Span.Enclosed (s : Span) : List Token → Prop
  | bare {used : List Token} : s.Joins used → Enclosed s used
  | grouped {opening closing : Token} {used : List Token} : opening.kind = .symbol .leftParen →
    closing.kind = .symbol .rightParen → Enclosed s used → Enclosed s (opening :: used ++ [closing])

theorem Cursor.Reaches.takes {c c' : Cursor} (reaches : c.Reaches true c') : ∃ used, c.Takes used c' := by
  obtain ⟨-, used, ahead, last, some⟩ := reaches
  refine ⟨used, ahead, ?_⟩
  rw [last, List.getLastD_eq_getLast?, List.getLast?_eq_some_getLast (some rfl), Option.getD_some]

theorem Cursor.Takes.joins {c c' : Cursor} {used : List Token} {s : Span} (takes : c.Takes used c')
    (covers : s = c.head.span.cover c'.last.span) : s.Joins used := by
  obtain ⟨ahead, last⟩ := takes
  cases used with
  | nil => cases last
  | cons t used =>
    have head : c.head = t := by rw [Cursor.head, ahead, List.cons_append, List.headD_cons]
    exact ⟨t, rfl, c'.last, last, head ▸ covers⟩

namespace Grammar

open Reader

variable {α β : Type} {x : Reader α} {f : α → Reader β} {extent : β → Span} {t : Token} {c c' : Cursor} {g : Grammar}
  {depth : Nat}

/-! ## What is read goes to the token taken last -/

/-- What is read in front of `t` covers all from there to the token taken last. -/
def CoversAhead (t : Token) (x : Reader α) (extent : α → Span) : Prop :=
  ∀ c v c', c.head = t → x c = .ok (v, c') → extent v = t.span.cover c'.last.span

theorem CoversFrom.ahead {x : Reader β} (covers : CoversFrom t x extent) : CoversAhead t x extent :=
  fun c v c' _ run => covers c v c' run

theorem coversFrom_ite {x y : Reader β} {condition : Prop} [Decidable condition] (yes : CoversFrom t x extent)
    (no : CoversFrom t y extent) : CoversFrom t (if condition then x else y) extent := by
  split
  · exact yes
  · exact no

theorem coversFrom_failAt (fault : SyntaxFault) (u : Token) : CoversFrom t (failAt fault u) extent :=
  fun _ _ _ run => by cases run

theorem coversFrom_failAt_bind (fault : SyntaxFault) (u : Token) : CoversFrom t (failAt fault u >>= f) extent :=
  fun _ _ _ run => by cases run

theorem coversFrom_map {g : α → β} {extent' : α → Span} (covers : CoversFrom t x extent')
    (same : ∀ a, extent (g a) = extent' a) : CoversFrom t (do return g (← x)) extent := by
  intro c v c' run
  obtain ⟨a, _, ran, run⟩ := bind_ok run
  cases run
  exact (same a).trans (covers c a c' ran)

theorem coversFrom_spanFrom {g : Span → β} (same : ∀ s, extent (g s) = s) :
    CoversFrom t (do return g (← spanFrom t)) extent := by
  intro c v c' run
  obtain ⟨s, _, covered, run⟩ := bind_ok run
  cases covered
  cases run
  exact same _

theorem coversAhead_map {g : α → β} {extent' : α → Span} (covers : CoversAhead t x extent')
    (same : ∀ a, extent (g a) = extent' a) : CoversAhead t (do return g (← x)) extent := by
  intro c v c' here run
  obtain ⟨a, _, ran, run⟩ := bind_ok run
  cases run
  exact (same a).trans (covers c a c' here ran)

theorem exhausted_covers : CoversAhead t (do failAt .exhausted (← peek) : Reader β) extent := by
  intro c v c' _ run
  cases run

theorem coversAhead_peek_bind {f : Token → Reader β} (rest : CoversAhead t (f t) extent) :
    CoversAhead t (peek >>= f) extent := by
  rintro c v c' rfl run
  exact rest c v c' rfl run

theorem next_head {u : Token} (run : next c = .ok (u, c')) : u = c.head := by
  obtain ⟨last, ahead⟩ := c
  match ahead with
  | [] | [_] | _ :: _ :: _ => cases run; rfl

theorem coversAhead_next_bind {f : Token → Reader β} (rest : CoversFrom t (f t) extent) :
    CoversAhead t (next >>= f) extent := by
  rintro c v c' rfl run
  obtain ⟨u, mid, taken, run⟩ := bind_ok run
  rw [next_head taken] at run
  exact rest mid v c' run

theorem coversAhead_expect_bind {k : TokenKind} {f : Token → Reader β} (rest : CoversFrom t (f t) extent) :
    CoversAhead t (expect k >>= f) extent := by
  rintro c v c' rfl run
  obtain ⟨u, mid, expected, run⟩ := bind_ok run
  rw [next_head (expect_run expected).2] at run
  exact rest mid v c' run

theorem coversAhead_enter_bind {f : Nat → Reader β} (rest : ∀ deeper, CoversAhead t (f deeper) extent) :
    CoversAhead t (enter depth >>= f) extent := by
  intro c v c' here run
  obtain ⟨deeper, mid, entered, run⟩ := bind_ok run
  cases enter_run entered
  exact rest deeper c v c' here run

/-- What is one token ends where it starts. -/
theorem coversAhead_next {g : Token → β} (same : extent (g t) = t.span) : CoversAhead t (do return g (← next)) extent := by
  rintro c v c' rfl run
  obtain ⟨u, _, taken, run⟩ := bind_ok run
  cases run
  rw [next_head taken, same, next_last taken, Span.cover_self]

theorem accept_still {k : TokenKind} (run : accept k c = .ok (false, c')) : c' = c ∧ c.head.kind ≠ k := by
  obtain ⟨_, _, looked, run⟩ := bind_ok run
  cases looked
  split at run
  · obtain ⟨_, _, -, run⟩ := bind_ok run
    cases run
  · next other =>
    cases run
    exact ⟨rfl, fun same => other (beq_iff_eq.2 same)⟩

/-! ### Types -/

theorem functionType_covers : CoversAhead t (g.functionType depth) TypeExpr.span :=
  coversAhead_next_bind (coversFrom_bind fun _ => coversFrom_bind fun _ => coversFrom_bind fun _ =>
    coversFrom_markFrom fun _ => rfl)

theorem namedType_covers : CoversAhead t (g.namedType depth) TypeExpr.span := by
  rintro c v c' rfl run
  obtain ⟨start, mid, taken, run⟩ := bind_ok run
  obtain ⟨generic, mid', accepted, run⟩ := bind_ok run
  cases generic with
  | true =>
    have covers : CoversFrom start (do
        let args ← g.types depth
        let _ ← expect (.symbol .greater)
        return TypeExpr.generic (← markFrom start start) start.word args false) TypeExpr.span :=
      coversFrom_bind fun _ => coversFrom_bind fun _ => coversFrom_markFrom fun _ => rfl
    rw [← next_head taken]
    exact covers mid' v c' run
  | false =>
    cases (accept_still accepted).1
    cases run
    rw [next_last taken, Span.cover_self, ← next_head taken]
    rfl

theorem typeStep_covers : CoversAhead t (g.typeStep depth) TypeExpr.span := by
  refine coversAhead_enter_bind fun depth => coversAhead_peek_bind ?_
  have marked {x : Reader TypeExpr} (covers : CoversAhead t x TypeExpr.span) : CoversAhead t (x >>= fun type => do
      if ← accept (.symbol .question) then return type.asNullable (← spanFrom t) else return type) TypeExpr.span := by
    intro c v c' here run
    obtain ⟨type, _, read, run⟩ := bind_ok run
    obtain ⟨nullable, mid, accepted, run⟩ := bind_ok run
    cases nullable with
    | true => exact coversFrom_spanFrom (fun s => by cases type <;> rfl) mid v c' run
    | false =>
      cases (accept_still accepted).1
      cases run
      exact covers c _ _ here read
  dsimp only
  split
  · exact marked functionType_covers
  · exact marked namedType_covers
  · exact (coversFrom_failAt_bind _ t).ahead

/-! ### Statements and members -/

theorem block_covers : CoversAhead t (g.block depth) fun b => b.mark.span :=
  coversAhead_expect_bind (coversFrom_bind fun _ => coversFrom_markFrom fun _ => rfl)

theorem method_covers {nameToken : Token} {as : List Annotation} {mods : Modifiers} :
    CoversFrom t (g.method depth t nameToken as mods) fun m => m.mark.span := by
  unfold method
  refine coversFrom_bind fun _ => coversFrom_bind fun _ => coversFrom_bind fun _ => coversFrom_bind fun _ =>
    coversFrom_bind fun _ => coversFrom_ite ?_ ?_
  all_goals exact coversFrom_bind fun _ => coversFrom_bind fun _ => coversFrom_markFrom fun _ => rfl

theorem field_covers {nameToken : Token} {as : List Annotation} {mods : Modifiers} :
    CoversFrom t (g.field depth t nameToken as mods) fun f => f.mark.span := by
  unfold field
  exact coversFrom_bind fun _ => coversFrom_bind fun _ => coversFrom_bind fun _ => coversFrom_markFrom fun _ => rfl

/-- The source text of a member. -/
def Member.span : Member → Span
  | .field f => f.mark.span
  | .method m => m.mark.span

theorem member_covers : CoversAhead t (g.member depth) Member.span := by
  unfold member
  refine coversAhead_peek_bind (CoversFrom.ahead ?_)
  refine coversFrom_bind fun as => coversFrom_bind fun mods => coversFrom_bind fun nameToken => ?_
  refine coversFrom_ite (coversFrom_failAt_bind _ _) (coversFrom_bind fun _ => coversFrom_bind fun ahead => ?_)
  refine coversFrom_ite (coversFrom_map method_covers fun _ => rfl) ?_
  exact coversFrom_ite (coversFrom_failAt_bind _ _) (coversFrom_map field_covers fun _ => rfl)

theorem classDeclaration_covers {head : Token} {as : List Annotation} {isOpen : Bool} :
    CoversFrom t (g.classDeclaration depth t head as isOpen) Declaration.span := by
  unfold classDeclaration
  refine coversFrom_bind fun _ => coversFrom_bind fun _ => coversFrom_bind fun _ => coversFrom_ite
    (coversFrom_bind fun _ => coversFrom_bind fun _ => ?_) (coversFrom_bind fun _ => ?_)
  all_goals
    refine coversFrom_bind fun _ => coversFrom_ite ?_ ?_
    all_goals exact coversFrom_bind fun _ => coversFrom_bind fun _ => coversFrom_markFrom fun _ => rfl

theorem interfaceDeclaration_covers {head : Token} {as : List Annotation} :
    CoversFrom t (g.interfaceDeclaration depth t head as) Declaration.span := by
  unfold interfaceDeclaration
  refine coversFrom_bind fun _ => coversFrom_bind fun _ => coversFrom_bind fun _ => coversFrom_ite ?_ ?_
  all_goals
    refine coversFrom_bind fun _ => coversFrom_bind fun _ => ?_
    dsimp only
    split
    · exact coversFrom_failAt _ _
    · exact coversFrom_markFrom fun _ => rfl

theorem declaration_covers : CoversAhead t (g.declaration depth) Declaration.span := by
  unfold declaration
  refine coversAhead_peek_bind (CoversFrom.ahead ?_)
  refine coversFrom_bind fun as => coversFrom_bind fun u => ?_
  split
  · exact coversFrom_bind fun _ => coversFrom_bind fun _ => classDeclaration_covers
  · exact coversFrom_bind fun _ => classDeclaration_covers
  · exact coversFrom_bind fun _ => interfaceDeclaration_covers
  · exact coversFrom_failAt _ _

theorem importing_covers : CoversAhead t importing Stmt.span :=
  coversAhead_next_bind (coversFrom_bind fun _ => coversFrom_bind fun _ => coversFrom_bind fun _ =>
    coversFrom_markFrom fun _ => rfl)

theorem binding_covers : CoversAhead t (g.binding depth) Stmt.span :=
  coversAhead_next_bind (coversFrom_bind fun _ => coversFrom_bind fun _ => coversFrom_bind fun _ =>
    coversFrom_bind fun _ => coversFrom_markFrom fun _ => rfl)

theorem returning_covers : CoversAhead t (g.returning depth) Stmt.span := by
  refine coversAhead_next_bind (coversFrom_bind fun _ => coversFrom_ite ?_ (coversFrom_bind fun _ => ?_))
  all_goals exact coversFrom_bind fun _ => coversFrom_bind fun _ => coversFrom_markFrom fun _ => rfl

theorem branching_covers : CoversAhead t (g.branching depth) Stmt.span := by
  refine coversAhead_next_bind (coversFrom_bind fun _ => coversFrom_bind fun _ => coversFrom_bind fun _ =>
    coversFrom_ite (coversFrom_bind fun _ => coversFrom_ite ?_ ?_) ?_)
  · exact coversFrom_bind fun _ => coversFrom_bind fun _ => coversFrom_markFrom fun _ => rfl
  · exact coversFrom_bind fun _ => coversFrom_bind fun _ => coversFrom_markFrom fun _ => rfl
  · exact coversFrom_bind fun _ => coversFrom_markFrom fun _ => rfl

theorem selecting_covers : CoversAhead t (g.selecting depth) Stmt.span :=
  coversAhead_next_bind (coversFrom_bind fun _ => coversFrom_bind fun _ => coversFrom_bind fun _ =>
    coversFrom_bind fun _ => coversFrom_bind fun _ => coversFrom_markFrom fun _ => rfl)

theorem looping_covers : CoversAhead t (g.looping depth) Stmt.span :=
  coversAhead_next_bind (coversFrom_bind fun _ => coversFrom_bind fun _ => coversFrom_bind fun _ =>
    coversFrom_bind fun _ => coversFrom_bind fun _ => coversFrom_bind fun _ => coversFrom_markFrom fun _ => rfl)

theorem doing_covers : CoversAhead t (g.doing depth) Stmt.span :=
  coversAhead_peek_bind (CoversFrom.ahead (coversFrom_bind fun _ => coversFrom_bind fun _ =>
    coversFrom_markFrom fun _ => rfl))

theorem statementStep_covers : CoversAhead t (g.statementStep depth) Stmt.span := by
  unfold statementStep
  refine coversAhead_peek_bind ?_
  split
  · exact importing_covers
  · exact coversAhead_map declaration_covers fun _ => rfl
  · exact coversAhead_map declaration_covers fun _ => rfl
  · exact coversAhead_map declaration_covers fun _ => rfl
  · exact coversAhead_map declaration_covers fun _ => rfl
  · exact binding_covers
  · exact returning_covers
  · exact branching_covers
  · exact selecting_covers
  · exact looping_covers
  · exact coversAhead_map block_covers fun _ => rfl
  · exact doing_covers

/-! ### Markup -/

theorem elementStep_covers : CoversAhead t (g.elementStep depth) fun e => e.mark.span := by
  unfold elementStep
  refine coversAhead_enter_bind fun depth => coversAhead_next_bind (coversFrom_bind fun tagToken => ?_)
  refine coversFrom_ite (coversFrom_failAt_bind _ _) (coversFrom_bind fun _ => coversFrom_bind fun _ =>
    coversFrom_bind fun _ => coversFrom_ite (coversFrom_markFrom fun _ => rfl) ?_)
  exact coversFrom_bind fun _ => coversFrom_bind fun _ => coversFrom_bind fun _ => coversFrom_markFrom fun _ => rfl

theorem markup_covers : CoversAhead t (g.markup depth) Expr.span := by
  unfold markup
  refine coversAhead_next_bind (coversFrom_bind fun _ => coversFrom_ite ?_ ?_)
  · exact coversFrom_bind fun u => coversFrom_failAt_bind _ u
  · exact coversFrom_bind fun _ => coversFrom_spanFrom fun _ => rfl

/-! ### Expressions -/

theorem parent_covers : CoversAhead t parent Expr.span := by
  rintro c v c' rfl run
  obtain ⟨u, mid, taken, run⟩ := bind_ok run
  obtain ⟨_, _, looked, run⟩ := bind_ok run
  cases looked
  dsimp only at run
  split at run
  · cases run
  · cases run
    rw [next_last taken, Span.cover_self, ← next_head taken]
    rfl

/-- The tokens taken in front of `t` enclose what is read. -/
def EnclosesAhead (t : Token) (x : Reader Expr) : Prop :=
  ∀ c e c' used, c.head = t → c.Open → x c = .ok (e, c') → c.Takes used c' → e.span.Enclosed used

theorem CoversAhead.encloses {x : Reader Expr} (covers : CoversAhead t x Expr.span) : EnclosesAhead t x := by
  rintro c e c' used here - run takes
  refine .bare (takes.joins ?_)
  rw [here]
  exact covers c e c' here run

section Enclosing

variable {n : Nat} (goes : g.Goes n n) (encloses : ∀ depth precedence t, EnclosesAhead t (g.expression depth precedence))
include goes encloses

theorem group_encloses (kind : t.kind = .symbol .leftParen) : EnclosesAhead t (g.group depth) := by
  rintro c e c' used rfl opened run takes
  obtain ⟨opening, c₁, taken, run⟩ := bind_ok run
  obtain ⟨e', c₂, inner, run⟩ := bind_ok run
  obtain ⟨closing, c₃, expected, run⟩ := bind_ok run
  cases run
  have more := opened.more (inside_of_kind kind nofun c rfl)
  have opened₁ := (next_reaches opened more taken).stays
  have reaches := (goes.expression depth 0).reaches opened₁ trivial inner
  obtain ⟨isClosing, taken'⟩ := expect_run expected
  have more' := reaches.stays.more (inside_of_kind isClosing nofun c₂ rfl)
  obtain ⟨used', takes'⟩ := reaches.takes
  obtain ⟨ahead, -⟩ := next_takes more taken
  obtain ⟨ahead', -⟩ := next_takes more' taken'
  have same : used = opening :: used' ++ [closing] := by
    refine (List.append_left_inj c'.ahead).1 ?_
    rw [← takes.ahead, ahead, takes'.ahead, ahead', List.cons_append, List.cons_append, List.append_assoc,
      List.singleton_append]
  rw [same]
  refine .grouped (next_head taken ▸ kind) (next_head taken' ▸ isClosing) ?_
  exact encloses depth 0 c₁.head c₁ e c₂ used' rfl opened₁ inner takes'

omit goes encloses in
theorem enclosesAhead_peek_bind {f : Token → Reader Expr} (rest : EnclosesAhead t (f t)) : EnclosesAhead t (peek >>= f) := by
  rintro c e c' used rfl opened run takes
  exact rest c e c' used rfl opened run takes

theorem operand_encloses : EnclosesAhead t (g.operand depth) := by
  have first {x : Token → Reader Expr} (rest : CoversFrom t (x t) Expr.span) : EnclosesAhead t (next >>= x) :=
    (coversAhead_next_bind rest).encloses
  have leaf {x : Token → Expr} (same : (x t).span = t.span) : EnclosesAhead t (next >>= fun u => pure (x u)) :=
    (coversAhead_next same).encloses
  unfold operand
  refine enclosesAhead_peek_bind ?_
  split
  · exact leaf rfl
  · exact leaf rfl
  · exact leaf rfl
  · exact leaf rfl
  · exact leaf rfl
  · exact leaf rfl
  · exact parent_covers.encloses
  · refine first (coversFrom_bind fun _ => coversFrom_ite (coversFrom_bind fun _ => coversFrom_failAt_bind _ _) ?_)
    exact coversFrom_bind fun _ => coversFrom_bind fun _ => coversFrom_markFrom fun _ => rfl
  · exact markup_covers.encloses
  · exact first (coversFrom_bind fun _ => coversFrom_markFrom fun _ => rfl)
  · next kind =>
    intro c e c' used here opened run takes
    obtain ⟨_, _, looked, run⟩ := bind_ok run
    cases looked
    split at run
    · refine first (coversFrom_bind fun _ => coversFrom_bind fun _ => coversFrom_bind fun _ => coversFrom_bind fun _ => ?_)
        c e c' used here opened run takes
      exact coversFrom_markFrom fun _ => rfl
    · exact group_encloses goes encloses kind c e c' used here opened run takes
  · exact first (coversFrom_bind fun _ => coversFrom_markFrom fun _ => rfl)
  · exact first (coversFrom_bind fun _ => coversFrom_markFrom fun _ => rfl)
  · rintro c e c' used - - ⟨⟩

omit goes encloses in
theorem infixRest_covers {precedence fuel : Nat} {left e : Expr}
    (run : g.infixRest depth precedence t left fuel c = .ok (e, c')) :
    (e = left ∧ c' = c) ∨ e.span = t.span.cover c'.last.span := by
  induction fuel generalizing left c with
  | zero =>
    cases run
    exact .inl ⟨rfl, rfl⟩
  | succ fuel ih =>
    obtain ⟨_, _, looked, run⟩ := bind_ok run
    cases looked
    generalize Infix.ofKind? (c.ahead.headD c.last).kind = kind? at run
    cases kind? with
    | none =>
      cases run
      exact .inl ⟨rfl, rfl⟩
    | some kind =>
      dsimp only at run
      split at run
      · obtain ⟨left', mid, stepped, run⟩ := bind_ok run
        rcases ih run with ⟨rfl, rfl⟩ | covers
        · exact .inr (infixStep_covers g depth t left kind c _ _ stepped)
        · exact .inr covers
      · cases run
        exact .inl ⟨rfl, rfl⟩

theorem expressionStep_encloses {precedence : Nat} : EnclosesAhead t (g.expressionStep depth precedence) := by
  rintro c e c' used rfl opened run takes
  obtain ⟨deeper, _, entered, run⟩ := bind_ok run
  cases enter_run entered
  obtain ⟨_, _, looked, run⟩ := bind_ok run
  cases looked
  obtain ⟨left, mid, read, run⟩ := bind_ok run
  obtain ⟨_, _, looked, run⟩ := bind_ok run
  cases looked
  rcases infixRest_covers run with ⟨rfl, rfl⟩ | covers
  · exact operand_encloses goes encloses c _ _ used rfl opened read takes
  · exact .bare (takes.joins covers)

end Enclosing

/-- An expression covers all that is taken but for the parentheses around it. -/
theorem expression_enclosed (fuel depth precedence : Nat) (t : Token) :
    EnclosesAhead t ((within fuel).expression depth precedence) := by
  induction fuel generalizing depth precedence t with
  | zero =>
    rw [within_zero]
    rintro c e c' used - - ⟨⟩
  | succ fuel ih =>
    rw [within_succ]
    have goes : (within fuel).Goes (fuel / 2) (fuel / 2) := (within_goes fuel).fewer (Nat.le_refl _) (by omega)
    exact expressionStep_encloses goes ih


/-! ## What members and elements end with -/

theorem keeps_pure_bind {a : α} (rest : Keeps (f a)) : Keeps (pure a >>= f) := rest

/-- Either a token that closes is taken, or something that closes comes behind. -/
theorem closes_accepted_bind {P : TokenKind → Prop} {k : TokenKind} {f : Bool → Reader β} (holds : P k)
    (yes : Keeps (f true)) (no : ClosesWith P (f false)) : ClosesWith P (accept k >>= f) := by
  intro c v c' run
  obtain ⟨taken, mid, accepted, run⟩ := bind_ok run
  cases taken with
  | false => exact no mid v c' run
  | true =>
    obtain ⟨_, _, looked, accepted⟩ := bind_ok accepted
    cases looked
    split at accepted
    · next same =>
      obtain ⟨_, _, taken, accepted⟩ := bind_ok accepted
      cases accepted
      rw [yes _ v c' run, next_last taken, show c.head.kind = k from beq_iff_eq.1 same]
      exact holds
    · cases accepted

/-- A member ends with a semicolon or a brace. -/
theorem closes_member : Closes (g.member depth) := by
  have isMethod {start nameToken : Token} {as : List Annotation} {mods : Modifiers} :
      Closes (g.method depth start nameToken as mods) := by
    unfold method
    refine closes_bind fun _ => closes_bind fun _ => closes_bind fun _ => closes_bind fun _ => closes_bind fun _ => ?_
    dsimp only
    split
    · exact closes_last_bind closes_block fun _ => keeps_pure_bind (keeps_markFrom_bind fun _ => keeps_pure _)
    · exact closes_last_bind (closes_expect rfl) fun _ => keeps_pure_bind (keeps_markFrom_bind fun _ => keeps_pure _)
  have isField {start nameToken : Token} {as : List Annotation} {mods : Modifiers} :
      Closes (g.field depth start nameToken as mods) := by
    unfold field
    exact closes_bind fun _ => closes_bind fun _ => closes_mark (closes_expect (P := fun k => k.isEnd = true) rfl)
  unfold member
  refine closes_bind fun start => closes_bind fun as => closes_bind fun mods => closes_bind fun u => ?_
  dsimp only
  split
  · exact fun _ _ _ run => by cases run
  · refine closes_bind fun nameToken => closes_bind fun ahead => ?_
    split
    · exact closes_last_bind isMethod fun _ => keeps_pure _
    · split
      · exact fun _ _ _ run => by cases run
      · exact closes_last_bind isField fun _ => keeps_pure _

/-- A kind of token that ends an element. -/
def endsElement (k : TokenKind) : Prop := k = .symbol .greater ∨ k = .symbol .slashGreater

theorem closes_childrenUpTo (tag : String) (fuel : Nat) : ClosesWith endsElement (g.childrenUpTo depth tag fuel) := by
  have closing : ClosesWith endsElement (closingTag tag) := by
    unfold closingTag
    refine closes_bind fun _ => closes_bind fun u => ?_
    dsimp only
    split
    · exact fun _ _ _ run => by cases run
    · exact closes_last_bind (closes_expect (.inl rfl)) fun _ => keeps_pure _
  induction fuel with
  | zero => exact fun _ _ _ run => by cases run
  | succ fuel ih =>
    refine closes_bind fun u => ?_
    split
    · exact fun _ _ _ run => by cases run
    · exact closes_last_bind closing fun _ => keeps_pure _
    · exact closes_bind fun _ => closes_last_bind ih fun _ => keeps_pure _
    · exact closes_bind fun _ => closes_last_bind ih fun _ => keeps_pure _
    · exact closes_bind fun _ => closes_last_bind ih fun _ => keeps_pure _

theorem closes_elementStep : ClosesWith endsElement (g.elementStep depth) := by
  unfold elementStep
  refine closes_bind fun _ => closes_bind fun _ => closes_bind fun tagToken => ?_
  dsimp only
  split
  · exact fun _ _ _ run => by cases run
  · refine closes_bind fun _ => closes_bind fun as => closes_accepted_bind (.inr rfl) ?_ ?_
    · exact keeps_markFrom_bind fun _ => keeps_pure _
    · exact closes_bind fun _ => closes_bind fun _ => closes_mark (closes_childrenUpTo _ _)

theorem closes_element (fuel : Nat) : ClosesWith endsElement ((within fuel).element depth) := by
  cases fuel with
  | zero =>
    rw [within_zero]
    exact fun _ _ _ run => by cases run
  | succ fuel =>
    rw [within_succ]
    exact closes_elementStep

end Grammar

/-! ## Lists that end with the first token that does not belong to them -/

namespace Reader

variable {α β : Type} {x : Reader α} {f : α → Reader β} {P : Cursor → Prop} {stop : TokenKind → Prop} {n fuel : Nat}

/-- With no more tokens ahead than that, the reader comes to rest in front of such a token. -/
def StopsWhen (P : Cursor → Prop) (stop : TokenKind → Prop) (fuel : Nat) (x : Reader α) : Prop :=
  ∀ c, c.Open → P c → c.ahead.length ≤ fuel → ∀ v c', x c = .ok (v, c') → stop c'.head.kind

/-- From everywhere the reader comes to rest in front of such a token. -/
abbrev Stops (stop : TokenKind → Prop) (fuel : Nat) (x : Reader α) : Prop := StopsWhen (fun _ => True) stop fuel x

/-- The count is never used up, since the end of the input is still ahead. -/
theorem stops_zero : StopsWhen P stop 0 x := fun _ opened _ few =>
  absurd (List.length_eq_zero_iff.1 (Nat.le_zero.1 few)) opened.ahead_ne_nil

theorem stops_pure {a : α} (holds : ∀ c, P c → stop c.head.kind) : StopsWhen P stop fuel (pure a) := by
  intro c _ here _ v c' run
  cases run
  exact holds c here

theorem stops_failAt {fault : SyntaxFault} {t : Token} : StopsWhen P stop fuel (failAt fault t : Reader α) :=
  fun _ _ _ _ _ _ run => by cases run

theorem stops_ite {y : Reader α} {condition : Prop} [Decidable condition] (yes : condition → StopsWhen P stop fuel x)
    (no : ¬ condition → StopsWhen P stop fuel y) : StopsWhen P stop fuel (if condition then x else y) := by
  split
  · next holds => exact yes holds
  · next fails => exact no fails

theorem stops_peek_bind {f : Token → Reader α} (rest : ∀ t, StopsWhen (·.head = t) stop fuel (f t)) :
    StopsWhen P stop fuel (peek >>= f) := fun c opened _ => rest c.head c opened rfl

theorem stops_then (first : GoesWhen P false n x) (rest : ∀ a, Stops stop fuel (f a)) : StopsWhen P stop fuel (x >>= f) := by
  intro c opened here few v c' run
  obtain ⟨a, mid, ran, run⟩ := bind_ok run
  have reaches := first.reaches opened here ran
  exact rest a mid reaches.stays trivial (Nat.le_trans reaches.length_le few) v c' run

/-- Behind a token the count is one less. -/
theorem stops_item (first : GoesWhen P true n x) (rest : ∀ a, Stops stop fuel (f a)) :
    StopsWhen P stop (fuel + 1) (x >>= f) := by
  intro c opened here few v c' run
  obtain ⟨a, mid, ran, run⟩ := bind_ok run
  have reaches := first.reaches opened here ran
  exact rest a mid reaches.stays trivial (Nat.le_of_lt_succ (Nat.lt_of_lt_of_le reaches.length_lt few)) v c' run

theorem stops_map {g : α → β} (first : StopsWhen P stop fuel x) : StopsWhen P stop fuel (do return g (← x)) := by
  intro c opened here few v c' run
  obtain ⟨a, _, ran, run⟩ := bind_ok run
  cases run
  exact first c opened here few a c' ran

theorem stops_get_bind {f : Cursor → Reader α} (rest : ∀ s, StopsWhen P stop fuel (f s)) :
    StopsWhen P stop fuel (get >>= f) := fun c opened here => rest c c opened here

theorem stops_peekIs_bind {k : TokenKind} {f : Bool → Reader α}
    (rest : ∀ t, StopsWhen (·.head = t) stop fuel (f (t.kind == k))) : StopsWhen P stop fuel (peekIs k >>= f) :=
  fun c opened _ => rest c.head c opened rfl

theorem stops_accept_bind {k : TokenKind} {f : Bool → Reader α} (inside : k ≠ .endOfInput)
    (yes : Stops stop fuel (f true)) (no : StopsWhen (·.head.kind ≠ k) stop (fuel + 1) (f false)) :
    StopsWhen P stop (fuel + 1) (accept k >>= f) := by
  intro c opened _ few v c' run
  obtain ⟨taken, mid, accepted, run⟩ := bind_ok run
  cases taken with
  | true =>
    have reaches := accept_reaches inside opened accepted
    exact yes mid reaches.stays trivial (Nat.le_of_lt_succ (Nat.lt_of_lt_of_le reaches.length_lt few)) v c' run
  | false =>
    obtain ⟨still, other⟩ := Grammar.accept_still accepted
    rw [still] at run
    exact no c opened other few v c' run

theorem stops_commaRest {p : Reader α} (item : Goes true n p) (fuel : Nat) :
    Stops (· ≠ .symbol .comma) fuel (commaRest p fuel) := by
  induction fuel with
  | zero => exact stops_zero
  | succ fuel ih =>
    exact stops_accept_bind (by decide) (stops_then item.weaken fun _ => stops_map ih) (stops_pure fun _ other => other)

end Reader

namespace Grammar

open Reader

variable {g : Grammar} {depth n : Nat}

theorem stops_annotationsUpTo (fuel : Nat) : Stops (· ≠ .atName) fuel (annotationsUpTo fuel) := by
  induction fuel with
  | zero => exact stops_zero
  | succ fuel ih =>
    refine stops_peekIs_bind fun t => stops_ite (fun same => ?_) fun other => stops_pure fun c here => ?_
    · exact stops_item (n := 0) (goes_next.mono (inside_of_kind (beq_iff_eq.1 same) nofun)) fun _ => stops_map ih
    · rw [here]
      exact fun same => other (beq_iff_eq.2 same)

theorem stops_modifiersFrom (mods : Modifiers) (fuel : Nat) :
    Stops (fun k => ∀ word, k = .keyword word → isModifier word = false) fuel (modifiersFrom mods fuel) := by
  induction fuel generalizing mods with
  | zero => exact stops_zero
  | succ fuel ih =>
    refine stops_peek_bind fun t => ?_
    split
    · next word kind =>
      refine stops_ite (fun _ => ?_) fun other => stops_ite (fun _ => stops_failAt) fun _ => stops_pure fun c here => ?_
      · split
        · exact stops_failAt
        · exact stops_item (n := 0) (goes_next.mono (inside_of_kind kind nofun)) fun _ => ih _
      · rintro word' same
        rw [here, kind] at same
        cases same
        exact Bool.eq_false_iff.2 other
    · next other =>
      refine stops_ite (fun _ => stops_failAt) fun _ => stops_pure fun c here word same => ?_
      rw [here] at same
      exact absurd same (other word)

theorem stops_textRest (sofar : Text) (fuel : Nat) : Stops (endsText · = true) fuel (textRest sofar fuel) := by
  induction fuel generalizing sofar with
  | zero => exact stops_zero
  | succ fuel ih =>
    refine stops_peek_bind fun t => stops_ite (fun isEnd => stops_pure fun c here => ?_) fun goesOn => ?_
    · rw [here]
      exact isEnd
    · have inside : t.kind ≠ .endOfInput := by
        intro atEnd
        rw [atEnd] at goesOn
        exact goesOn rfl
      exact stops_get_bind fun _ => stops_item (n := 0) (goes_next.mono (inside_of_head inside)) fun _ => ih _

section Parts

variable (goes : g.Goes n n)
include goes

theorem stops_attributesUpTo (fuel : Nat) : Stops (·.isName = false) fuel (g.attributesUpTo depth fuel) := by
  induction fuel with
  | zero => exact stops_zero
  | succ fuel ih =>
    refine stops_peek_bind fun t => stops_ite (fun named => ?_) fun other => stops_pure fun c here => ?_
    · exact stops_item ((goes_attr goes).mono (inside_of_head (inside_of_isName named))) fun _ => stops_map ih
    · rw [here]
      exact Bool.eq_false_iff.2 other

theorem stops_infixRest (precedence : Nat) (start : Token) (left : Expr) (fuel : Nat) :
    Stops (fun k => ∀ kind, Infix.ofKind? k = some kind → kind.precedence ≤ precedence) fuel
      (g.infixRest depth precedence start left fuel) := by
  induction fuel generalizing left with
  | zero => exact stops_zero
  | succ fuel ih =>
    refine stops_peek_bind fun t => ?_
    split
    · next none =>
      refine stops_pure fun c here kind some => ?_
      rw [here, none] at some
      cases some
    · next kind found =>
      refine stops_ite (fun _ => ?_) fun loose => stops_pure fun c here kind' some => ?_
      · have inside := inside_of_head (inside_of_operator found)
        exact stops_item ((goes_infixStep goes start left kind).mono inside) fun _ => ih _
      · rw [here, found] at some
        cases some
        exact Nat.not_lt.1 loose

end Parts

end Grammar

/-! ## Every call -/

/-- What a call of a reader comes to. If it returns, the cursor stands on the last of the tokens taken, which spell what
is returned, and the end of the input is still ahead. If it fails, that is not because its steps have run out, unless
there are more tokens ahead than `steps`. -/
structure Reader.Settles {α : Type} (x : Reader α) (steps : Nat) (c : Cursor) (spells : α → List Token → Prop) : Prop where
  returns : ∀ v c', x c = .ok (v, c') → c'.ahead ≠ [] ∧ ∃ used, c.Takes used c' ∧ spells v used
  fails : ∀ fault span, x c = .error (fault, span) → c.ahead.length ≤ steps → fault ≠ .exhausted

theorem Reader.GoesWhen.settles {α : Type} {x : Reader α} {P : Cursor → Prop} {n : Nat} {c : Cursor}
    {spells : α → List Token → Prop} (goes : GoesWhen P true n x) (opened : c.Open) (holds : P c)
    (spelled : ∀ v c' used, x c = .ok (v, c') → c.Takes used c' → spells v used) : x.Settles n c spells where
  returns v c' run := by
    have reaches := goes.reaches opened holds run
    obtain ⟨used, takes⟩ := reaches.takes
    exact ⟨reaches.stays.ahead_ne_nil, used, takes, spelled v c' used run takes⟩
  fails fault span failed := by
    have went := goes c opened holds
    rwa [GoesFrom, failed] at went

namespace Grammar

open Reader

/-- What a call that reads one of the constructs that nest, or a member, comes to. -/
structure Settled (g : Grammar) (depth steps : Nat) (c : Cursor) : Prop where
  statement : (g.statement depth).Settles steps c fun s used =>
    s.span.Joins used ∧ ∃ last ∈ used.getLast?, last.kind.isEnd = true
  expression : ∀ precedence, (g.expression depth precedence).Settles steps c fun e used => e.span.Enclosed used
  type : (g.type depth).Settles steps c fun t used => t.span.Joins used
  member : (g.member depth).Settles steps c fun m used =>
    m.span.Joins used ∧ ∃ last ∈ used.getLast?, last.kind.isEnd = true
  element : c.head.kind = .symbol .less → (g.element depth).Settles steps c fun e used =>
    e.mark.span.Joins used ∧ ∃ last ∈ used.getLast?, endsElement last.kind

/-- The lists without a closing token go on as long as the token ahead belongs to them. -/
structure ListsEnd (g : Grammar) (depth : Nat) (c : Cursor) : Prop where
  commas : ∀ {α : Type} {p : Reader α} {n : Nat}, Reader.Goes true n p → ∀ items c',
    commaRest p c.ahead.length c = .ok (items, c') → c'.head.kind ≠ .symbol .comma
  annotations : ∀ as c', annotations c = .ok (as, c') → c'.head.kind ≠ .atName
  modifiers : ∀ m c', modifiers c = .ok (m, c') → ∀ word, c'.head.kind = .keyword word → isModifier word = false
  attributes : ∀ as c', g.attributesUpTo depth c.ahead.length c = .ok (as, c') → c'.head.kind.isName = false
  text : ∀ sofar all c', textRest sofar c.ahead.length c = .ok (all, c') → endsText c'.head.kind = true
  operators : ∀ precedence start left e c', g.infixRest depth precedence start left c.ahead.length c = .ok (e, c') →
    ∀ kind, Infix.ofKind? c'.head.kind = some kind → kind.precedence ≤ precedence

variable {fuel depth : Nat} {c : Cursor}

theorem within_settled (opened : c.Open) : (within fuel).Settled depth (fuel / 2) c := by
  have goes : (within fuel).Goes (fuel / 2) (fuel / 2) := (within_goes fuel).fewer (Nat.le_refl _) (by omega)
  have statement : CoversAhead c.head ((within fuel).statement depth) Stmt.span := by
    cases fuel with
    | zero =>
      rw [within_zero]
      exact exhausted_covers
    | succ fuel =>
      rw [within_succ]
      exact statementStep_covers
  have type : CoversAhead c.head ((within fuel).type depth) TypeExpr.span := by
    cases fuel with
    | zero =>
      rw [within_zero]
      exact exhausted_covers
    | succ fuel =>
      rw [within_succ]
      exact typeStep_covers
  have element : CoversAhead c.head ((within fuel).element depth) fun e => e.mark.span := by
    cases fuel with
    | zero =>
      rw [within_zero]
      exact exhausted_covers
    | succ fuel =>
      rw [within_succ]
      exact elementStep_covers
  exact {
    statement := (goes.statement depth).settles opened trivial fun s c' used run takes =>
      ⟨takes.joins (statement c s c' rfl run), c'.last, takes.last, closes_statement fuel c s c' run⟩
    expression := fun precedence => (goes.expression depth precedence).settles opened trivial fun e c' used run takes =>
      expression_enclosed fuel depth precedence c.head c e c' used rfl opened run takes
    type := (goes.type depth).settles opened trivial fun t c' used run takes => takes.joins (type c t c' rfl run)
    member := (goes_member goes).settles opened trivial fun m c' used run takes =>
      ⟨takes.joins (member_covers c m c' rfl run), c'.last, takes.last, closes_member c m c' run⟩
    element := fun less => (goes.element depth).settles opened less fun e c' used run takes =>
      ⟨takes.joins (element c e c' rfl run), c'.last, takes.last, closes_element fuel c e c' run⟩ }

theorem within_listsEnd (opened : c.Open) : (within fuel).ListsEnd depth c := by
  have goes : (within fuel).Goes (fuel / 2) (fuel / 2) := (within_goes fuel).fewer (Nat.le_refl _) (by omega)
  have all := Nat.le_refl c.ahead.length
  exact {
    commas := fun item => stops_commaRest item _ c opened trivial all
    annotations := stops_annotationsUpTo _ c opened trivial all
    modifiers := stops_modifiersFrom {} _ c opened trivial (Nat.le_succ_of_le all)
    attributes := stops_attributesUpTo goes _ c opened trivial all
    text := fun sofar => stops_textRest sofar _ c opened trivial all
    operators := fun precedence start left => stops_infixRest goes precedence start left _ c opened trivial all }

/-- A parenthesis is read from where it stands, as looking ahead from behind it says. -/
theorem operand_looks_ahead {g : Grammar} {s : Standing} (opened : s.cursor.Open) (isOpening : c.head.kind = .symbol .leftParen)
    (behind : next c = .ok (c.head, s.cursor)) :
    g.operand depth c = if lambdaAhead 1 s.cursor.ahead then g.lambda depth c else g.group depth c := by
  have same : c.ahead.drop 1 = s.cursor.ahead := by
    obtain ⟨last, ahead⟩ := c
    match ahead with
    | [] =>
      refine absurd ?_ opened.ahead_ne_nil
      rw [← (Prod.mk.inj (Except.ok.inj behind)).2]
    | [u] =>
      rw [← (Prod.mk.inj (Except.ok.inj behind)).2] at opened
      cases (Option.some.inj opened).symm.trans isOpening
    | u :: v :: rest => rw [← (Prod.mk.inj (Except.ok.inj behind)).2, List.drop_one, List.tail_cons]
  rw [operand, bind_of_ok (show peek c = .ok (c.head, c) from rfl), isOpening]
  dsimp only
  rw [bind_of_ok (show (get : Reader Cursor) c = .ok (c, c) from rfl), same]
  split
  · rfl
  · rfl

end Grammar

theorem Cursor.On.opened {tokens : List Token} {c : Cursor} (on : c.On tokens)
    (ends : tokens.getLast?.map Token.kind = some .endOfInput) : c.Open := by
  obtain ⟨some, before, rfl⟩ := on
  rwa [List.getLast?_append, List.getLast?_eq_some_getLast some, Option.some_or, ← List.getLast?_eq_some_getLast some] at ends

/-- Whatever the tokens are, reading them ends with a program or with one fault of the grammar; every call on the way
stands on the last token of what it returns; every list ends by itself; and looking ahead leads back to where it
began. -/
theorem Program.reading_goes_on (file : String) (tokens : List Token) :
    ((∃ p, ofTokens file tokens = .ok p) ∨ ∃ fault span, fault ≠ SyntaxFault.exhausted ∧
      ofTokens file tokens = .error ⟨.syntactic, fault.code, fault.message, span, file⟩) ∧
    (∀ c : Cursor, c.On (Token.significant tokens) → ∀ fuel depth,
      (Grammar.within fuel).Settled depth (fuel / 2) c ∧ (Grammar.within fuel).ListsEnd depth c) ∧
    ∀ s : Standing, s.cursor.On (Token.significant tokens) →
      Reader.next s.cursor = .ok (s.advance.current, s.advance.cursor) ∧
      ∃ answer, s.lookAhead = some (answer, s) ∧
        ∀ (g : Grammar) depth c, c.head.kind = .symbol .leftParen → Reader.next c = .ok (c.head, s.cursor) →
          g.operand depth c = if answer then g.lambda depth c else g.group depth c := by
  have ends := Token.significant_ends tokens
  refine ⟨?_, fun c on fuel depth => ?_, fun s on => ?_⟩
  · have some := Token.significant_ne_nil tokens
    unfold ofTokens
    generalize Token.significant tokens = ahead at ends some ⊢
    have goes : (Grammar.sized ahead.length).Goes ahead.length ahead.length :=
      (Grammar.within_goes (Grammar.bound ahead.length)).fewer (by unfold Grammar.bound; omega)
        (by unfold Grammar.bound; omega)
    have went := Grammar.goes_program goes file ⟨ahead.headD default, ahead⟩ ends trivial
    unfold Reader.GoesFrom at went
    dsimp only
    split at went
    · next run => exact .inl ⟨_, by rw [StateT.run, run]⟩
    · next fault span run => exact .inr ⟨fault, span, went (Nat.le_refl _), by rw [StateT.run, run]⟩
  · exact ⟨Grammar.within_settled (on.opened ends), Grammar.within_listsEnd (on.opened ends)⟩
  · have opened := on.opened ends
    refine ⟨Standing.next_cursor ?_, _, Standing.looks_ahead opened, fun g depth c => Grammar.operand_looks_ahead opened⟩
    exact Nat.lt_of_not_le fun behind => on.ahead (List.drop_eq_nil_iff.2 behind)

/-! A name in parentheses, with neither a semicolon nor the end of the input behind. -/

namespace GroupedName

def opening : Token := ⟨.symbol .leftParen, "(", ⟨0, 1, 1, 1⟩⟩

def inner : Token := ⟨.identifier, "a", ⟨1, 2, 1, 2⟩⟩

def closing : Token := ⟨.symbol .rightParen, ")", ⟨2, 3, 1, 3⟩⟩

/-- The end of the input that is missing. -/
def ending : Token := ⟨.endOfInput, [], ⟨3, 3, 1, 4⟩⟩

/-- Behind the opening parenthesis. -/
def inside : Standing := ⟨⟨Token.significant [opening, inner, closing], 1⟩, default, opening, inner⟩

end GroupedName

open GroupedName in
/-- The expression is the name, but the cursor is left on the closing parenthesis, and no lambda is seen ahead. -/
theorem Program.grouped_name_is_left_at_its_end :
    Cursor.On (Token.significant [opening, inner, closing]) ⟨default, Token.significant [opening, inner, closing]⟩ ∧
    (Grammar.within 8).expression 0 0 ⟨default, Token.significant [opening, inner, closing]⟩ =
      .ok (.name (Name.ofToken inner), ⟨closing, [ending]⟩) ∧
    inner.span.Enclosed [opening, inner, closing] ∧
    inside.cursor.On (Token.significant [opening, inner, closing]) ∧ inside.lookAhead = some (false, inside) := by
  obtain ⟨-, calls, looks⟩ := reading_goes_on "" [opening, inner, closing]
  have on : Cursor.On (Token.significant [opening, inner, closing]) ⟨default, Token.significant [opening, inner, closing]⟩ :=
    ⟨nofun, List.suffix_rfl⟩
  have on' : inside.cursor.On (Token.significant [opening, inner, closing]) := ⟨nofun, List.drop_suffix 1 _⟩
  have run : (Grammar.within 8).expression 0 0 ⟨default, Token.significant [opening, inner, closing]⟩ =
      .ok (.name (Name.ofToken inner), ⟨closing, [ending]⟩) := by
    with_unfolding_all rfl
  obtain ⟨-, used, takes, enclosed⟩ := ((calls _ on 8 0).1.expression 0).returns _ _ run
  have same : used = [opening, inner, closing] := (List.append_cancel_right takes.ahead).symm
  obtain ⟨-, answer, answers, -⟩ := looks inside on'
  have no : some answer = some false := (congrArg (Option.map Prod.fst) answers).symm.trans rfl
  exact ⟨on, run, same ▸ enclosed, on', Option.some.inj no ▸ answers⟩

end ClassScript
