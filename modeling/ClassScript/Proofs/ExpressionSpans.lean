import ClassScript.Proofs.EchoedStatements
import ClassScript.Proofs.Excerpts
import ClassScript.Proofs.ReadBack

/-!
# Spans of expressions are their source

The source text in the span of an expression, with a semicolon behind it, is a program of one statement, which is that
expression, seen from where it starts (`Program.expression_is_its_source`). The tokens of an expression are read again as
one wherever they stand (`Recurs`), and an excerpt of the text has the same tokens, since no string runs to the end of a
program that is read: its last token ends a statement.
-/

namespace ClassScript

/-- A kind of token that ends a statement. -/
def TokenKind.isEnd (k : TokenKind) : Bool := k == .symbol .semicolon || k == .symbol .rightBrace

namespace Grammar

open Reader

/-! ## Where statements end -/

section Ending

variable {α β : Type} {x : Reader α} {f : α → Reader β} {k : TokenKind} {P : TokenKind → Prop} {g : Grammar} {depth : Nat}

/-- The token that is taken last is of such a kind. -/
def ClosesWith (P : TokenKind → Prop) (x : Reader α) : Prop := ∀ c v c₁, x c = .ok (v, c₁) → P c₁.last.kind

/-- The token that is taken last ends a statement. -/
abbrev Closes (x : Reader α) : Prop := ClosesWith (fun k => k.isEnd = true) x

/-- No token is taken. -/
def Keeps (x : Reader α) : Prop := ∀ c v c₁, x c = .ok (v, c₁) → c₁.last = c.last

theorem closes_bind (rest : ∀ v, ClosesWith P (f v)) : ClosesWith P (x >>= f) := by
  intro c v c₁ run
  obtain ⟨a, mid, -, run⟩ := bind_ok run
  exact rest a mid v c₁ run

theorem closes_last_bind (first : ClosesWith P x) (rest : ∀ v, Keeps (f v)) : ClosesWith P (x >>= f) := by
  intro c v c₁ run
  obtain ⟨a, mid, ran, run⟩ := bind_ok run
  rw [rest a mid v c₁ run]
  exact first c a mid ran

theorem keeps_pure (v : α) : Keeps (pure v) := by
  intro c v c₁ run
  cases run
  rfl

theorem keeps_markFrom_bind {h t : Token} {f : Mark → Reader α} (rest : ∀ m, Keeps (f m)) :
    Keeps (markFrom h t >>= f) := by
  intro c v c₁ run
  obtain ⟨m, mid, marked, run⟩ := bind_ok run
  cases marked
  exact rest _ _ v c₁ run

theorem closes_mark (first : ClosesWith P x) {h t : Token} {f : α → Mark → β} :
    ClosesWith P (x >>= fun v => markFrom h t >>= fun m => pure (f v m)) :=
  closes_last_bind first fun _ => keeps_markFrom_bind fun _ => keeps_pure _

theorem next_last {c c₁ : Cursor} {t : Token} (run : next c = .ok (t, c₁)) : c₁.last = c.head := by
  obtain ⟨last, ahead⟩ := c
  match ahead with
  | [] => cases run; rfl
  | [u] => cases run; rfl
  | u :: v :: rest => cases run; rfl

theorem closes_expect (holds : P k) : ClosesWith P (expect k) := by
  intro c v c₁ run
  obtain ⟨_, _, looked, run⟩ := bind_ok run
  cases looked
  split at run
  · next same =>
    rw [next_last run, show c.head.kind = k from beq_iff_eq.1 same]
    exact holds
  · cases run

/-- A token of such a kind, at which a reader has come to rest, is taken. -/
theorem closes_next (holds : P k) (stops : ∀ c v c₁, x c = .ok (v, c₁) → c₁.head.kind = k)
    (rest : ∀ v, Keeps (f v)) : ClosesWith P (x >>= fun v => next >>= fun _ => f v) := by
  intro c v c₁ run
  obtain ⟨a, mid, ran, run⟩ := bind_ok run
  obtain ⟨t, mid', taken, run⟩ := bind_ok run
  rw [rest a mid' v c₁ run, next_last taken, stops c a mid ran]
  exact holds

/-- What closes is followed by more, if a token of a kind comes next. -/
theorem closes_accept_bind {f : α → Bool → Reader β} (first : ClosesWith P x) (yes : ∀ v, ClosesWith P (f v true))
    (no : ∀ v, Keeps (f v false)) : ClosesWith P (x >>= fun v => accept k >>= f v) := by
  intro c v c₁ run
  obtain ⟨a, mid, ran, run⟩ := bind_ok run
  obtain ⟨taken, mid', accepted, run⟩ := bind_ok run
  obtain ⟨_, _, looked, accepted⟩ := bind_ok accepted
  cases looked
  split at accepted
  · obtain ⟨_, _, -, accepted⟩ := bind_ok accepted
    cases accepted
    exact yes a mid' v c₁ run
  · cases accepted
    rw [no a mid v c₁ run]
    exact first c a mid ran

theorem closes_block : Closes (g.block depth) := by
  refine closes_bind fun start => closes_mark (closes_bind fun s => ?_)
  exact closes_next rfl (fun _ _ _ => untilRest_stops) fun _ => keeps_pure _

theorem closes_members {owner : String} : Closes (g.members depth owner) := by
  refine closes_bind fun _ => closes_bind fun s => ?_
  exact closes_next rfl (fun _ _ _ => membersUpTo_stops depth) fun _ => keeps_pure _

theorem closes_classDeclaration {start head : Token} {as : List Annotation} {isOpen : Bool} :
    Closes (g.classDeclaration depth start head as isOpen) := by
  refine closes_bind fun name => closes_bind fun typeParams => closes_bind fun hasParent => ?_
  have body (parent : Option TypeExpr) (interfaces : List TypeExpr) : Closes (do
      let members ← g.members depth name.text
      return (⟨← markFrom head start, as, .ofClass isOpen parent interfaces, name, typeParams, members.1,
        members.2⟩ : Declaration)) := closes_mark closes_members
  have rest (parent : Option TypeExpr) : Closes (do
      let interfaces ← if ← accept (.keyword .implementsWord) then g.types depth else pure []
      let members ← g.members depth name.text
      return (⟨← markFrom head start, as, .ofClass isOpen parent interfaces, name, typeParams, members.1,
        members.2⟩ : Declaration)) := by
    refine closes_bind fun implements => ?_
    split
    · exact closes_bind (body parent)
    · exact body parent []
  split
  · exact closes_bind fun t => rest (some t)
  · exact rest none

theorem keeps_interface {start head : Token} {as : List Annotation} {name : Name} {typeParams : List Name}
    {parents : List TypeExpr} {fields : List Field} {methods : List Method} {c : Option Method} :
    Keeps (match c with
      | some m => failAt (.interfaceConstructor name.text) m.mark.head
      | none => do
        return (⟨← markFrom head start, as, .ofInterface parents, name, typeParams, fields, methods⟩ : Declaration)) := by
  cases c with
  | some m => exact fun _ _ _ run => by cases run
  | none => exact keeps_markFrom_bind fun _ => keeps_pure _

theorem closes_interfaceDeclaration {start head : Token} {as : List Annotation} :
    Closes (g.interfaceDeclaration depth start head as) := by
  refine closes_bind fun name => closes_bind fun typeParams => closes_bind fun hasParents => ?_
  split
  · exact closes_bind fun parents => closes_last_bind closes_members fun members => keeps_interface
  · exact closes_bind fun parents => closes_last_bind closes_members fun members => keeps_interface

theorem closes_declaration : Closes (g.declaration depth) := by
  refine closes_bind fun start => closes_bind fun as => closes_bind fun t => ?_
  split
  · exact closes_bind fun _ => closes_bind fun head => closes_classDeclaration
  · exact closes_bind fun head => closes_classDeclaration
  · exact closes_bind fun head => closes_interfaceDeclaration
  · exact fun _ _ _ run => by cases run

/-- A statement ends with a semicolon or a brace. -/
theorem closes_statementStep (nested : ∀ depth, Closes (g.statement depth)) : Closes (g.statementStep depth) := by
  have declares : Closes (do return Stmt.declares (← g.declaration depth)) :=
    closes_last_bind closes_declaration fun _ => keeps_pure _
  have semicolon {f : Mark → Stmt} {h t : Token} : Closes (do
      let _ ← expect (.symbol .semicolon)
      return f (← markFrom h t)) := closes_mark (closes_expect (P := fun k => k.isEnd = true) rfl)
  refine closes_bind fun t => ?_
  split
  · exact closes_bind fun start => closes_bind fun names => closes_bind fun path => semicolon
  · exact declares
  · exact declares
  · exact declares
  · exact declares
  · exact closes_bind fun start => closes_bind fun name => closes_bind fun type => closes_bind fun value => semicolon
  · refine closes_bind fun start => closes_bind fun none => ?_
    split
    · exact semicolon
    · exact closes_bind fun value => semicolon
  · refine closes_bind fun start => closes_bind fun condition => ?_
    have rest (yes : Block) (no : Option Stmt) :
        Keeps (markFrom start start >>= fun m => pure (Stmt.branch m condition yes no)) :=
      keeps_markFrom_bind fun _ => keeps_pure _
    refine closes_accept_bind closes_block (fun yes => closes_bind fun isIf => ?_) fun yes => rest yes none
    split
    · exact closes_last_bind (nested depth) fun no => rest yes (some no)
    · exact closes_last_bind closes_block fun no => rest yes (some (.block no))
  · refine closes_bind fun start => closes_bind fun subject => closes_bind fun _ => closes_bind fun s => ?_
    exact closes_next rfl (fun _ _ _ => armsUpTo_stops depth) fun _ => keeps_markFrom_bind fun _ => keeps_pure _
  · refine closes_bind fun start => closes_bind fun _ => closes_bind fun item => closes_bind fun _ => closes_bind fun iterable => ?_
    exact closes_bind fun _ => closes_mark closes_block
  · exact closes_last_bind closes_block fun _ => keeps_pure _
  · exact closes_bind fun start => closes_bind fun e => semicolon

theorem closes_statement (fuel : Nat) : Closes ((within fuel).statement depth) := by
  induction fuel generalizing depth with
  | zero =>
    rw [within_zero]
    exact fun _ _ _ run => by cases run
  | succ fuel ih =>
    rw [within_succ]
    exact closes_statementStep fun _ => ih

end Ending

/-! ## Expressions elsewhere -/

theorem startsExpr_of_operand {g : Grammar} {depth : Nat} {c c₁ : Cursor} {e : Expr}
    (run : g.operand depth c = .ok (e, c₁)) : startsExpr c.head.kind = true := by
  obtain ⟨_, _, looked, run⟩ := bind_ok run
  cases looked
  rw [show (c.ahead.headD c.last) = c.head from rfl] at run
  generalize c.head.kind = k at run ⊢
  split at run <;> first
    | rfl
    | cases run

/-- A statement that starts as an expression does is one. -/
theorem statementStep_doing {g : Grammar} {depth : Nat} {c : Cursor} (starts : startsExpr c.head.kind = true) :
    g.statementStep depth c = g.doing depth c := by
  rw [statementStep, bind_of_ok (show peek c = .ok (c.head, c) from rfl)]
  generalize c.head.kind = k at starts ⊢
  split <;> first
    | rfl
    | cases starts

/-- An expression whose tokens are read again as one wherever they stand, in front of a semicolon. -/
structure Recurring (tokens : List Token) (e : Expr) (first : Token) (rest : List Token) : Prop where
  found : ∃ before after, after ≠ [] ∧ tokens = before ++ (first :: rest ++ after)
  starts : startsExpr first.kind = true
  covers : e.span = first.span.cover (rest.getLastD first).span
  again (r : Relocation) (n : Nat) : (first :: rest).length ≤ n → (∀ t ∈ first :: rest, r.region t) →
    ∀ last u more, u.kind = .symbol .semicolon →
      (within n).expression 0 0 ⟨last, (first :: rest).map r.token ++ u :: more⟩ =
        .ok (e.moved r.place, ⟨((first :: rest).map r.token).getLastD last, u :: more⟩)

/-- An expression that recurs, unless it is the word for the superclass alone. -/
def Recurs (tokens : List Token) (e : Expr) : Prop :=
  e.isParent = false → ∃ first rest, Recurring tokens e first rest

variable {tokens : List Token} {length : Nat}

/-- If nothing is taken behind an operand, it is the whole expression. -/
theorem grows_still (row : Token.Row tokens length) {g g' : Grammar} {r : Relocation} {n : Nat}
    (echo : Echo tokens r (fun _ => True) n g g') {depth precedence : Nat}
    {start : Token} {left e : Expr} {c c₁ : Cursor} (on : c.On tokens)
    (grows : Grows g depth precedence start left c e c₁) (still : c₁ = c) : e = left := by
  cases grows with
  | still => rfl
  | @step e₀ e c₀ c₁ kind grows isInfix tight stepped =>
    subst still
    obtain ⟨used, ahead, -, on₀, -⟩ :=
      grows_again (a := 0) row echo (Nat.zero_le depth) (Nat.le_refl _) on grows
    obtain ⟨-, used', ahead', -, -, some, -⟩ := echoesAt_infixStep (a := 0) row echo (Nat.zero_le depth)
      (fun _ _ => trivial) isInfix c₀ e c₁ on₀ (head?_ahead on₀) stepped
    have positive := List.length_pos_iff.2 (some rfl)
    have lengths := congrArg List.length ahead
    rw [ahead', List.length_append, List.length_append] at lengths
    omega

/-- Every expression that the grammar reads recurs. -/
theorem reared_recurs (row : Token.Row tokens length) (plain : ∀ t ∈ tokens, t.kind ≠ .keyword .vdomWord) (fuel : Nat) :
    Reared tokens (within fuel) (Recurs tokens) := by
  intro depth precedence c c₁ c₂ left e on run grows covers noParent
  have echo (r : Relocation) (n : Nat) : Echo tokens r (fun _ => True) n (within fuel) (within n) :=
    within_echo row plain (fun _ _ _ _ _ _ _ _ _ _ _ _ => trivial) fuel n
  have again (r : Relocation) (n : Nat) := expressionStep_again (a := 0) row (echo r n) (Nat.zero_le depth)
    (Nat.zero_le precedence) (by decide) on (plain _ on.head_mem) run grows
  obtain ⟨used, ahead, last, on₂, some, -⟩ := again (.toOrigin .start) 0
  obtain ⟨first, rest, rfl⟩ := List.exists_cons_of_ne_nil some
  have head : c.head = first := head_eq ahead
  have starts := startsExpr_of_operand run
  refine ⟨first, rest, ?_, head ▸ starts, ?_, fun r n few inRegion last' u more kind => ?_⟩
  · obtain ⟨before, rfl⟩ := on.suffix
    exact ⟨before, c₂.ahead, on₂.ahead, by rw [← ahead]⟩
  · rw [covers, last, head, List.getLastD_cons]
  · cases n with
    | zero => cases few
    | succ n =>
      rw [within_succ]
      obtain ⟨used', ahead', -, -, -, again⟩ := again r n
      obtain rfl : used' = first :: rest := List.append_cancel_right (ahead'.symm.trans ahead)
      refine (again few inRegion).2 last' u more (.inr kind) (fun same isSuper => ?_) (by rw [kind]; nofun)
      have isLeft : e = left := by
        obtain ⟨-, -, -, -, onMid, -⟩ :=
          echoesAt_operand (a := 0) row (echo (.toOrigin .start) 0) (Nat.zero_le _) (plain _ on.head_mem) c left c₁ on
            (head?_ahead on) run
        exact grows_still row (echo (.toOrigin .start) 0) onMid grows same
      rw [isLeft, (operand_of_super row _ _ on isSuper run).1] at noParent
      cases noParent

/-- The statements of a program end in front of the end of the input, and so do their expressions. -/
theorem statementsUpTo_goods {g g' : Grammar} {r : Relocation} {good : Expr → Prop} {n : Nat}
    (echo : Echo tokens r good n g g') (closes : ∀ depth, Closes (g.statement depth)) {fuel : Nat} {c c₁ : Cursor}
    {ss : List Stmt} (on : c.On tokens) (run : g.statementsUpTo fuel c = .ok (ss, c₁)) :
    (∀ e ∈ Stmt.walkAll ss, good e) ∧ c₁.On tokens ∧ c₁.head.kind = .endOfInput ∧ ∃ used,
      c.ahead = used ++ c₁.ahead ∧ ∀ last, used.getLast? = some last → last.kind.isEnd = true := by
  induction fuel generalizing c ss with
  | zero => cases run
  | succ fuel ih =>
    obtain ⟨_, _, looked, run⟩ := bind_ok run
    cases looked
    split at run
    · next atEnd =>
      cases run
      exact ⟨nofun, on, beq_iff_eq.1 atEnd, [], rfl, nofun⟩
    · obtain ⟨s, mid, read, run⟩ := bind_ok run
      obtain ⟨more, _, read', run⟩ := bind_ok run
      cases run
      obtain ⟨goods, used, ahead, last, onMid, some, -⟩ := echo.statement (Nat.zero_le 0) 0 c s mid on trivial read
      obtain ⟨goods', on₁, atEnd, used', ahead', ends⟩ := ih onMid read'
      refine ⟨List.forall_mem_append.2 ⟨goods, goods'⟩, on₁, atEnd, used ++ used', ?_, fun t isLast => ?_⟩
      · rw [ahead, ahead', List.append_assoc]
      · rw [List.getLast?_append] at isLast
        cases found : used'.getLast? with
        | some u =>
          rw [found] at isLast
          cases isLast
          exact ends _ found
        | none =>
          rw [found] at isLast
          have closed := closes 0 c s mid read
          rw [last, List.getLastD_eq_getLast?, show used.getLast? = _ from isLast] at closed
          exact closed

section Alone

variable {e : Expr} {first semicolon eof : Token} {rest : List Token} {n : Nat} (starts : startsExpr first.kind = true)
  (isSemicolon : semicolon.kind = .symbol .semicolon) (isEnd : eof.kind = .endOfInput)
  (read : ∀ last, (within n).expression 0 0 ⟨last, first :: rest ++ [semicolon, eof]⟩ =
    .ok (e, ⟨(first :: rest).getLastD last, [semicolon, eof]⟩))
include starts isSemicolon read

/-- An expression in front of a semicolon is a statement. -/
theorem statement_of_expression (last : Token) : ∃ m, (within (n + 1)).statement 0
    ⟨last, first :: rest ++ [semicolon, eof]⟩ = .ok (.does m e, ⟨semicolon, [eof]⟩) := by
  rw [within_succ]
  dsimp only
  rw [statementStep_doing (c := ⟨last, first :: rest ++ [semicolon, eof]⟩) starts, doing, bind_of_ok (show peek _ = .ok (first, _) from rfl), bind_of_ok (read last)]
  have taken (last : Token) : expect (.symbol .semicolon) ⟨last, [semicolon, eof]⟩ =
      .ok (semicolon, ⟨semicolon, [eof]⟩) := by
    rw [expect, bind_of_ok (show peek _ = .ok (semicolon, _) from rfl), if_pos (beq_iff_eq.2 isSemicolon)]
    rfl
  rw [bind_of_ok (taken _)]
  exact ⟨_, rfl⟩

include isEnd

/-- An expression in front of a semicolon and the end of the input is a program. -/
theorem program_of_expression (file : String) (last : Token) :
    ∃ q c m, (within (n + 1)).program file ⟨last, first :: rest ++ [semicolon, eof]⟩ = .ok (q, c) ∧
      q.statements = [.does m e] := by
  obtain ⟨m, statement⟩ := statement_of_expression starts isSemicolon read last
  have inside : ¬ (first.kind == .endOfInput) = true := by
    intro same
    rw [beq_iff_eq.1 same] at starts
    cases starts
  have statements (fuel : Nat) : (within (n + 1)).statementsUpTo (fuel + 2) ⟨last, first :: rest ++ [semicolon, eof]⟩ =
      .ok ([.does m e], ⟨semicolon, [eof]⟩) := by
    rw [statementsUpTo, bind_of_ok (show peekIs .endOfInput _ = .ok (first.kind == .endOfInput, _) from rfl), if_neg inside,
      bind_of_ok statement, statementsUpTo]
    have ended : (peekIs .endOfInput >>= fun atEnd => if atEnd = true then pure [] else do
        let s ← (within (n + 1)).statement 0
        let more ← (within (n + 1)).statementsUpTo fuel
        return s :: more) ⟨semicolon, [eof]⟩ = .ok ([], ⟨semicolon, [eof]⟩) := by
      rw [bind_of_ok (show peekIs .endOfInput _ = .ok (eof.kind == .endOfInput, _) from rfl),
        if_pos (beq_iff_eq.2 isEnd)]
      rfl
    rw [bind_of_ok ended]
    rfl
  rw [program, bind_of_ok (show peek _ = .ok (first, _) from rfl),
    bind_of_ok (show (get : Reader Cursor) _ = .ok (_, _) from rfl)]
  have length : (first :: rest ++ [semicolon, eof]).length + 1 = rest.length + 2 + 2 := by simp
  rw [length, bind_of_ok (statements _)]
  exact ⟨_, _, m, rfl, rfl⟩

end Alone

end Grammar

/-! ## Tokens of an excerpt -/

/-- What is left of a list in a row lies between two of its members. -/
theorem exists_stretch {α : Type} {p : α → Bool} {l before rest after : List α} {first : α}
    (kept : l.filter p = before ++ (first :: rest ++ after)) :
    ∃ before' mid more, l = before' ++ (mid ++ rest.getLastD first :: more) ∧
      (mid ++ [rest.getLastD first]).filter p = first :: rest ∧ (mid ++ [rest.getLastD first]).head? = some first ∧
        more.filter p = after := by
  obtain ⟨b, l', rfl, -, kept⟩ := List.filter_eq_append_iff.1 kept
  obtain ⟨u, a, rfl, kept, kept'⟩ := List.filter_eq_append_iff.1 kept
  obtain ⟨b', v, rfl, -, isFirst, kept⟩ := List.filter_eq_cons_iff.1 kept
  rcases List.eq_nil_or_concat rest with rfl | ⟨rest, last, rfl⟩
  · refine ⟨b ++ b', [], v ++ a, by simp, ?_, rfl, ?_⟩
    · rw [List.nil_append, List.getLastD_nil, List.filter_cons_of_pos isFirst, List.filter_nil]
    · rw [List.filter_append, kept, kept', List.nil_append]
  · rw [List.concat_eq_append] at kept ⊢
    obtain ⟨v₁, v₂, rfl, front, isLast⟩ := List.filter_eq_append_iff.1 kept
    obtain ⟨w₁, w₂, rfl, dropped, isLast, kept''⟩ := List.filter_eq_cons_iff.1 isLast
    have gone : w₁.filter p = [] := List.filter_eq_nil_iff.2 dropped
    rw [List.getLastD_concat]
    refine ⟨b ++ b', first :: (v₁ ++ w₁), w₂ ++ a, by simp, ?_, rfl, ?_⟩
    · rw [List.cons_append, List.filter_cons_of_pos isFirst, List.filter_append, List.filter_append, front, gone,
        List.append_nil, List.filter_cons_of_pos isLast, List.filter_nil]
    · rw [List.filter_append, kept'', kept', List.nil_append]

/-- The significant tokens of a text are all but its comments. -/
theorem Token.significant_eq_filter {source : Text} {tokens : List Token} (scanned : source.tokens = .ok tokens) :
    Token.significant tokens = tokens.filter fun t => t.kind != .comment := by
  obtain ⟨-, -, before, last, rfl, isEnd, -⟩ :=
    (Lexer.scanned_of_scan scanned).stands (show 0 < Position.start.line by decide)
  rw [significant_concat isEnd, List.filter_append, List.filter_cons_of_pos (by rw [isEnd]; rfl), List.filter_nil]

namespace Grammar

open Reader

variable {tokens : List Token} {length : Nat} {e : Expr} {first : Token} {rest : List Token}

/-- No token of an expression is the end of the input. -/
theorem Recurring.inside (recurring : Recurring tokens e first rest) (row : Token.Row tokens length) :
    ∀ t ∈ first :: rest, t.kind ≠ .endOfInput := by
  intro t found
  obtain ⟨before, after, some, rfl⟩ := recurring.found
  refine row.inner t ?_
  rw [List.dropLast_append_of_ne_nil (by simp), List.dropLast_append_of_ne_nil some]
  exact List.mem_append_right _ (List.mem_append_left _ found)

/-- The first token of an expression comes before the others. -/
theorem Recurring.ordered (recurring : Recurring tokens e first rest) (row : Token.Row tokens length) {t : Token}
    (found : t ∈ first :: rest) : first.span.start ≤ t.span.start ∧ first.span.stop ≤ t.span.stop := by
  obtain ⟨before, after, -, rfl⟩ := recurring.found
  have inside {t : Token} (found : t ∈ first :: rest) : t ∈ before ++ (first :: rest ++ after) :=
    List.mem_append_right _ (List.mem_append_left _ found)
  rcases List.mem_cons.1 found with rfl | behind
  · exact ⟨Nat.le_refl _, Nat.le_refl _⟩
  · have forward := row.forward _ (inside List.mem_cons_self)
    have forward' := row.forward _ (inside found)
    have pairs := (List.pairwise_append.1 (List.pairwise_append.1 row.ordered).2.1).1
    have before := (List.pairwise_cons.1 pairs).1 t behind
    exact ⟨by omega, by omega⟩

/-- An expression covers its tokens. -/
theorem Recurring.span_eq (recurring : Recurring tokens e first rest) (row : Token.Row tokens length) :
    e.span = ⟨first.span.start, (rest.getLastD first).span.stop, first.span.line, first.span.column⟩ := by
  have within : rest.getLastD first ∈ first :: rest := by
    have found := getLastD_mem (List.cons_ne_nil first rest) first
    rwa [List.getLastD_cons] at found
  obtain ⟨start, stop⟩ := recurring.ordered row within
  have lined {t : Token} (found : t ∈ first :: rest) : t.span.isNone = false := by
    obtain ⟨before, after, -, rfl⟩ := recurring.found
    have positive := row.lined t (List.mem_append_right _ (List.mem_append_left _ found))
    have noZero : (t.span.line == 0) = false := by
      rw [beq_eq_false_iff_ne]
      omega
    rw [Span.isNone, noZero]
    rfl
  rw [recurring.covers, Span.cover, lined List.mem_cons_self, lined within, if_neg Bool.false_ne_true,
    if_neg Bool.false_ne_true, if_neg (Nat.not_lt.2 start), Nat.max_eq_right stop]

/-- Behind a string, the text goes on, since a program does not end with a string. -/
theorem goes_on (row : Token.Row tokens length) {used before after : List Token} {eof : Token}
    (whole : tokens = used ++ [eof]) (closed : ∀ last, used.getLast? = some last → last.kind.isEnd = true)
    (split : tokens = before ++ (first :: rest ++ after)) (some : after ≠ [])
    (string : (rest.getLastD first).kind = .string) : ∃ u ∈ after, u.kind ≠ .endOfInput := by
  obtain ⟨after, last, rfl⟩ : ∃ after' last, after = after' ++ [last] :=
    ⟨_, _, (List.dropLast_concat_getLast some).symm⟩
  have used_eq : used = before ++ (first :: rest ++ after) := by
    have same : used ++ [eof] = before ++ (first :: rest ++ after) ++ [last] := by
      rw [← whole, split, List.append_assoc, List.append_assoc]
    exact (List.append_inj' same rfl).1
  cases after with
  | nil =>
    have isLast : used.getLast? = .some (rest.getLastD first) := by
      rw [used_eq, List.append_nil, List.getLast?_append, List.getLast?_cons, ← List.getLastD_eq_getLast?]
      rfl
    have ends := closed _ isLast
    rw [string] at ends
    cases ends
  | cons u us =>
    refine ⟨u, by simp, row.inner u ?_⟩
    rw [whole, List.dropLast_concat, used_eq]
    simp

/-- At the end of the input, nothing else is ahead. -/
theorem ahead_end (row : Token.Row tokens length) {c : Cursor} (on : c.On tokens) (atEnd : c.head.kind = .endOfInput) :
    c.ahead = [c.head] := by
  obtain ⟨before, whole⟩ := on.suffix
  obtain ⟨eof, behind, isAhead⟩ := List.exists_cons_of_ne_nil on.ahead
  have head := head_eq isAhead
  cases behind with
  | nil => rw [isAhead, head]
  | cons u us =>
    refine absurd (head ▸ atEnd) (row.inner eof ?_)
    rw [← whole, isAhead, List.dropLast_append_of_ne_nil (List.cons_ne_nil _ _), List.dropLast_cons_of_ne_nil (List.cons_ne_nil _ _)]
    exact List.mem_append_right _ List.mem_cons_self

/-- A program is the statements up to the end of the input. -/
theorem program_statements {g : Grammar} {file : String} {c c₁ : Cursor} {p : Program}
    (run : g.program file c = .ok (p, c₁)) : ∃ c₂, g.statementsUpTo (c.ahead.length + 1) c = .ok (p.statements, c₂) := by
  obtain ⟨start, _, looked, run⟩ := bind_ok run
  cases looked
  obtain ⟨_, _, got, run⟩ := bind_ok run
  cases got
  obtain ⟨ss, c₂, read, run⟩ := bind_ok run
  have same : p.statements = ss := by
    dsimp only at run
    split at run
    · cases run
      rfl
    · obtain ⟨span, _, spanned, run⟩ := bind_ok run
      cases run
      rfl
  exact ⟨c₂, same ▸ read⟩

/-- The expressions of a program recur, and its last token ends a statement. -/
theorem program_recurs (row : Token.Row tokens length) (plain : ∀ t ∈ tokens, t.kind ≠ .keyword .vdomWord) {fuel : Nat}
    {file : String} {last : Token} {c : Cursor} {p : Program} (some : tokens ≠ [])
    (run : (within fuel).program file ⟨last, tokens⟩ = .ok (p, c)) :
    (∀ e ∈ Stmt.walkAll p.statements, Recurs tokens e) ∧
      ∃ (used : List Token) (eof : Token), tokens = used ++ [eof] ∧
        ∀ last, used.getLast? = .some last → last.kind.isEnd = true := by
  obtain ⟨c₁, read⟩ := program_statements run
  obtain ⟨goods, on₁, atEnd, used, ahead, closed⟩ := statementsUpTo_goods
    (within_echo (r := .toOrigin .start) row plain (reared_recurs row plain) fuel 0) (fun _ => closes_statement fuel)
    ⟨some, List.suffix_refl _⟩ read
  rw [ahead_end row on₁ atEnd] at ahead
  exact ⟨goods, used, c₁.head, ahead, closed⟩

/-- The excerpt of an expression, with a semicolon behind it, has the tokens of the expression. -/
theorem Recurring.excerpt {source : Bytes} {all : List Token} (scanned : source.text.tokens = .ok all)
    (row : Token.Row tokens length) (significant : tokens = all.filter fun t => t.kind != .comment)
    (recurring : Recurring tokens e first rest) {used : List Token} {eof : Token}
    (whole : tokens = used ++ [eof]) (closed : ∀ last, used.getLast? = some last → last.kind.isEnd = true) :
    ∃ (ts : List Token) (semicolon eof' : Token), (e.span.excerpt source ++ Bytes.ofString ";").text.tokens = .ok ts ∧
      semicolon.kind = .symbol .semicolon ∧ eof'.kind = .endOfInput ∧ Token.significant ts =
        (first :: rest).map (Token.moved (Span.relative first.span.origin)) ++ [semicolon, eof'] := by
  obtain ⟨before, after, some, split⟩ := recurring.found
  obtain ⟨before', mid, more, rfl, kept, isFirst, kept'⟩ := exists_stretch (significant.symm.trans split)
  have inside := recurring.inside row
  have within : rest.getLastD first ∈ first :: rest := by
    have found := getLastD_mem (List.cons_ne_nil first rest) first
    rwa [List.getLastD_cons] at found
  have visible : (rest.getLastD first).kind ≠ .comment := by
    rw [← kept] at within
    simpa using (List.mem_filter.1 within).2
  have span := recurring.span_eq row
  have ends (string : (rest.getLastD first).kind = .string) : ∃ u ∈ more, u.kind ≠ .endOfInput := by
    obtain ⟨u, found, filled⟩ := goes_on row whole closed split some string
    rw [← kept'] at found
    exact ⟨u, (List.mem_filter.1 found).1, filled⟩
  obtain ⟨semicolon, eof', isSemicolon, isEnd, scanned'⟩ := Text.tokens_excerpt e.span scanned isFirst
    (inside _ List.mem_cons_self) (inside _ within) visible ends (by rw [span]) (by rw [span])
  refine ⟨_, semicolon, eof', scanned', isSemicolon, isEnd, ?_⟩
  have same : (fun t : Token => t.kind != .comment) ∘ Token.moved (Span.relative first.span.origin) =
      fun t => t.kind != .comment := rfl
  rw [Token.significant_eq_filter scanned', List.filter_append, List.filter_map, same, kept,
    List.filter_eq_self.2 (by simp [isSemicolon, isEnd])]

/-- The tokens of an expression stand behind the first of them. -/
theorem Recurring.region (recurring : Recurring tokens e first rest) (row : Token.Row tokens length)
    (lines : tokens.Pairwise fun t u => t.span.line ≤ u.span.line) :
    ∀ t ∈ first :: rest, (Relocation.toOrigin first.span.origin).region t := by
  intro t found
  refine ⟨(recurring.ordered row found).1, ?_, ?_⟩
  · obtain ⟨before, after, -, rfl⟩ := recurring.found
    rcases List.mem_cons.1 found with rfl | behind
    · exact Nat.le_refl _
    · exact (List.pairwise_cons.1 (List.pairwise_append.1 (List.pairwise_append.1 lines).2.1).1).1 t behind
  · obtain ⟨before, after, -, rfl⟩ := recurring.found
    exact row.lined t (List.mem_append_right _ (List.mem_append_left _ found))

/-- The tokens of an expression, in front of a semicolon, are a program. -/
theorem Recurring.program (recurring : Recurring tokens e first rest) {r : Relocation}
    (inRegion : ∀ t ∈ first :: rest, r.region t) {semicolon eof : Token} (isSemicolon : semicolon.kind = .symbol .semicolon)
    (isEnd : eof.kind = .endOfInput) {file : String} {ts : List Token}
    (tokens : Token.significant ts = (first :: rest).map r.token ++ [semicolon, eof]) :
    ∃ q m, Program.ofTokens file ts = .ok q ∧ q.statements = [.does m (e.moved r.place)] := by
  have few : (first :: rest).length ≤ 4 * (Token.significant ts).length + 7 := by
    rw [tokens, List.length_append, List.length_map]
    omega
  have again (last : Token) : (within _).expression 0 0 ⟨last, r.token first :: rest.map r.token ++ [semicolon, eof]⟩ =
      .ok (e.moved r.place, ⟨(r.token first :: rest.map r.token).getLastD last, [semicolon, eof]⟩) :=
    recurring.again r _ few inRegion last semicolon [eof] isSemicolon
  obtain ⟨q, c, m, run, statements⟩ := program_of_expression
    (show startsExpr (r.token first).kind = true from recurring.starts) isSemicolon isEnd again file
    ((Token.significant ts).headD default)
  refine ⟨q, m, ?_, statements⟩
  have run : ((sized (Token.significant ts).length).program file).run ⟨(Token.significant ts).headD default,
      Token.significant ts⟩ = .ok (q, c) := by
    rw [tokens] at run ⊢
    exact run
  unfold Program.ofTokens
  dsimp only
  rw [run]

end Grammar

/-- A text without the word that introduces markup. -/
def Text.NoMarkup (source : Text) : Prop := ∀ tokens, source.tokens = .ok tokens → ∀ t ∈ tokens, t.kind ≠ .keyword .vdomWord

/-- The source text of an expression, with a semicolon behind it, is a program of one statement, and that is the
expression, seen from where it starts. -/
theorem Program.expression_is_its_source {file file' : String} {source : Bytes} {p : Program} {e : Expr}
    (read : Program.ofSource file source.text = .ok p) (plain : source.text.NoMarkup) (found : e ∈ Stmt.walkAll p.statements)
    (noSuper : e.isParent = false) :
    ∃ q m, Program.ofSource file' (e.span.excerpt source ++ Bytes.ofString ";").text = .ok q ∧
      q.statements = [.does m (e.moved (Span.relative e.span.origin))] := by
  unfold Program.ofSource Token.ofSource at read
  cases scanned : source.text.tokens with
  | error fault =>
    rw [scanned] at read
    cases read
  | ok all =>
    rw [scanned] at read
    have read : Program.ofTokens file all = .ok p := read
    unfold Program.ofTokens at read
    dsimp only at read
    split at read
    · cases read
    · next program c₁ run =>
      cases read
      have row := Token.row_of_tokens scanned
      have significant := Token.significant_eq_filter scanned
      have plain : ∀ t ∈ Token.significant all, t.kind ≠ .keyword .vdomWord := by
        intro t found
        rw [significant] at found
        exact plain all scanned t (List.mem_filter.1 found).1
      obtain ⟨recurs, used, eof, whole, closed⟩ :=
        Grammar.program_recurs row plain (Token.significant_ne_nil all) run
      obtain ⟨first, rest, recurring⟩ := recurs e found noSuper
      obtain ⟨ts, semicolon, eof', scanned', isSemicolon, isEnd, tokens⟩ :=
        recurring.excerpt scanned row significant whole closed
      have lines : (Token.significant all).Pairwise fun t u => t.span.line ≤ u.span.line := by
        rw [significant]
        exact (Lexer.scanned_of_scan scanned).lines.2.sublist List.filter_sublist
      have origin : e.span.origin = first.span.origin := by
        rw [Span.origin, recurring.span_eq row]
        rfl
      rw [Program.ofSource, Token.ofSource, scanned', origin]
      exact recurring.program (recurring.region row lines) isSemicolon isEnd tokens

/-- An operand in parentheses, a comment, a call, and a lambda with a block. -/
def twiceSource : Bytes := Bytes.ofString "let a = (1 + n) * 2; // twice\nf(a, (x) -> \x7b return -x; \x7d);"

theorem twiceSource_sum_is_its_source : ∃ p e, Program.ofSource "twice" twiceSource.text = .ok p ∧
    e ∈ Stmt.walkAll p.statements ∧ e.span.excerpt twiceSource = Bytes.ofString "1 + n" ∧
      ∃ q m, Program.ofSource "sum" (e.span.excerpt twiceSource ++ Bytes.ofString ";").text = .ok q ∧
        q.statements = [.does m (e.moved (Span.relative e.span.origin))] := by
  have readable : ((Program.ofSource "twice" twiceSource.text).toOption.any fun p =>
      (Stmt.walkAll p.statements).any fun e =>
        !e.isParent && e.span.excerpt twiceSource == Bytes.ofString "1 + n") = true := by decide +kernel
  have plain : (twiceSource.text.tokens.toOption.all fun tokens =>
      tokens.all fun t => t.kind != .keyword .vdomWord) = true := by decide +kernel
  have noMarkup : twiceSource.text.NoMarkup := by
    intro tokens scanned t found
    rw [scanned] at plain
    simpa using List.all_eq_true.1 plain t found
  cases read : Program.ofSource "twice" twiceSource.text with
  | error d =>
    rw [read] at readable
    cases readable
  | ok p =>
    rw [read] at readable
    obtain ⟨e, found, holds⟩ := List.any_eq_true.1 readable
    obtain ⟨noSuper, excerpt⟩ := Bool.and_eq_true_iff.1 holds
    exact ⟨p, e, rfl, found, beq_iff_eq.1 excerpt,
      Program.expression_is_its_source read noMarkup found (by simpa using noSuper)⟩

end ClassScript
