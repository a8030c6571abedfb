import ClassScript.Syntax.Walk
import ClassScript.Proofs.Echoes

/-!
# Every construct is read again elsewhere

The readers of a grammar echo those of another that nests at least as deeply (`Grammar.Echo`), construct by construct:
whatever one of them reads, the other reads from the same tokens in another place. On the way every expression that is
read is found to be `good`, if those are that the grammar itself reads.
-/

namespace ClassScript

/-! ## Expressions of a tree -/

/-- A property of the expressions of a list is one of the expressions of its items. -/
theorem forall_walkAll {α : Type} {all : List α → List Expr} {good : Expr → Prop} (nil : all [] = [])
    (cons : ∀ x xs, all (x :: xs) = all [x] ++ all xs) {xs : List α} (each : ∀ x ∈ xs, ∀ e ∈ all [x], good e) :
    ∀ e ∈ all xs, good e := by
  induction xs with
  | nil =>
    rw [nil]
    nofun
  | cons x xs ih =>
    rw [cons, List.forall_mem_append]
    exact ⟨each x List.mem_cons_self, ih fun y found => each y (List.mem_cons_of_mem _ found)⟩

theorem Expr.forall_walkAll {good : Expr → Prop} {es : List Expr} (each : ∀ e ∈ es, ∀ e' ∈ e.walk, good e') :
    ∀ e ∈ Expr.walkAll es, good e :=
  ClassScript.forall_walkAll rfl (fun e es => by simp [Expr.walkAll]) fun e found => by
    simpa [Expr.walkAll] using each e found

theorem Stmt.forall_walkAll {good : Expr → Prop} {ss : List Stmt} (each : ∀ s ∈ ss, ∀ e ∈ s.walk, good e) :
    ∀ e ∈ Stmt.walkAll ss, good e :=
  ClassScript.forall_walkAll rfl (fun s ss => by simp [Stmt.walkAll]) fun s found => by
    simpa [Stmt.walkAll] using each s found

theorem Param.walkAll_cons (p : Param) (ps : List Param) :
    Param.walkAll (p :: ps) = Param.walkAll [p] ++ Param.walkAll ps := by
  obtain ⟨m, name, type, fallback⟩ := p
  cases fallback <;> simp [Param.walkAll]

theorem Arm.walkAll_cons (a : Arm) (as : List Arm) : Arm.walkAll (a :: as) = Arm.walkAll [a] ++ Arm.walkAll as := by
  obtain ⟨m, value, body⟩ := a
  simp [Arm.walkAll]

theorem Field.walkAll_cons (f : Field) (fs : List Field) :
    Field.walkAll (f :: fs) = Field.walkAll [f] ++ Field.walkAll fs := by
  obtain ⟨m, as, mods, name, type, init⟩ := f
  cases init <;> simp [Field.walkAll]

theorem Method.walkAll_cons (m : Method) (ms : List Method) :
    Method.walkAll (m :: ms) = Method.walkAll [m] ++ Method.walkAll ms := by
  obtain ⟨m, as, mods, name, isConstructor, typeParams, params, result, body⟩ := m
  cases body <;> simp [Method.walkAll]

/-- The expressions in the body of a lambda. -/
def LambdaBody.walk : LambdaBody → List Expr
  | .block b => b.walk
  | .value e => e.walk

/-- The parts of an expression. -/
def Expr.parts (e : Expr) : List Expr := e.walk.tail

theorem Expr.walk_eq (e : Expr) : e.walk = e :: e.parts := by
  rw [Expr.parts, Expr.walk.eq_def, List.tail_cons]

namespace Grammar

open Reader

/-! ## What a grammar owes -/

/-- Behind an expression, the end of a statement may come instead of what came. -/
def Calm (k k' : TokenKind) : Prop := k' = k ∨ k' = .symbol .semicolon

/-- Behind a statement, anything may come instead of what came but an alternative. -/
def NoElse (k k' : TokenKind) : Prop := k' = .keyword .elseWord → k = .keyword .elseWord

theorem Calm.refl (k : TokenKind) : Calm k k := .inl rfl

theorem NoElse.refl (k : TokenKind) : NoElse k k := id

/-- The readers of `g'` read again what those of `g` read, as far as that is at most `n` tokens. -/
structure Echo (tokens : List Token) (r : Relocation) (good : Expr → Prop) (n : Nat) (g g' : Grammar) : Prop where
  statement {depth depth' : Nat} : depth' ≤ depth → ∀ a, Echoes tokens r NoElse none true a a n (g.statement depth)
    (g'.statement depth') (Stmt.moved r.place) fun s => ∀ e ∈ s.walk, good e
  expression {depth depth' precedence : Nat} : depth' ≤ depth → precedence < 90 → ∀ a, Echoes tokens r Calm none true a a n
    (g.expression depth precedence) (g'.expression depth' precedence) (Expr.moved r.place) fun e => ∀ e' ∈ e.walk, good e'
  type {depth depth' : Nat} : depth' ≤ depth → ∀ a, Echoes tokens r Eq none true a a n (g.type depth) (g'.type depth')
    (TypeExpr.moved r.place) fun _ => True

variable {tokens : List Token} {length : Nat} {r : Relocation} {good : Expr → Prop} {n a : Nat} {g g' : Grammar}
  {R : TokenKind → TokenKind → Prop} {w : Option Token}

/-! ## Names -/

theorem echoes_name (row : Token.Row tokens length) :
    Echoes tokens r R none true a a n name name (Name.moved r.place) fun _ => True :=
  echoes_expect_bind row (by decide) (turns_other (by decide) a) fun _ _ _ => echoes_pure rfl trivial

theorem echoes_typeParameters (row : Token.Row tokens length) :
    Echoes tokens r Eq none false a a n typeParameters typeParameters (List.map (Name.moved r.place)) fun _ => True := by
  refine echoes_accept_bind row (by decide) (turns_other (by decide) a) (.inr fun _ _ same => same ▸ id) ?_ ?_
  · refine echoes_bind (echoes_commaList row (echoes_name (R := Eq) row) fun _ => rfl) (fun _ => rfl) fun names _ => ?_
    exact echoes_expect_bind row (by decide) (turns_other (by decide) a) fun _ _ _ => echoes_pure rfl trivial
  · exact echoes_pure rfl trivial

theorem echoes_annotationsUpTo (row : Token.Row tokens length) (fuel fuel' : Nat) :
    EchoesWhen tokens r (·.length ≤ fuel) (·.length ≤ fuel') Eq none false a a n (annotationsUpTo fuel)
      (annotationsUpTo fuel') (List.map ( Annotation.moved r.place)) fun _ => True := by
  refine echoes_loop (fun _ : Unit => annotationsUpTo) (fun _ => annotationsUpTo) (fun _ _ => True)
    (fun fuel fuel' ih _ => ?_) fuel fuel' ()
  refine echoesWhen_lookIs_bind fun t t' found => ?_
  split
  · next same =>
    have kind : t.kind = .atName := beq_iff_eq.1 same
    have item : EchoesAt tokens r t Eq none true a a n next next r.token fun u => u = t :=
      echoes_next row (by rw [kind]; decide) (kind ▸ turns_other (by decide) a)
    refine echoes_item_bind (item.mono (fun _ => id) (fun _ => And.right) (fun _ => id) (fun _ _ => id) id (Nat.le_refl n))
      (fun _ => rfl) (fun u _ => ?_) (fun _ => And.left) fun _ => And.left
    exact echoes_last_bind (ih ()) (fun _ => rfl) (fun _ _ => id) nofun fun more _ => echoes_pure rfl trivial
  · exact echoes_pure rfl trivial

theorem echoes_annotations (row : Token.Row tokens length) :
    Echoes tokens r Eq none false a a n annotations annotations (List.map ( Annotation.moved r.place)) fun _ => True :=
  echoes_get_bind fun _ _ => echoes_annotationsUpTo row _ _

section Nested

variable (row : Token.Row tokens length) (echo : Echo tokens r good n g g') {depth depth' : Nat}
  (shallow : depth' ≤ depth)
include row echo shallow

/-! ## Parts that many constructs share -/

theorem echoes_types : Echoes tokens r Eq none true a a n (g.types depth) (g'.types depth')
    (List.map (TypeExpr.moved r.place)) fun _ => True :=
  (echoes_commaList row (echo.type shallow a) fun _ => rfl).mono (fun _ _ => trivial) (fun _ => id) (fun _ => id)
    (fun _ _ => id) id (Nat.le_refl n)

theorem echoes_annotatedType : Echoes tokens r Eq none false a a n (g.typeAnnotation depth) (g'.typeAnnotation depth')
    (Option.map (TypeExpr.moved r.place)) fun _ => True := by
  refine echoes_accept_bind row (by decide) (turns_other (by decide) a) (.inr fun _ _ same => same ▸ id) ?_ ?_
  · exact echoes_last_bind (echo.type shallow a) (fun _ => rfl) (fun _ _ => id) nofun fun _ _ => echoes_pure rfl trivial
  · exact echoes_pure rfl trivial

theorem echoes_initialiser : Echoes tokens r Eq none false a a n (g.initialiser depth) (g'.initialiser depth')
    (Option.map (Expr.moved r.place)) fun value => ∀ e, value = some e → ∀ e' ∈ e.walk, good e' := by
  refine echoes_accept_bind row (by decide) (turns_other (by decide) a) (.inr fun _ _ same => same ▸ id) ?_ ?_
  · refine echoes_last_bind (echo.expression shallow (by decide) a) Calm.refl (fun _ _ same => .inl same.symm) nofun fun e all => ?_
    exact echoes_pure rfl fun e' same => Option.some.inj same ▸ all
  · exact echoes_pure rfl nofun

theorem echoes_block : Echoes tokens r R none true a a (n + 1) (g.block depth) (g'.block depth') (Block.moved r.place)
    fun b => ∀ e ∈ b.walk, good e := by
  refine echoes_open_bind row (by decide) (turns_other (by decide) a) fun start _ _ => ?_
  refine echoes_last_bind (S := fun _ _ => True) (echoes_untilToken row (by decide) (turns_other (by decide) a)
    (echo.statement shallow a) NoElse.refl) (fun _ => trivial) (fun _ _ _ => trivial) nofun fun statements all => ?_
  refine echoes_markFrom_bind fun m => echoes_pure (by rw [Block.moved, Stmt.movedAll_eq]) ?_
  rw [Block.walk]
  exact Stmt.forall_walkAll all

theorem echoes_parameter : Echoes tokens r Eq none true a a (n + 1) (g.parameter depth) (g'.parameter depth')
    (Param.moved r.place) fun p => ∀ e ∈ Param.walkAll [p], good e := by
  refine echoes_open_bind row (by decide) (turns_other (by decide) a) fun start _ _ => ?_
  refine echoes_last_bind (echoes_annotatedType row echo shallow) (fun _ => rfl) (fun _ _ => id) nofun fun type _ => ?_
  refine echoes_last_bind (echoes_initialiser row echo shallow) (fun _ => rfl) (fun _ _ => id) nofun fun value all => ?_
  refine echoes_markFrom_bind fun m => echoes_pure (by rw [Param.moved, Expr.movedOption_eq]; rfl) ?_
  cases value with
  | none => nofun
  | some e => simpa [Param.walkAll] using all e rfl

theorem echoes_parameters : Echoes tokens r R none true (a + 1) a n (g.parameters depth) (g'.parameters depth')
    (Param.movedAll r.place) fun ps => ∀ e ∈ Param.walkAll ps, good e := by
  refine echoes_accept_bind row (by decide) (turns_right a) (.inl rfl) (echoes_pure rfl nofun) ?_
  have param : Echoes tokens r Eq none true (a + 1) (a + 1) n (g.parameter depth) (g'.parameter depth')
      (Param.moved r.place) fun p => ∀ e ∈ Param.walkAll [p], good e := (echoes_parameter row echo shallow).fewer
  refine echoes_bind (echoes_commaList row param fun _ => rfl) (fun _ => rfl) fun ps all => ?_
  refine echoes_expect_bind row (by decide) (turns_right a) fun _ _ _ => echoes_pure (Param.movedAll_eq _ _).symm ?_
  exact forall_walkAll rfl Param.walkAll_cons all

/-! ## Types -/

theorem echoes_functionTypeParams : Echoes tokens r R none true (a + 1) a n (g.functionTypeParams depth)
    (g'.functionTypeParams depth') (TypeExpr.movedAll r.place) fun _ => True := by
  refine echoes_accept_bind row (by decide) (turns_right a) (.inl rfl) (echoes_pure rfl trivial) ?_
  refine echoes_bind (echoes_types row echo shallow) (fun _ => rfl) fun ts _ => ?_
  refine echoes_expect_bind row (by decide) (turns_right a) fun _ _ _ => ?_
  exact echoes_pure (TypeExpr.movedAll_eq _ _).symm trivial

theorem echoesAt_functionType {t : Token} (kind : t.kind = .symbol .leftParen) :
    EchoesAt tokens r t Eq none true a a (n + 1) (g.functionType depth) (g'.functionType depth')
      (TypeExpr.moved r.place) fun _ => True := by
  refine echoesAt_first_bind row (by rw [kind]; decide) (kind ▸ turns_left a) ?_
  refine echoes_bind (echoes_functionTypeParams (R := Eq) row echo shallow) (fun _ => rfl) fun params _ => ?_
  refine echoes_expect_bind row (by decide) (turns_other (by decide) a) fun _ _ _ => ?_
  refine echoes_last_bind (echo.type shallow a) (fun _ => rfl) (fun _ _ => id) nofun fun result _ => ?_
  exact echoes_markFrom_bind fun m => echoes_pure rfl trivial

theorem echoesAt_namedType {t : Token} (kind : t.kind = .identifier) :
    EchoesAt tokens r t Eq none true a a (n + 1) (g.namedType depth) (g'.namedType depth') (TypeExpr.moved r.place)
      fun _ => True := by
  refine echoesAt_first_bind row (by rw [kind]; decide) (by rw [kind]; exact turns_other (by decide) a) ?_
  refine echoes_accept_bind row (by decide) (turns_other (by decide) a) (.inr fun _ _ same => same ▸ id) ?_ ?_
  · refine echoes_bind (echoes_types row echo shallow) (fun _ => rfl) fun args _ => ?_
    refine echoes_expect_bind row (by decide) (turns_other (by decide) a) fun _ _ _ => ?_
    exact echoes_markFrom_bind fun m => echoes_pure (by rw [TypeExpr.moved, TypeExpr.movedAll_eq]; rfl) trivial
  · exact echoes_pure rfl trivial

theorem echoes_typeStep : Echoes tokens r Eq none true a a (n + 1) (g.typeStep depth) (g'.typeStep depth')
    (TypeExpr.moved r.place) fun _ => True := by
  refine echoes_enter_bind shallow (echoes_peek_bind fun start _ => ?_)
  have deeper : depth' + 1 ≤ depth + 1 := Nat.succ_le_succ shallow
  have kind : (r.token start).kind = start.kind := rfl
  have behind (t : TypeExpr) : Echoes tokens r Eq (some start) false a a n (do
      if ← accept (.symbol .question) then return t.asNullable (← spanFrom start) else return t) (do
      if ← accept (.symbol .question) then return (t.moved r.place).asNullable (← spanFrom (r.token start))
      else return t.moved r.place) (TypeExpr.moved r.place) fun _ => True := by
    refine echoes_accept_bind row (by decide) (turns_other (by decide) a) (.inr fun _ _ same => same ▸ id) ?_ ?_
    · exact echoes_spanFrom_bind fun span => echoes_pure (t.asNullable_moved r.place span).symm trivial
    · exact echoes_pure rfl trivial
  dsimp only
  rw [kind]
  split
  · next kind =>
    exact echoesAt_start_bind (echoesAt_functionType row echo deeper kind) (fun _ => rfl) (.inr fun _ _ => id)
      (.inl (Nat.le_refl _)) (Nat.le_refl _) fun t _ => behind t
  · next kind =>
    exact echoesAt_start_bind (echoesAt_namedType row echo deeper kind) (fun _ => rfl) (.inr fun _ _ => id)
      (.inl (Nat.le_refl _)) (Nat.le_refl _) fun t _ => behind t
  · exact echoes_failAt_bind

/-! ## Expressions -/

theorem echoes_expressions {stop : TokenKind} {b : Nat} (inside : stop ≠ .endOfInput) (turns : Turns stop b a) :
    Echoes tokens r R none true b a n (g.expressions depth stop) (g'.expressions depth' stop) (Expr.movedAll r.place)
      fun es => ∀ e ∈ Expr.walkAll es, good e := by
  refine echoes_accept_bind row inside turns (.inl rfl) (echoes_pure rfl nofun) ?_
  refine echoes_bind (echoes_commaList row (echo.expression shallow (by decide) b) Calm.refl) (fun _ => rfl) fun es all => ?_
  refine echoes_expect_bind row inside turns fun _ _ _ => echoes_pure (Expr.movedAll_eq _ _).symm ?_
  exact Expr.forall_walkAll all

theorem echoes_lambdaBody : Echoes tokens r Calm none true a a n (g.lambdaBody depth) (g'.lambdaBody depth')
    (LambdaBody.moved r.place) fun body => ∀ e ∈ body.walk, good e := by
  refine echoes_peekIs_bind fun t _ => ?_
  split
  · refine echoes_last_bind (Echoes.at (echoes_block row echo shallow).fewer) Calm.refl (fun _ _ => id) id
      fun b all => ?_
    exact echoes_pure rfl all
  · refine echoes_last_bind (echo.expression shallow (by decide) a).at Calm.refl (fun _ _ => id) id fun e all => ?_
    exact echoes_pure rfl all

section At

variable {t : Token}

/-- A lambda behind its parameters. -/
theorem echoes_lambdaTail {params : List Param} (goods : ∀ e ∈ Param.walkAll params, good e) :
    Echoes tokens r Calm (some t) true a a n (do
      let result ← g.typeAnnotation depth
      let _ ← expect (.symbol .arrow)
      let body ← g.lambdaBody depth
      return .lambda (← markFrom t t) params result body) (do
      let result ← g'.typeAnnotation depth'
      let _ ← expect (.symbol .arrow)
      let body ← g'.lambdaBody depth'
      return .lambda (← markFrom (r.token t) (r.token t)) (Param.movedAll r.place params) result body)
      (Expr.moved r.place) fun e => ∀ e' ∈ e.parts, good e' := by
  refine echoes_bind (echoes_annotatedType row echo shallow) (fun _ => rfl) fun result _ => ?_
  refine echoes_expect_bind row (by decide) (turns_other (by decide) a) fun _ _ _ => ?_
  refine echoes_last_bind (echoes_lambdaBody row echo shallow) Calm.refl (fun _ _ => id) nofun fun body all => ?_
  refine echoes_markFrom_bind fun m => echoes_pure rfl ?_
  cases body <;> exact List.forall_mem_append.2 ⟨goods, all⟩

theorem echoesAt_lambda (kind : t.kind = .symbol .leftParen) :
    EchoesAt tokens r t Calm none true a a (n + 1) (g.lambda depth) (g'.lambda depth') (Expr.moved r.place)
      fun e => ∀ e' ∈ e.parts, good e' := by
  refine echoesAt_first_bind row (by rw [kind]; decide) (kind ▸ turns_left a) ?_
  exact echoes_bind (echoes_parameters (R := Eq) row echo shallow) (fun _ => rfl) fun params goods =>
    echoes_lambdaTail row echo shallow goods

/-- The tokens of a lambda say that it is one. -/
theorem lambda_looks (kind : t.kind = .symbol .leftParen) {c c₁ : Cursor} {e : Expr} (on : c.On tokens)
    (here : c.ahead.head? = some t) (run : g.lambda depth c = .ok (e, c₁)) {used : List Token}
    (ahead : c.ahead = used ++ c₁.ahead) (small : used.length ≤ n + 1) (inRegion : ∀ t ∈ used, r.region t)
    {us more more' : List Token} (kinds : us.map Token.kind = used.map Token.kind) :
    lambdaAhead 1 ((us ++ more).drop 1) = lambdaAhead 1 ((used ++ more').drop 1) := by
  obtain ⟨start, mid, taken, run⟩ := bind_ok run
  obtain ⟨params, mid', read, run⟩ := bind_ok run
  obtain ⟨rfl, ahead₁, -, onMid⟩ := next_ahead row (by rw [kind]; decide) on here taken
  obtain ⟨goods, used₂, ahead₂, -, onMid', -, opens⟩ :=
    echoes_parameters (R := Eq) (a := 0) row echo shallow mid params mid' onMid trivial read
  obtain ⟨-, used₃, ahead₃, -, -, some₃, -⟩ :=
    echoes_lambdaTail (a := 0) row echo shallow (t := start) goods mid' e c₁ onMid' trivial run
  obtain ⟨h, hs, rfl⟩ := List.exists_cons_of_ne_nil (some₃ rfl)
  obtain rfl : used = start :: (used₂ ++ h :: hs) := by
    refine List.append_cancel_right (ahead.symm.trans ?_)
    rw [ahead₁, ahead₂, ahead₃]
    simp
  obtain ⟨u, us, rfl, -, kinds⟩ := List.map_eq_cons_iff.1 kinds
  rw [List.map_append] at kinds
  obtain ⟨us₂, us₃, rfl, kinds₂, kinds₃⟩ := List.map_eq_append_iff.1 kinds
  obtain ⟨h', hs', rfl, kind', -⟩ := List.map_eq_cons_iff.1 kinds₃
  rw [List.length_cons, List.length_append] at small
  have opened : Opens 1 0 used₂ :=
    (opens (by omega) fun t found => inRegion t (List.mem_cons_of_mem _ (List.mem_append_left _ found))).1
  rw [List.cons_append, List.cons_append, List.drop_one, List.drop_one, List.tail_cons, List.tail_cons,
    List.append_assoc, List.append_assoc, List.cons_append, List.cons_append]
  rcases lambdaAhead_decided Nat.one_pos opened with ⟨b, decided⟩ | decided
  · rw [decided us₂ h' _ kinds₂, decided used₂ h _ rfl]
  · rw [decided us₂ h' _ kinds₂, decided used₂ h _ rfl, kind']

theorem echoesAt_group (kind : t.kind = .symbol .leftParen) :
    EchoesAt tokens r t R none true a a (n + 1) (g.group depth) (g'.group depth') (Expr.moved r.place)
      fun e => ∀ e' ∈ e.walk, good e' := by
  refine echoesAt_first_bind row (by rw [kind]; decide) (kind ▸ turns_left a) ?_
  refine echoes_bind (echo.expression shallow (by decide) (a + 1)) Calm.refl fun e all => ?_
  exact echoes_expect_bind row (by decide) (turns_right a) fun _ _ _ => echoes_pure rfl all

theorem echoesAt_creation (kind : t.kind = .keyword .newWord) :
    EchoesAt tokens r t R none true a a (n + 1) (g.creation depth) (g'.creation depth') (Expr.moved r.place)
      fun e => ∀ e' ∈ e.parts, good e' := by
  refine echoesAt_first_bind row (by rw [kind]; decide) (by rw [kind]; exact turns_other (by decide) a) ?_
  refine echoes_bind (echo.type shallow a) (fun _ => rfl) fun type _ => ?_
  dsimp only
  rw [TypeExpr.name?_moved]
  split
  · exact fun _ _ _ _ _ run => by cases run
  · refine echoes_expect_bind row (by decide) (turns_left a) fun _ _ _ => ?_
    refine echoes_last_bind (S := fun _ _ => True) (echoes_expressions row echo shallow (by decide) (turns_right a))
      (fun _ => trivial) (fun _ _ _ => trivial) nofun fun args all => ?_
    exact echoes_markFrom_bind fun m => echoes_pure rfl all

theorem echoesAt_unary (op : UnaryOp) (other : t.kind ≠ .symbol .leftParen ∧ t.kind ≠ .symbol .rightParen ∧
    t.kind ≠ .endOfInput) :
    EchoesAt tokens r t Calm none true a a (n + 1) (g.unary depth op) (g'.unary depth' op) (Expr.moved r.place)
      fun e => ∀ e' ∈ e.parts, good e' := by
  refine echoesAt_first_bind row other.2.2 (turns_other other a) ?_
  refine echoes_last_bind (echo.expression shallow (by decide) a) Calm.refl (fun _ _ => id) nofun fun e all => ?_
  exact echoes_markFrom_bind fun m => echoes_pure rfl all

omit row echo shallow in
/-- The tokens of an expression in parentheses say that it is no lambda, and so does what may come behind them. -/
theorem group_looks {c c₁ : Cursor} {used us more : List Token} {u : Token} (on₁ : c₁.On tokens)
    (ahead : c.ahead = used ++ c₁.ahead) (opens : Opens 0 0 used) (kind : t.kind = .symbol .leftParen)
    (here : c.ahead.head? = some t) (some : used ≠ []) (looked : lambdaAhead 1 (c.ahead.drop 1) = false)
    (kinds : us.map Token.kind = used.map Token.kind) (calm : Calm c₁.head.kind u.kind) :
    lambdaAhead 1 ((us ++ u :: more).drop 1) = false := by
  obtain ⟨t', ts, rfl⟩ := List.exists_cons_of_ne_nil some
  obtain ⟨u', us, rfl, -, kinds⟩ := List.map_eq_cons_iff.1 kinds
  obtain ⟨v, rest, behind⟩ := List.exists_cons_of_ne_nil on₁.ahead
  rw [head_eq behind] at calm
  rw [ahead, List.cons_append] at here
  obtain rfl : t' = t := Option.some.inj here
  have opened : Opens 1 0 ts := by
    rw [Opens, List.map_cons, List.foldlM_cons, turns_left 0 t' kind] at opens
    exact opens
  rw [ahead, behind, List.cons_append, List.drop_one, List.tail_cons] at looked
  rw [List.cons_append, List.drop_one, List.tail_cons]
  rcases lambdaAhead_decided Nat.one_pos opened with ⟨b, decided⟩ | decided
  · rw [decided ts v rest rfl] at looked
    rw [decided us u more kinds, looked]
  · rw [decided ts v rest rfl] at looked
    rw [decided us u more kinds]
    rcases calm with same | ends
    · rw [same, looked]
    · rw [ends]
      rfl

theorem echoesAt_parenthesis (kind : t.kind = .symbol .leftParen) :
    EchoesAt tokens r t Calm none true a a (n + 1)
      (get >>= fun c => if lambdaAhead 1 (c.ahead.drop 1) then g.lambda depth else g.group depth)
      (get >>= fun c => if lambdaAhead 1 (c.ahead.drop 1) then g'.lambda depth' else g'.group depth') (Expr.moved r.place)
      fun e => ∀ e' ∈ e.parts, good e' := by
  intro c e c₁ on here run
  have run : (if lambdaAhead 1 (c.ahead.drop 1) then g.lambda depth else g.group depth) c = .ok (e, c₁) := run
  have kinds (used : List Token) : (used.map r.token).map Token.kind = used.map Token.kind := by
    rw [List.map_map]
    rfl
  split at run
  · next isLambda =>
    obtain ⟨holds, used, ahead, last, on₁, some, echo'⟩ := echoesAt_lambda row echo shallow kind c e c₁ on here run
    refine ⟨holds, used, ahead, last, on₁, some, fun small inRegion => ⟨(echo' small inRegion).1, ?_⟩⟩
    intro last' u more allowed warm there
    have looks : lambdaAhead 1 ((used.map r.token ++ u :: more).drop 1) = true := by
      rw [lambda_looks row echo shallow kind on here run ahead small inRegion (kinds used), ← ahead]
      exact isLambda
    have same : (get >>= fun c : Cursor => if lambdaAhead 1 (c.ahead.drop 1) then g'.lambda depth' else g'.group depth')
        ⟨last', used.map r.token ++ u :: more⟩ = g'.lambda depth' ⟨last', used.map r.token ++ u :: more⟩ :=
      congrFun (if_pos looks) _
    rw [same]
    exact (echo' small inRegion).2 last' u more allowed warm there
  · next isGroup =>
    have group (a : Nat) := echoesAt_group (R := Calm) (a := a) row echo shallow kind c e c₁ on here run
    obtain ⟨holds, used, ahead, last, on₁, some, echo'⟩ := group a
    refine ⟨fun e' found => holds e' ?_, used, ahead, last, on₁, some, fun small inRegion => ⟨(echo' small inRegion).1, ?_⟩⟩
    · rw [Expr.walk_eq]
      exact List.mem_cons_of_mem _ found
    intro last' u more allowed warm there
    obtain ⟨-, used', ahead', -, -, -, echo₀⟩ := group 0
    obtain rfl : used' = used := List.append_cancel_right (ahead'.symm.trans ahead)
    have looks : lambdaAhead 1 ((used'.map r.token ++ u :: more).drop 1) = false :=
      group_looks on₁ ahead (echo₀ small inRegion).1 kind here (some rfl) (by simpa using isGroup) (kinds used') allowed
    have same : (get >>= fun c : Cursor => if lambdaAhead 1 (c.ahead.drop 1) then g'.lambda depth' else g'.group depth')
        ⟨last', used'.map r.token ++ u :: more⟩ = g'.group depth' ⟨last', used'.map r.token ++ u :: more⟩ :=
      congrFun (if_neg (by rw [looks]; nofun)) _
    rw [same]
    exact (echo' small inRegion).2 last' u more allowed warm there

/-- Behind the word for the superclass, nothing else may come. -/
def Behind (t : Token) (k k' : TokenKind) : Prop := Calm k k' ∧ (t.kind = .keyword .superWord → k' = k)

omit echo shallow in
theorem echoesAt_parent (kind : t.kind = .keyword .superWord) :
    EchoesAt tokens r t Eq none true a a n parent parent (Expr.moved r.place) fun e => ∀ e' ∈ e.parts, good e' := by
  refine echoesAt_next_bind row (by rw [kind]; decide) (by rw [kind]; exact turns_other (by decide) a) ?_
  refine echoesWhen_look_bind fun u u' _ same => ?_
  dsimp only
  rw [same]
  split
  · exact echoes_failAt_bind
  · exact echoes_pure rfl nofun

omit echo shallow in
/-- An expression of one token. -/
theorem echoesAt_leaf {f f' : Token → Expr} (other : t.kind ≠ .symbol .leftParen ∧ t.kind ≠ .symbol .rightParen ∧
    t.kind ≠ .endOfInput) (same : f' (r.token t) = (f t).moved r.place) (single : (f t).parts = []) :
    EchoesAt tokens r t R none true a a n (next >>= fun t => pure (f t)) (next >>= fun t => pure (f' t))
      (Expr.moved r.place) fun e => ∀ e' ∈ e.parts, good e' :=
  echoesAt_next_bind row other.2.2 (turns_other other a) (echoes_pure same (by rw [single]; nofun))

theorem echoesAt_operand (plain : t.kind ≠ .keyword .vdomWord) :
    EchoesAt tokens r t (Behind t) none true a a (n + 1) (g.operand depth) (g'.operand depth') (Expr.moved r.place)
      fun e => ∀ e' ∈ e.parts, good e' := by
  unfold operand
  refine echoesAt_peek_bind ?_
  have calm {x x' : Reader Expr} (leaf : EchoesAt tokens r t Calm none true a a (n + 1) x x' (Expr.moved r.place)
      fun e => ∀ e' ∈ e.parts, good e') : EchoesAt tokens r t (Behind t) none true a a (n + 1) x x' (Expr.moved r.place)
      fun e => ∀ e' ∈ e.parts, good e' :=
    leaf.mono (fun _ => id) (fun _ => id) (fun _ => id) (fun _ _ => And.left) id (Nat.le_refl _)
  have kind : (r.token t).kind = t.kind := rfl
  rw [kind]
  split
  · next kind => exact echoesAt_leaf row (by rw [kind]; decide) rfl rfl
  · next kind => exact echoesAt_leaf row (by rw [kind]; decide) rfl rfl
  · next kind => exact echoesAt_leaf row (by rw [kind]; decide) rfl rfl
  · next kind => exact echoesAt_leaf row (by rw [kind]; decide) rfl rfl
  · next kind => exact echoesAt_leaf row (by rw [kind]; decide) rfl rfl
  · next kind => exact echoesAt_leaf row (by rw [kind]; decide) rfl rfl
  · next kind =>
    exact (echoesAt_parent row kind).mono (fun _ => id) (fun _ => id) (fun _ => id)
      (fun _ _ behind => (behind.2 kind).symm) id (Nat.le_refl _)
  · next kind => exact echoesAt_creation row echo shallow kind
  · next kind => exact absurd kind plain
  · next kind =>
    refine echoesAt_first_bind row (by rw [kind]; decide) (by rw [kind]; exact turns_other (by decide) a) ?_
    refine echoes_last_bind (S := fun _ _ => True)
      (echoes_expressions row echo shallow (by decide) (turns_other (by decide) a)) (fun _ => trivial)
      (fun _ _ _ => trivial) nofun fun es all => ?_
    exact echoes_markFrom_bind fun m => echoes_pure rfl all
  · next kind => exact calm (echoesAt_parenthesis row echo shallow kind)
  · next kind => exact calm (echoesAt_unary row echo shallow .not (by rw [kind]; decide))
  · next kind => exact calm (echoesAt_unary row echo shallow .negate (by rw [kind]; decide))
  · exact echoes_failAt

omit row echo shallow in
theorem infix_kind {kind : Infix} (isInfix : Infix.ofKind? t.kind = some kind) :
    (kind = .call ∧ t.kind = .symbol .leftParen) ∨
      (kind ≠ .call ∧ t.kind ≠ .symbol .leftParen ∧ t.kind ≠ .symbol .rightParen ∧ t.kind ≠ .endOfInput) := by
  unfold Infix.ofKind? at isInfix
  split at isInfix
  · next isAssign =>
    cases isInfix
    exact .inr ⟨nofun, by rw [isAssign]; decide⟩
  · next isLeft =>
    cases isInfix
    exact .inl ⟨rfl, isLeft⟩
  · next isBracket =>
    cases isInfix
    exact .inr ⟨nofun, by rw [isBracket]; decide⟩
  · next isDot =>
    cases isInfix
    exact .inr ⟨nofun, by rw [isDot]; decide⟩
  · next s _ isLeft _ _ isSymbol =>
    obtain ⟨op, isOp, rfl⟩ := Option.map_eq_some_iff.1 isInfix
    refine .inr ⟨nofun, ?_, ?_, by rw [isSymbol]; nofun⟩
    · rintro same
      rw [isSymbol] at same
      exact isLeft (TokenKind.symbol.inj same)
    · rintro same
      rw [isSymbol] at same
      cases same
      cases isOp
  · cases isInfix

/-- What follows an operand that starts at `start`. -/
theorem echoesAt_infixStep {start : Token} {left : Expr} (goods : ∀ e ∈ left.walk, good e) {kind : Infix}
    (isInfix : Infix.ofKind? t.kind = some kind) :
    EchoesAt tokens r t Calm (some start) true a a n (g.infixStep depth start left kind)
      (g'.infixStep depth' (r.token start) (left.moved r.place) kind) (Expr.moved r.place)
      fun e => ∀ e' ∈ e.parts, good e' := by
  unfold infixStep
  obtain ⟨rfl, isLeft⟩ | ⟨noCall, other⟩ := infix_kind isInfix
  · refine echoesAt_next_bind row (by rw [isLeft]; decide) (isLeft ▸ turns_left a) ?_
    refine echoes_last_bind (S := fun _ _ => True) (echoes_expressions row echo shallow (by decide) (turns_right a))
      (fun _ => trivial) (fun _ _ _ => trivial) nofun fun args all => ?_
    exact echoes_markFrom_bind fun m => echoes_pure rfl (List.forall_mem_append.2 ⟨goods, all⟩)
  · refine echoesAt_next_bind row other.2.2 (turns_other other a) ?_
    cases kind with
    | binary op =>
      have loose : Precedence.binary op < 90 := by cases op <;> decide
      refine echoes_last_bind (echo.expression shallow loose a) Calm.refl (fun _ _ => id) nofun fun right all => ?_
      exact echoes_markFrom_bind fun m => echoes_pure rfl (List.forall_mem_append.2 ⟨goods, all⟩)
    | assign =>
      dsimp only
      rw [Expr.isTarget_moved]
      split
      · exact echoes_failAt_bind
      · refine echoes_last_bind (echo.expression shallow (by decide) a) Calm.refl (fun _ _ => id) nofun fun value all => ?_
        exact echoes_markFrom_bind fun m => echoes_pure rfl (List.forall_mem_append.2 ⟨goods, all⟩)
    | call => exact absurd rfl noCall
    | index =>
      refine echoes_bind (echo.expression shallow (by decide) a) Calm.refl fun i all => ?_
      refine echoes_expect_bind row (by decide) (turns_other (by decide) a) fun _ _ _ => ?_
      exact echoes_markFrom_bind fun m => echoes_pure rfl (List.forall_mem_append.2 ⟨goods, all⟩)
    | member =>
      refine echoes_last_bind (S := fun _ _ => True) (echoes_name row) (fun _ => trivial) (fun _ _ _ => trivial) nofun
        fun property _ => ?_
      exact echoes_markFrom_bind fun m => echoes_pure rfl goods

end At

omit row shallow in
theorem Echo.any : Echo tokens r (fun _ => True) n g g' where
  statement shallow a := (echo.statement shallow a).mono (fun _ _ _ _ => trivial) (fun _ => id) (fun _ => id)
    (fun _ _ => id) id (Nat.le_refl n)
  expression shallow loose a := (echo.expression shallow loose a).mono (fun _ _ _ _ => trivial) (fun _ => id)
    (fun _ => id) (fun _ _ => id) id (Nat.le_refl n)
  type := echo.type

end Nested

/-! ## Operators behind an operand -/

/-- A kind of token behind which no operator goes on that binds as tightly. -/
def Rests (precedence : Nat) (k : TokenKind) : Prop :=
  ∀ kind, Infix.ofKind? k = some kind → kind.precedence ≤ precedence

/-- What operators that bind tighter than `precedence` make of an operand, one after the other. -/
inductive Grows (g : Grammar) (depth precedence : Nat) (start : Token) (left : Expr) (c : Cursor) :
    Expr → Cursor → Prop
  | still : Grows g depth precedence start left c left c
  | step {e e' : Expr} {c₁ c₂ : Cursor} {kind : Infix} (grows : Grows g depth precedence start left c e c₁)
    (isInfix : Infix.ofKind? c₁.head.kind = some kind) (tight : precedence < kind.precedence)
    (stepped : g.infixStep depth start e kind c₁ = .ok (e', c₂)) : Grows g depth precedence start left c e' c₂

theorem infixRest_step {g : Grammar} {depth precedence fuel : Nat} {start : Token} {left e : Expr} {kind : Infix}
    {c c₁ : Cursor} (isInfix : Infix.ofKind? c.head.kind = some kind) (tight : precedence < kind.precedence)
    (stepped : g.infixStep depth start left kind c = .ok (e, c₁)) :
    g.infixRest depth precedence start left (fuel + 1) c = g.infixRest depth precedence start e fuel c₁ := by
  rw [infixRest, bind_of_ok (show peek c = .ok (c.head, c) from rfl), isInfix]
  dsimp only
  rw [if_pos tight, bind_of_ok stepped]

theorem infixRest_rests {g : Grammar} {depth precedence fuel : Nat} {start : Token} {left : Expr} {c : Cursor}
    (rests : Rests precedence c.head.kind) : g.infixRest depth precedence start left fuel c = .ok (left, c) := by
  cases fuel with
  | zero => rfl
  | succ fuel =>
    rw [infixRest, bind_of_ok (show peek c = .ok (c.head, c) from rfl)]
    cases found : Infix.ofKind? c.head.kind with
    | none => rfl
    | some kind =>
      dsimp only
      rw [if_neg (Nat.not_lt.2 (rests kind found))]
      rfl

/-! ## What an expression covers -/

/-- What is read covers all from a token to the one taken last. -/
def CoversFrom {α : Type} (t : Token) (x : Reader α) (span : α → Span) : Prop :=
  ∀ c e c₁, x c = .ok (e, c₁) → span e = t.span.cover c₁.last.span

theorem coversFrom_bind {α β : Type} {t : Token} {x : Reader α} {f : α → Reader β} {span : β → Span}
    (rest : ∀ v, CoversFrom t (f v) span) : CoversFrom t (x >>= f) span := by
  intro c e c₁ run
  obtain ⟨v, mid, -, run⟩ := bind_ok run
  exact rest v mid e c₁ run

theorem coversFrom_markFrom {α : Type} {t h : Token} {f : Mark → α} {span : α → Span} (marked : ∀ m, span (f m) = m.span) :
    CoversFrom t (markFrom h t >>= fun m => pure (f m)) span := by
  intro c e c₁ run
  cases run
  exact marked _

theorem infixStep_covers (g : Grammar) (depth : Nat) (start : Token) (left : Expr) (kind : Infix) :
    CoversFrom start (g.infixStep depth start left kind) Expr.span := by
  refine coversFrom_bind fun head => ?_
  cases kind with
  | binary op => exact coversFrom_bind fun right => coversFrom_markFrom fun _ => rfl
  | assign =>
    dsimp only
    split
    · exact fun _ _ _ run => by cases run
    · exact coversFrom_bind fun value => coversFrom_markFrom fun _ => rfl
  | call => exact coversFrom_bind fun args => coversFrom_markFrom fun _ => rfl
  | index => exact coversFrom_bind fun i => coversFrom_bind fun _ => coversFrom_markFrom fun _ => rfl
  | member => exact coversFrom_bind fun property => coversFrom_markFrom fun _ => rfl

theorem Span.cover_self (s : Span) : s.cover s = s := by
  unfold Span.cover
  split
  · rfl
  · rw [if_neg (Nat.lt_irrefl _), Nat.max_self]

/-- A cursor in front of parentheses only if they start a lambda. -/
def NoGroup (c : Cursor) : Prop := c.head.kind = .symbol .leftParen → lambdaAhead 1 (c.ahead.drop 1) = true

/-- What is read in front of `t` covers all that is taken. -/
def CoversAt (tokens : List Token) (t : Token) (x : Reader Expr) : Prop :=
  ∀ c e c₁, c.On tokens → c.head = t → NoGroup c → x c = .ok (e, c₁) → e.span = t.span.cover c₁.last.span

theorem coversAt_first {t : Token} (row : Token.Row tokens length) (inside : t.kind ≠ .endOfInput)
    {f : Token → Reader Expr} (rest : CoversFrom t (f t) Expr.span) : CoversAt tokens t (next >>= f) := by
  intro c e c₁ on here _ run
  obtain ⟨u, mid, taken, run⟩ := bind_ok run
  obtain ⟨rfl, -⟩ := next_past row on (here ▸ inside) taken
  rw [here] at run
  exact rest mid e c₁ run

theorem coversAt_leaf {t : Token} (row : Token.Row tokens length) (inside : t.kind ≠ .endOfInput) {f : Token → Expr}
    (marked : (f t).span = t.span) : CoversAt tokens t (next >>= fun u => pure (f u)) := by
  intro c e c₁ on here _ run
  obtain ⟨u, mid, taken, run⟩ := bind_ok run
  obtain ⟨rfl, -, last, -⟩ := next_past row on (here ▸ inside) taken
  cases run
  rw [last, here, marked, Span.cover_self]

theorem coversAt_peek_bind {t : Token} {f : Token → Reader Expr} (rest : CoversAt tokens t (f t)) :
    CoversAt tokens t (peek >>= f) := by
  intro c e c₁ on here noGroup run
  have run : f c.head c = .ok (e, c₁) := run
  rw [here] at run
  exact rest c e c₁ on here noGroup run

/-- An operand that is not in parentheses covers all that is taken. -/
theorem operand_covers (g : Grammar) (row : Token.Row tokens length) (depth : Nat) {t : Token}
    (plain : t.kind ≠ .keyword .vdomWord) : CoversAt tokens t (g.operand depth) := by
  unfold operand
  refine coversAt_peek_bind ?_
  split
  · next kind => exact coversAt_leaf row (by rw [kind]; decide) rfl
  · next kind => exact coversAt_leaf row (by rw [kind]; decide) rfl
  · next kind => exact coversAt_leaf row (by rw [kind]; decide) rfl
  · next kind => exact coversAt_leaf row (by rw [kind]; decide) rfl
  · next kind => exact coversAt_leaf row (by rw [kind]; decide) rfl
  · next kind => exact coversAt_leaf row (by rw [kind]; decide) rfl
  · next kind =>
    intro c e c₁ on here _ run
    obtain ⟨u, mid, taken, run⟩ := bind_ok run
    obtain ⟨rfl, -, last, -⟩ := next_past row on (by rw [here, kind]; decide) taken
    obtain ⟨v, mid', looked, run⟩ := bind_ok run
    cases looked
    dsimp only at run
    split at run
    · cases run
    · cases run
      rw [last, here, Span.cover_self]
      rfl
  · next kind =>
    refine coversAt_first row (by rw [kind]; decide) (coversFrom_bind fun type => ?_)
    dsimp only
    split
    · exact fun _ _ _ run => by cases run
    · exact coversFrom_bind fun _ => coversFrom_bind fun args => coversFrom_markFrom fun _ => rfl
  · next kind => exact absurd kind plain
  · next kind =>
    exact coversAt_first row (by rw [kind]; decide) (coversFrom_bind fun es => coversFrom_markFrom fun _ => rfl)
  · next kind =>
    intro c e c₁ on here noGroup run
    have run : (if lambdaAhead 1 (c.ahead.drop 1) then g.lambda depth else g.group depth) c = .ok (e, c₁) := run
    rw [if_pos (noGroup (here ▸ kind))] at run
    refine coversAt_first row (by rw [kind]; decide) ?_ c e c₁ on here noGroup run
    exact coversFrom_bind fun params => coversFrom_bind fun result => coversFrom_bind fun _ => coversFrom_bind fun body =>
      coversFrom_markFrom fun _ => rfl
  · next kind =>
    exact coversAt_first row (by rw [kind]; decide) (coversFrom_bind fun e => coversFrom_markFrom fun _ => rfl)
  · next kind =>
    exact coversAt_first row (by rw [kind]; decide) (coversFrom_bind fun e => coversFrom_markFrom fun _ => rfl)
  · exact fun _ _ _ _ _ _ run => by cases run

theorem operand_of_group (g : Grammar) (depth : Nat) {c : Cursor} (kind : c.head.kind = .symbol .leftParen)
    (noLambda : lambdaAhead 1 (c.ahead.drop 1) = false) : g.operand depth c = g.group depth c := by
  rw [operand, bind_of_ok (show peek c = .ok (c.head, c) from rfl), kind]
  dsimp only
  rw [bind_of_ok (show (get : Reader Cursor) c = .ok (c, c) from rfl), noLambda]
  rfl

/-- The word for the superclass is followed by a call or a member. -/
theorem operand_of_super (row : Token.Row tokens length) (g : Grammar) (depth : Nat) {c c₁ : Cursor} {e : Expr}
    (on : c.On tokens) (kind : c.head.kind = .keyword .superWord) (run : g.operand depth c = .ok (e, c₁)) :
    e.isParent = true ∧ (c₁.head.kind = .symbol .leftParen ∨ c₁.head.kind = .symbol .dot) := by
  rw [operand, bind_of_ok (show peek c = .ok (c.head, c) from rfl), kind] at run
  obtain ⟨u, mid, taken, run⟩ := bind_ok run
  obtain ⟨rfl, -, last, -⟩ := next_past row on (by rw [kind]; decide) taken
  obtain ⟨v, mid', looked, run⟩ := bind_ok run
  cases looked
  dsimp only at run
  split at run
  · cases run
  · next calls =>
    cases run
    have calls : ¬ (c₁.head.kind != .symbol .leftParen && c₁.head.kind != .symbol .dot) = true := calls
    refine ⟨rfl, ?_⟩
    by_cases isLeft : c₁.head.kind = .symbol .leftParen
    · exact .inl isLeft
    · exact .inr (by simpa [isLeft] using calls)

section Growing

variable (row : Token.Row tokens length) (echo : Echo tokens r good n g g') {depth depth' : Nat}
  (shallow : depth' ≤ depth)
include row echo shallow

theorem grows_of_infixRest {precedence fuel : Nat} {start : Token} {left₀ left e : Expr} {c₀ c c₁ : Cursor}
    (grows : Grows g depth precedence start left₀ c₀ left c) (on : c.On tokens) (few : c.ahead.length ≤ fuel)
    (run : g.infixRest depth precedence start left fuel c = .ok (e, c₁)) :
    Grows g depth precedence start left₀ c₀ e c₁ ∧ Rests precedence c₁.head.kind := by
  induction fuel generalizing left c with
  | zero => exact absurd (List.length_eq_zero_iff.1 (Nat.le_zero.1 few)) on.ahead
  | succ fuel ih =>
    obtain ⟨_, _, looked, run⟩ := bind_ok run
    cases looked
    generalize found : Infix.ofKind? (c.ahead.headD c.last).kind = kind? at run
    cases kind? with
    | none =>
      cases run
      exact ⟨grows, fun kind some => by cases found.symm.trans some⟩
    | some kind =>
      dsimp only at run
      split at run
      · next tight =>
        obtain ⟨left', mid, stepped, run⟩ := bind_ok run
        obtain ⟨-, used, ahead, -, onMid, some, -⟩ := echoesAt_infixStep (a := 0) row echo.any shallow
          (fun _ _ => trivial) found c left' mid on (head?_ahead on) stepped
        have positive := List.length_pos_iff.2 (some rfl)
        rw [ahead, List.length_append] at few
        exact ih (.step grows found tight stepped) onMid (by omega) run
      · next loose =>
        cases run
        exact ⟨grows, fun kind' some => by
          cases found.symm.trans some
          exact Nat.not_lt.1 loose⟩

/-- What operators make of an operand, they make of it again. -/
theorem grows_again {precedence precedence' : Nat} (tighter : precedence' ≤ precedence) {start : Token} {left e : Expr}
    {c c₁ : Cursor} (on : c.On tokens) (grows : Grows g depth precedence start left c e c₁) :
    ∃ used, c.ahead = used ++ c₁.ahead ∧ c₁.last = used.getLastD c.last ∧ c₁.On tokens ∧
      (used = [] → c₁ = c) ∧
      (used.length ≤ n → (∀ t ∈ used, r.region t) → Opens a a used ∧ ∀ u rest fuel, Calm c₁.head.kind u.kind →
        r.region start → r.region c.last → (used.map r.token ++ u :: rest).length ≤ fuel →
          ∃ fuel', (u :: rest).length ≤ fuel' ∧
            g'.infixRest depth' precedence' (r.token start) (left.moved r.place) fuel
                ⟨r.token c.last, used.map r.token ++ u :: rest⟩ =
              g'.infixRest depth' precedence' (r.token start) (e.moved r.place) fuel'
                ⟨r.token c₁.last, u :: rest⟩) := by
  induction grows with
  | still => exact ⟨[], rfl, rfl, on, fun _ => rfl, fun _ _ => ⟨opens_nil a, fun u rest fuel _ _ _ few => ⟨fuel, few, rfl⟩⟩⟩
  | @step e e' c₁ c₂ kind grows isInfix tight stepped ih =>
    obtain ⟨used₁, ahead₁, last₁, on₁, -, again⟩ := ih
    obtain ⟨-, used₂, ahead₂, last₂, on₂, some₂, step⟩ := echoesAt_infixStep (a := a) row echo.any shallow
          (fun _ _ => trivial) isInfix c₁ e' c₂ on₁ (head?_ahead on₁) stepped
    obtain ⟨u₂, us₂, rfl⟩ := List.exists_cons_of_ne_nil (some₂ rfl)
    have head : c₁.head = u₂ := head_eq ahead₂
    refine ⟨used₁ ++ u₂ :: us₂, by rw [ahead₁, ahead₂, List.append_assoc], by rw [last₂, last₁, getLastD_append], on₂,
      by simp, fun small inRegion => ?_⟩
    rw [List.length_append] at small
    obtain ⟨opens₁, again⟩ := again (by omega) fun t found => inRegion t (List.mem_append_left _ found)
    obtain ⟨opens₂, step⟩ := step (by omega) fun t found => inRegion t (List.mem_append_right _ found)
    refine ⟨opens₁.append opens₂, fun u rest fuel calm started taken few => ?_⟩
    rw [List.map_append, List.append_assoc] at few ⊢
    obtain ⟨fuel₁, few₁, same⟩ := again (r.token u₂) (us₂.map r.token ++ u :: rest) fuel (head ▸ .refl _) started taken few
    rw [List.map_cons, List.cons_append, same]
    cases fuel₁ with
    | zero => cases few₁
    | succ fuel₁ =>
      have taken₁ : r.region c₁.last := by
        rw [last₁]
        by_cases some : used₁ = []
        · rw [some]
          exact taken
        · exact inRegion _ (List.mem_append_left _ (getLastD_mem some _))
      have stepped' := step (r.token c₁.last) u rest calm (fun s is => by
        cases is
        exact ⟨started, taken₁, rfl⟩) trivial
      have found : Infix.ofKind? (r.token u₂).kind = some kind := head ▸ isInfix
      refine ⟨fuel₁, ?_, ?_⟩
      · rw [List.length_cons, List.length_append] at few₁
        omega
      · have moved : infixRest g' depth' precedence' (r.token start) (e.moved r.place) (fuel₁ + 1)
            ⟨r.token c₁.last, r.token u₂ :: (us₂.map r.token ++ u :: rest)⟩ = _ :=
          infixRest_step found (Nat.lt_of_le_of_lt tighter tight) stepped'
        rw [moved, getLastD_map, last₂]

/-- An operand and what operators made of it are an expression of their own. -/
theorem expressionStep_again {precedence precedence' : Nat} (tighter : precedence' ≤ precedence)
    (deep : depth' + 1 ≤ maxNesting) {c c₁ c₂ : Cursor} {left e : Expr} (on : c.On tokens)
    (plain : c.head.kind ≠ .keyword .vdomWord) (run : g.operand (depth + 1) c = .ok (left, c₁))
    (grows : Grows g (depth + 1) precedence c.head left c₁ e c₂) :
    ∃ used, c.ahead = used ++ c₂.ahead ∧ c₂.last = used.getLastD c.last ∧ c₂.On tokens ∧ used ≠ [] ∧
      (used.length ≤ n + 1 → (∀ t ∈ used, r.region t) → Opens a a used ∧ ∀ last u rest, Calm c₂.head.kind u.kind →
        (c₂ = c₁ → c.head.kind = .keyword .superWord → u.kind = c₂.head.kind) → Rests precedence' u.kind →
          g'.expressionStep depth' precedence' ⟨last, used.map r.token ++ u :: rest⟩ =
            .ok (e.moved r.place, ⟨(used.map r.token).getLastD last, u :: rest⟩)) := by
  have deeper : depth' + 1 ≤ depth + 1 := Nat.succ_le_succ shallow
  obtain ⟨-, used₁, ahead₁, last₁, on₁, some₁, operand'⟩ :=
    echoesAt_operand (a := a) row echo.any deeper plain c left c₁ on (head?_ahead on) run
  obtain ⟨used₂, ahead₂, last₂, on₂, still, again⟩ :=
    grows_again (a := a) row echo deeper tighter on₁ grows
  obtain ⟨t, ts, rfl⟩ := List.exists_cons_of_ne_nil (some₁ rfl)
  have head : c.head = t := head_eq ahead₁
  refine ⟨t :: ts ++ used₂, by rw [ahead₁, ahead₂, List.append_assoc], by rw [last₂, last₁, getLastD_append], on₂, by simp,
    fun small inRegion => ?_⟩
  rw [List.length_append, List.length_cons] at small
  have inRegion₁ : ∀ u ∈ t :: ts, r.region u := fun u found => inRegion u (List.mem_append_left _ found)
  obtain ⟨opens₁, operand'⟩ := operand' (by rw [List.length_cons]; omega) inRegion₁
  obtain ⟨opens₂, again⟩ := again (by omega) fun t found => inRegion t (List.mem_append_right _ found)
  refine ⟨opens₁.append opens₂, fun last u rest calm super rests => ?_⟩
  rw [List.map_append, List.append_assoc, getLastD_append]
  obtain ⟨v, more, shown, behind⟩ : ∃ v more, used₂.map r.token ++ u :: rest = v :: more ∧
      Behind c.head c₁.head.kind v.kind := by
    cases used₂ with
    | nil =>
      have same : c₂ = c₁ := still rfl
      exact ⟨u, rest, rfl, same ▸ calm, fun word => same ▸ super same word⟩
    | cons t₂ ts₂ =>
      refine ⟨r.token t₂, ts₂.map r.token ++ u :: rest, rfl, ?_⟩
      rw [head_eq ahead₂]
      exact ⟨.refl _, fun _ => rfl⟩
  have first := operand' last v more behind nofun trivial
  have taken : ((t :: ts).map r.token).getLastD last = r.token c₁.last := by
    rw [last₁, List.map_cons, List.getLastD_cons, List.getLastD_cons, getLastD_map]
  rw [taken] at first
  have region₁ : r.region c₁.last := by
    rw [last₁]
    exact inRegion₁ _ (getLastD_mem (List.cons_ne_nil _ _) _)
  obtain ⟨fuel', -, same⟩ := again u rest (v :: more).length calm (head ▸ inRegion₁ t List.mem_cons_self) region₁
    (Nat.le_of_eq (by rw [shown]))
  rw [shown, taken, expressionStep, enter, if_neg (by omega), pure_bind,
    bind_of_ok (show peek _ = .ok (r.token t, _) from rfl), bind_of_ok first,
    bind_of_ok (show (get : Reader Cursor) _ = .ok (_, _) from rfl)]
  rw [shown, head] at same
  rw [same, infixRest_rests rests, last₂, getLastD_map]

/-- A property of expressions that all have that are read as an operand with operators behind it. -/
def Reared (tokens : List Token) (g : Grammar) (good : Expr → Prop) : Prop :=
  ∀ {depth precedence : Nat} {c c₁ c₂ : Cursor} {left e : Expr}, c.On tokens →
    g.operand (depth + 1) c = .ok (left, c₁) → Grows g (depth + 1) precedence c.head left c₁ e c₂ →
      e.span = c.head.span.cover c₂.last.span → good e

variable (plain : ∀ t ∈ tokens, t.kind ≠ .keyword .vdomWord) (reared : Reared tokens g good)
include plain reared

theorem operand_goods {c c₁ : Cursor} {left : Expr} (on : c.On tokens) (run : g.operand (depth + 1) c = .ok (left, c₁)) :
    ∀ e ∈ left.walk, good e := by
  have deeper : depth' + 1 ≤ depth + 1 := Nat.succ_le_succ shallow
  by_cases noGroup : NoGroup c
  · have parts := (echoesAt_operand (a := 0) row echo deeper (plain _ on.head_mem) c left c₁ on (head?_ahead on) run).1
    rw [Expr.walk_eq]
    refine List.forall_mem_cons.2 ⟨?_, parts⟩
    have covers := operand_covers g row (depth + 1) (plain _ on.head_mem) c left c₁ on rfl noGroup run
    have itself : Grows g (depth + 1) 0 c.head left c₁ left c₁ := .still
    exact reared on run itself covers
  · obtain ⟨kind, noLambda⟩ := Classical.not_imp.1 noGroup
    rw [operand_of_group g _ kind (by simpa using noLambda)] at run
    exact (echoesAt_group (R := Eq) (a := 0) row echo deeper kind c left c₁ on (head?_ahead on) run).1

theorem grows_goods {precedence : Nat} {c c₁ c₂ : Cursor} {left e : Expr} (on : c.On tokens)
    (run : g.operand (depth + 1) c = .ok (left, c₁)) (on₁ : c₁.On tokens)
    (grows : Grows g (depth + 1) precedence c.head left c₁ e c₂) : ∀ e' ∈ e.walk, good e' := by
  have deeper : depth' + 1 ≤ depth + 1 := Nat.succ_le_succ shallow
  induction grows with
  | still => exact operand_goods row echo shallow plain reared on run
  | @step e e' c₂ c₃ kind grows isInfix tight stepped ih =>
    have on₂ : c₂.On tokens := by
      obtain ⟨_, -, -, on₂, -⟩ := grows_again (a := 0) row echo deeper (Nat.le_refl _) on₁ grows
      exact on₂
    have parts := (echoesAt_infixStep (a := 0) row echo deeper ih isInfix c₂ e' c₃ on₂ (head?_ahead on₂) stepped).1
    rw [Expr.walk_eq]
    refine List.forall_mem_cons.2 ⟨?_, parts⟩
    exact reared on run (.step grows isInfix tight stepped) (infixStep_covers _ _ _ _ _ _ _ _ stepped)

theorem echoes_expressionStep {precedence : Nat} (loose : precedence < 90) :
    Echoes tokens r Calm none true a a (n + 1) (g.expressionStep depth precedence) (g'.expressionStep depth' precedence)
      (Expr.moved r.place) fun e => ∀ e' ∈ e.walk, good e' := by
  intro c e c₁ on _ run
  have deeper : depth' + 1 ≤ depth + 1 := Nat.succ_le_succ shallow
  obtain ⟨deep, c', entered, run⟩ := bind_ok run
  have fits : depth + 1 ≤ maxNesting := by
    unfold enter at entered
    split at entered
    · cases entered
    · next fits => exact Nat.not_lt.1 fits
  obtain rfl : c = c' := (enter_run entered).symm
  rw [enter, if_neg (by omega)] at entered
  cases entered
  obtain ⟨_, _, looked, run⟩ := bind_ok run
  cases looked
  obtain ⟨left, mid, ran, run⟩ := bind_ok run
  obtain ⟨_, _, got, run⟩ := bind_ok run
  cases got
  have onMid : mid.On tokens := by
    obtain ⟨-, _, -, -, onMid, -⟩ :=
      echoesAt_operand (a := 0) row echo deeper (plain _ on.head_mem) c left mid on (head?_ahead on) ran
    exact onMid
  obtain ⟨grows, rests⟩ := grows_of_infixRest row echo deeper .still onMid (Nat.le_refl _) run
  refine ⟨grows_goods row echo shallow plain reared on ran onMid grows, ?_⟩
  obtain ⟨used, ahead, last, on₁, some, again⟩ := expressionStep_again (a := a) row echo shallow (Nat.le_refl precedence)
    (by omega) on (plain _ on.head_mem) ran grows
  refine ⟨used, ahead, last, on₁, fun _ => some, fun small inRegion => ⟨(again small inRegion).1, ?_⟩⟩
  intro last' u rest calm _ _
  refine (again small inRegion).2 last' u rest calm (fun same isSuper => ?_) ?_
  · rw [same] at rests
    exfalso
    rcases (operand_of_super row g _ on isSuper ran).2 with kind | kind
    · have bound := rests .call (by rw [kind]; rfl)
      exact absurd (Nat.lt_of_le_of_lt bound loose) (Nat.lt_irrefl _)
    · have bound := rests .member (by rw [kind]; rfl)
      exact absurd (Nat.lt_of_le_of_lt bound loose) (by decide)
  · rcases calm with same | ends
    · rw [same]
      exact rests
    · rw [ends]
      exact fun _ none => absurd none.symm (Option.some_ne_none _)

end Growing

end Grammar

end ClassScript
