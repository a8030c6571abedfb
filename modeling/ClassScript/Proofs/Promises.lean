import ClassScript.Proofs.Tidy

/-!
# What the readers promise about their trees

`Yields x P` says that whatever `x` reads from proper tokens has the property `P`, and that proper
tokens are left; the rules ask nothing of the tokens but that each is proper when it comes to it
(`YieldsIn`). It holds of every reader of the grammar with `P` the tidiness of clear trees, first
relative to the readers of the constructs that nest (`Grammar.Promises`), then for all of them by
induction on the bound (`Grammar.within_promises`). So every clear program that is read from a file is
tidy (`Program.tidy_of_clear`).
-/

namespace ClassScript

/-- The tokens ahead are proper and woven, and the last of them is the end of the input. -/
structure Cursor.Proper (c : Cursor) : Prop where
  proper : ∀ t ∈ c.ahead, t.Proper
  woven : c.ahead.Pairwise Token.Woven
  noComment : ∀ t ∈ c.ahead, t.kind ≠ .comment
  ends : c.ahead.getLast?.map Token.kind = some .endOfInput

theorem Cursor.Proper.some_ahead {c : Cursor} (proper : c.Proper) : c.ahead ≠ [] := by
  intro none_ahead
  have ends := proper.ends
  rw [none_ahead] at ends
  cases ends

/-- A property of cursors that makes the token ahead proper, and stays when it is taken. -/
class Cursor.Keeps (I : Cursor → Prop) : Prop where
  head : ∀ {c : Cursor}, I c → (c.ahead.headD c.last).Proper
  next : ∀ {c c' : Cursor} {t : Token}, I c → Reader.next c = .ok (t, c') → I c'

instance : Cursor.Keeps Cursor.Proper where
  head := by
    rintro ⟨last, ahead⟩ proper
    cases ahead with
    | nil => exact absurd rfl proper.some_ahead
    | cons t rest => exact proper.proper t List.mem_cons_self
  next := by
    rintro ⟨last, ahead⟩ c' t proper run
    match ahead with
    | [] => exact absurd rfl proper.some_ahead
    | [first] =>
      cases run
      exact ⟨proper.proper, proper.woven, proper.noComment, proper.ends⟩
    | first :: second :: rest =>
      cases run
      refine ⟨fun t later => proper.proper t (List.mem_cons_of_mem _ later),
        (List.pairwise_cons.1 proper.woven).2,
        fun t later => proper.noComment t (List.mem_cons_of_mem _ later), ?_⟩
      have ends := proper.ends
      rwa [List.getLast?_cons_cons] at ends

namespace Reader

variable {α β : Type}

/-- What the reader takes where `I` holds has the property, and `I` holds behind it. -/
def YieldsIn (I : Cursor → Prop) (x : Reader α) (P : α → Prop) : Prop :=
  ∀ c a c', I c → x c = .ok (a, c') → I c' ∧ P a

/-- What the reader takes from proper tokens has the property, and proper tokens are left. -/
abbrev Yields (x : Reader α) (P : α → Prop) : Prop := YieldsIn Cursor.Proper x P

/-! ## Rules -/

theorem bind_ok {x : Reader α} {f : α → Reader β} {c c' : Cursor} {b : β}
    (run : (x >>= f) c = .ok (b, c')) : ∃ a mid, x c = .ok (a, mid) ∧ f a mid = .ok (b, c') := by
  have unfolded : (x >>= f) c = (x c >>= fun r => f r.1 r.2) := rfl
  rw [unfolded] at run
  cases first : x c with
  | error fault =>
    rw [first] at run
    cases run
  | ok r =>
    rw [first] at run
    exact ⟨r.1, r.2, rfl, run⟩

variable {I : Cursor → Prop}

theorem yields_pure {P : α → Prop} {a : α} (holds : P a) : YieldsIn I (pure a) P := by
  intro c a' c' proper run
  cases run
  exact ⟨proper, holds⟩

theorem yields_bind {x : Reader α} {f : α → Reader β} {P : α → Prop} {Q : β → Prop}
    (first : YieldsIn I x P) (rest : ∀ a, P a → YieldsIn I (f a) Q) : YieldsIn I (x >>= f) Q := by
  intro c b c' proper run
  obtain ⟨a, mid, ran, run⟩ := bind_ok run
  obtain ⟨properMid, holds⟩ := first c a mid proper ran
  exact rest a holds mid b c' properMid run

theorem yields_mono {x : Reader α} {P Q : α → Prop} (holds : YieldsIn I x P) (weaker : ∀ a, P a → Q a) :
    YieldsIn I x Q := by
  intro c a c' proper run
  obtain ⟨properAfter, first⟩ := holds c a c' proper run
  exact ⟨properAfter, weaker a first⟩

theorem yields_failAt (P : α → Prop) (fault : SyntaxFault) (t : Token) : YieldsIn I (failAt fault t) P := by
  intro c a c' proper run
  cases run

theorem yields_unexpected (P : α → Prop) (what : String) (t : Token) : YieldsIn I (unexpected what t) P :=
  yields_failAt P _ t

theorem yields_get : YieldsIn I (get : Reader Cursor) I := by
  intro c a c' proper run
  cases run
  exact ⟨proper, proper⟩

theorem yields_spanFrom (start : Token) : YieldsIn I (spanFrom start) fun _ => True :=
  yields_bind yields_get fun _ _ => yields_pure trivial

theorem yields_markFrom (head start : Token) : YieldsIn I (markFrom head start) fun m => m.head = head :=
  yields_bind (yields_spanFrom start) fun _ _ => yields_pure rfl

/-- What the reader takes where `I` holds and `t` is the first token. -/
def YieldsAtIn (I : Cursor → Prop) (t : Token) (x : Reader α) (P : α → Prop) : Prop :=
  ∀ c a c', I c → c.ahead.headD c.last = t → x c = .ok (a, c') → I c' ∧ P a

/-- What the reader takes from proper tokens of which `t` is the first. -/
abbrev YieldsAt (t : Token) (x : Reader α) (P : α → Prop) : Prop := YieldsAtIn Cursor.Proper t x P

theorem yieldsAt_of_yields {t : Token} {x : Reader α} {P : α → Prop} (holds : YieldsIn I x P) :
    YieldsAtIn I t x P := fun c a c' proper _ run => holds c a c' proper run

/-- What holds whatever token is the first. -/
theorem yields_of_yieldsAt {x : Reader α} {P : α → Prop} {Q : Token → α → Prop}
    (holds : ∀ t, YieldsAtIn I t x (Q t)) (weaker : ∀ t a, Q t a → P a) : YieldsIn I x P := by
  intro c a c' proper run
  obtain ⟨after, found⟩ := holds _ c a c' proper rfl run
  exact ⟨after, weaker _ a found⟩

theorem yieldsAt_bind {t : Token} {x : Reader α} {f : α → Reader β} {P : α → Prop} {Q : β → Prop}
    (first : YieldsAtIn I t x P) (rest : ∀ a, P a → YieldsIn I (f a) Q) : YieldsAtIn I t (x >>= f) Q := by
  intro c b c' proper head run
  obtain ⟨a, mid, ran, run⟩ := bind_ok run
  obtain ⟨properMid, holds⟩ := first c a mid proper head ran
  exact rest a holds mid b c' properMid run

theorem yieldsAt_peek_bind {t : Token} {f : Token → Reader α} {P : α → Prop}
    (rest : YieldsAtIn I t (f t) P) : YieldsAtIn I t (peek >>= f) P := by
  intro c a c' proper head run
  obtain ⟨t', mid, looked, run⟩ := bind_ok run
  cases looked
  rw [head] at run
  exact rest c a c' proper head run

section Taking

variable [Cursor.Keeps I]

theorem yields_peek : YieldsIn I peek Token.Proper := by
  intro c t c' proper run
  cases run
  exact ⟨proper, Cursor.Keeps.head proper⟩

/-- The token ahead is taken, and it is the one that was looked at. -/
theorem next_run {c c' : Cursor} {t : Token} (inside : I c) (run : next c = .ok (t, c')) :
    I c' ∧ t.Proper ∧ t = c.ahead.headD c.last := by
  have taken : t = c.ahead.headD c.last := by
    obtain ⟨last, ahead⟩ := c
    match ahead with
    | [] | [_] | _ :: _ :: _ => cases run; rfl
  exact ⟨Cursor.Keeps.next inside run, taken ▸ Cursor.Keeps.head inside, taken⟩

theorem yields_next : YieldsIn I next Token.Proper := by
  intro c t c' proper run
  obtain ⟨after, holds, _⟩ := next_run proper run
  exact ⟨after, holds⟩

theorem yields_expect (k : TokenKind) : YieldsIn I (expect k) fun t => t.Proper ∧ t.kind = k := by
  intro c t c' proper run
  obtain ⟨ahead, mid, looked, run⟩ := bind_ok run
  cases looked
  split at run
  · next found =>
    obtain ⟨after, holds, taken⟩ := next_run proper run
    exact ⟨after, holds, taken ▸ beq_iff_eq.1 found⟩
  · cases run

theorem yields_peekIs (k : TokenKind) : YieldsIn I (peekIs k) fun _ => True :=
  yields_bind yields_peek fun _ _ => yields_pure trivial

theorem yields_accept (k : TokenKind) : YieldsIn I (accept k) fun _ => True := by
  refine yields_bind (yields_peekIs k) fun found _ => ?_
  split
  · exact yields_bind yields_next fun _ _ => yields_pure trivial
  · exact yields_pure trivial

theorem yields_peek_bind {f : Token → Reader α} {P : α → Prop}
    (rest : ∀ t, t.Proper → YieldsAtIn I t (f t) P) : YieldsIn I (peek >>= f) P := by
  intro c a c' proper run
  obtain ⟨t, mid, looked, run⟩ := bind_ok run
  have holds := (yields_peek c t mid proper looked).2
  cases looked
  exact rest _ holds c a c' proper rfl run

theorem yields_peekIs_bind {k : TokenKind} {f : Bool → Reader α} {P : α → Prop}
    (rest : ∀ t, t.Proper → YieldsAtIn I t (f (t.kind == k)) P) : YieldsIn I (peekIs k >>= f) P :=
  yields_peek_bind rest

theorem yieldsAt_next_bind {t : Token} {f : Token → Reader α} {P : α → Prop}
    (rest : YieldsIn I (f t) P) : YieldsAtIn I t (next >>= f) P := by
  intro c a c' proper head run
  obtain ⟨t', mid, taken, run⟩ := bind_ok run
  obtain ⟨after, _, same⟩ := next_run proper taken
  rw [head] at same
  subst same
  exact rest mid a c' after run

theorem yields_commaRest {p : Reader α} {P : α → Prop} (item : YieldsIn I p P) (fuel : Nat) :
    YieldsIn I (commaRest p fuel) fun items => ∀ a ∈ items, P a := by
  induction fuel with
  | zero => exact yields_pure (by simp)
  | succ fuel ih =>
    refine yields_bind (yields_accept _) fun found _ => ?_
    split
    · refine yields_bind item fun a holds => yields_bind ih fun more all => yields_pure ?_
      exact List.forall_mem_cons.2 ⟨holds, all⟩
    · exact yields_pure (by simp)

theorem yields_commaList {p : Reader α} {P : α → Prop} (item : YieldsIn I p P) :
    YieldsIn I (commaList p) fun items => items ≠ [] ∧ ∀ a ∈ items, P a := by
  refine yields_bind item fun a holds => yields_bind yields_get fun _ _ => ?_
  refine yields_bind (yields_commaRest item _) fun more all => yields_pure ⟨by simp, ?_⟩
  exact List.forall_mem_cons.2 ⟨holds, all⟩

theorem yields_untilRest {p : Reader α} {P : α → Prop} (stop : TokenKind) (item : YieldsIn I p P)
    (fuel : Nat) : YieldsIn I (untilRest stop p fuel) fun items => ∀ a ∈ items, P a := by
  induction fuel with
  | zero => exact yields_bind yields_peek fun t _ => yields_failAt _ _ t
  | succ fuel ih =>
    refine yields_bind yields_peek fun t _ => ?_
    split
    · exact yields_pure (by simp)
    · split
      · exact yields_unexpected _ _ t
      · refine yields_bind item fun a holds => yields_bind ih fun more all => yields_pure ?_
        exact List.forall_mem_cons.2 ⟨holds, all⟩

theorem yields_untilToken {p : Reader α} {P : α → Prop} (stop : TokenKind) (item : YieldsIn I p P) :
    YieldsIn I (untilToken stop p) fun items => ∀ a ∈ items, P a := by
  refine yields_bind yields_get fun _ _ => yields_bind (yields_untilRest stop item _) fun items all => ?_
  exact yields_bind yields_next fun _ _ => yields_pure all

end Taking

end Reader

namespace Token

theorem Proper.isName {t : Token} (proper : t.Proper) (kind : t.kind = .identifier) : IsName t.word := by
  rwa [Proper, kind] at proper

theorem Proper.isNumeral {t : Token} (proper : t.Proper) (kind : t.kind = .number) :
    IsNumeral t.word := by
  rwa [Proper, kind] at proper

theorem Proper.isTruth {t : Token} (proper : t.Proper) (kind : t.kind = .boolean) :
    t.word = if t.word == "true" then "true" else "false" := by
  rw [Proper, kind] at proper
  rcases proper with yes | no
  · rw [yes]
    rfl
  · rw [no]
    rfl

theorem Proper.isQuotable {t : Token} (proper : t.Proper) (kind : t.kind = .string) :
    IsQuotable t.contents := by
  rwa [Proper, kind] at proper

theorem Proper.isAnnotation {t : Token} (proper : t.Proper) (kind : t.kind = .atName) :
    IsWord (Text.shown (t.lexeme.drop 1)) := by
  rwa [Proper, kind] at proper

theorem Proper.isKeyword {t : Token} {k : Keyword} (proper : t.Proper) (kind : t.kind = .keyword k) :
    t.word = k.spelling := by
  rwa [Proper, kind] at proper

end Token

/-! ## Types that can be read -/

/-- The types that a type is put together from. -/
def TypeExpr.parts : TypeExpr → List TypeExpr
  | .simple .. => []
  | .generic _ _ args _ => args
  | .function _ params result _ => params ++ [result]

/-- A type that can be read at a depth without nesting too deeply. -/
inductive TypeExpr.Fits : Nat → TypeExpr → Prop
  | mk {depth : Nat} {t : TypeExpr} (room : depth < maxNesting)
      (parts : ∀ t' ∈ t.parts, TypeExpr.Fits (depth + 1) t') : TypeExpr.Fits depth t

/-! ## The parts of a construct -/

namespace Grammar

open Reader

/-- What the readers of the constructs that nest promise: clear trees are tidy, and a statement that
starts with `if` can be the other side of a branch. -/
structure Promises (g : Grammar) : Prop where
  statement : ∀ depth, Yields (g.statement depth) fun s => s.isClear = true → s.Tidy
  branch : ∀ depth t, t.kind = .keyword .ifWord →
    YieldsAt t (g.statement depth) fun s => s.isOtherwise = true ∧ (s.isClear = true → s.Tidy)
  expression : ∀ depth precedence, precedence < 90 →
    Yields (g.expression depth precedence) fun e => e.isClear = true → e.Tidy
  type : ∀ depth, Yields (g.type depth) fun t => t.isPlain = true → t.Tidy
  element : ∀ depth, Yields (g.element depth) fun e => e.isClear = true → e.Tidy

/-- Lists are clear and tidy as their members are. -/
theorem all_tidy {α : Type} {clear : α → Bool} {tidy : α → Prop} {allClear : List α → Bool}
    {allTidy : List α → Prop} (clearCons : ∀ a l, allClear (a :: l) = (clear a && allClear l))
    (tidyNil : allTidy []) (tidyCons : ∀ a l, tidy a → allTidy l → allTidy (a :: l)) {l : List α}
    (each : ∀ a ∈ l, clear a = true → tidy a) (areClear : allClear l = true) : allTidy l := by
  induction l with
  | nil => exact tidyNil
  | cons a l ih =>
    rw [clearCons, Bool.and_eq_true] at areClear
    obtain ⟨first, rest⟩ := List.forall_mem_cons.1 each
    exact tidyCons a l (first areClear.1) (ih rest areClear.2)

theorem types_tidy {ts : List TypeExpr} (each : ∀ t ∈ ts, t.isPlain = true → t.Tidy) :
    TypeExpr.arePlain ts = true → TypeExpr.TidyAll ts :=
  all_tidy (fun _ _ => rfl) trivial (fun _ _ => And.intro) each

theorem exprs_tidy {es : List Expr} (each : ∀ e ∈ es, e.isClear = true → e.Tidy) :
    Expr.areClear es = true → Expr.TidyAll es :=
  all_tidy (fun _ _ => rfl) trivial (fun _ _ => And.intro) each

theorem params_tidy {ps : List Param} (each : ∀ p ∈ ps, p.isClear = true → p.Tidy) :
    Param.areClear ps = true → Param.TidyAll ps :=
  all_tidy (fun _ _ => rfl) trivial (fun _ _ => And.intro) each

theorem stmts_tidy {ss : List Stmt} (each : ∀ s ∈ ss, s.isClear = true → s.Tidy) :
    Stmt.areClear ss = true → Stmt.TidyAll ss :=
  all_tidy (fun _ _ => rfl) trivial (fun _ _ => And.intro) each

theorem yields_enter {I : Cursor → Prop} [Cursor.Keeps I] (depth : Nat) :
    YieldsIn I (enter depth) fun deeper => deeper = depth + 1 ∧ depth < maxNesting := by
  unfold enter
  split
  · exact yields_bind yields_peek fun t _ => yields_failAt _ _ t
  · next room => exact yields_pure ⟨rfl, Nat.not_lt.1 room⟩

theorem yields_name : Yields name fun n => IsName n.text :=
  yields_bind (yields_expect _) fun _ taken => yields_pure (taken.1.isName taken.2)

section Parts

variable {g : Grammar} (promised : g.Promises) (depth : Nat)
include promised

theorem yields_types :
    Yields (g.types depth) fun ts => ts ≠ [] ∧ (TypeExpr.arePlain ts = true → TypeExpr.TidyAll ts) :=
  yields_mono (yields_commaList (promised.type depth)) fun _ all => ⟨all.1, types_tidy all.2⟩

theorem yields_typed :
    Yields (g.typeAnnotation depth) fun t => t.all TypeExpr.isPlain = true → TypeExpr.TidyOption t := by
  refine yields_bind (yields_accept _) fun found _ => ?_
  split
  · exact yields_bind (promised.type depth) fun t tidy => yields_pure tidy
  · exact yields_pure fun _ => trivial

theorem yields_initialiser :
    Yields (g.initialiser depth) fun e => Expr.isClearOption e = true → Expr.TidyOption e := by
  refine yields_bind (yields_accept _) fun found _ => ?_
  split
  · exact yields_bind (promised.expression depth 0 (by decide)) fun e tidy => yields_pure tidy
  · exact yields_pure fun _ => trivial

theorem yields_block : Yields (g.block depth) fun b => b.isClear = true → b.Tidy := by
  refine yields_bind (yields_expect _) fun start _ => ?_
  refine yields_bind (yields_untilToken _ (promised.statement depth)) fun ss all => ?_
  exact yields_bind (yields_markFrom start start) fun _ _ => yields_pure (stmts_tidy all)

theorem yields_parameter : Yields (g.parameter depth) fun p => p.isClear = true → p.Tidy := by
  refine yields_bind (yields_expect _) fun start taken => ?_
  refine yields_bind (yields_typed promised depth) fun type typed => ?_
  refine yields_bind (yields_initialiser promised depth) fun fallback valued => ?_
  refine yields_bind (yields_markFrom start start) fun _ _ => yields_pure fun isClear => ?_
  rw [Param.isClear, Bool.and_eq_true] at isClear
  exact ⟨taken.1.isName taken.2, typed isClear.1, valued isClear.2⟩

theorem yields_parameters :
    Yields (g.parameters depth) fun ps => Param.areClear ps = true → Param.TidyAll ps := by
  refine yields_bind (yields_accept _) fun found _ => ?_
  split
  · exact yields_pure fun _ => trivial
  · refine yields_bind (yields_commaList (yields_parameter promised depth)) fun ps all => ?_
    exact yields_bind (yields_expect _) fun _ _ => yields_pure (params_tidy all.2)

end Parts

theorem yields_typeParameters : Yields typeParameters fun names => ∀ n ∈ names, IsName n.text := by
  refine yields_bind (yields_accept _) fun found _ => ?_
  split
  · refine yields_bind (yields_commaList yields_name) fun names all => ?_
    exact yields_bind (yields_expect _) fun _ _ => yields_pure all.2
  · exact yields_pure (by simp)

theorem yields_annotationsUpTo (fuel : Nat) :
    Yields (annotationsUpTo fuel) fun as => ∀ a ∈ as, IsWord a.name := by
  induction fuel with
  | zero => exact yields_pure (by simp)
  | succ fuel ih =>
    refine yields_peekIs_bind fun t proper => ?_
    split
    · next found =>
      refine yieldsAt_next_bind (yields_bind ih fun more all => yields_pure ?_)
      exact List.forall_mem_cons.2 ⟨proper.isAnnotation (beq_iff_eq.1 found), all⟩
    · exact yieldsAt_of_yields (yields_pure (by simp))

theorem yields_annotations : Yields annotations fun as => ∀ a ∈ as, IsWord a.name :=
  yields_bind yields_get fun _ _ => yields_annotationsUpTo _

/-! ## Types -/

section Types

variable {I : Cursor → Prop} [Cursor.Keeps I] {g : Grammar}

/-- What a type that was read at a depth keeps: if it is plain it is tidy, and it fits the depth. -/
def TypeKept (depth : Nat) (t : TypeExpr) : Prop := (t.isPlain = true → t.Tidy) ∧ t.Fits depth

variable (promised : ∀ depth, YieldsIn I (g.type depth) (TypeKept depth)) (depth : Nat)
include promised

theorem yields_functionTypeParams :
    YieldsIn I (g.functionTypeParams depth) fun ts => ∀ t ∈ ts, TypeKept depth t := by
  refine yields_bind (yields_accept _) fun found _ => ?_
  split
  · exact yields_pure (by simp)
  · refine yields_bind (yields_commaList (promised depth)) fun ts all => ?_
    exact yields_bind (yields_expect _) fun _ _ => yields_pure all.2

theorem yields_functionType (room : depth < maxNesting) :
    YieldsIn I (g.functionType (depth + 1)) (TypeKept depth) := by
  refine yields_bind yields_next fun start _ => ?_
  refine yields_bind (yields_functionTypeParams promised (depth + 1)) fun ps params => ?_
  refine yields_bind (yields_expect _) fun _ _ => ?_
  refine yields_bind (promised (depth + 1)) fun result returned => ?_
  refine yields_bind (yields_markFrom start start) fun _ _ => yields_pure ⟨fun plain => ?_, .mk room ?_⟩
  · rw [TypeExpr.isPlain, Bool.and_eq_true, Bool.and_eq_true] at plain
    exact ⟨rfl, types_tidy (fun t found => (params t found).1) plain.1.2, returned.1 plain.2⟩
  · refine List.forall_mem_append.2 ⟨fun t found => (params t found).2, ?_⟩
    exact List.forall_mem_singleton.2 returned.2

theorem yieldsAt_namedType {t : Token} (proper : t.Proper) (kind : t.kind = .identifier)
    (room : depth < maxNesting) : YieldsAtIn I t (g.namedType (depth + 1)) (TypeKept depth) := by
  refine yieldsAt_next_bind (yields_bind (yields_accept _) fun found _ => ?_)
  split
  · refine yields_bind (yields_commaList (promised (depth + 1))) fun args all => ?_
    refine yields_bind (yields_expect _) fun _ _ => ?_
    refine yields_bind (yields_markFrom t t) fun _ _ => yields_pure ⟨fun plain => ?_, .mk room ?_⟩
    · exact ⟨proper.isName kind, all.1, types_tidy (fun t found => (all.2 t found).1) plain⟩
    · exact fun t found => (all.2 t found).2
  · exact yields_pure ⟨fun _ => proper.isName kind, .mk room (by simp [TypeExpr.parts])⟩

omit promised in
theorem typeKept_asNullable {t : TypeExpr} (kept : TypeKept depth t) (span : Span) :
    TypeKept depth (t.asNullable span) := by
  obtain ⟨tidy, ⟨room, parts⟩⟩ := kept
  cases t with
  | simple m name n => exact ⟨fun _ => tidy rfl, .mk room parts⟩
  | generic m name args n => exact ⟨fun plain => tidy plain, .mk room parts⟩
  | function m ps result n => exact ⟨fun plain => (nomatch plain), .mk room parts⟩

theorem yields_typeStep : YieldsIn I (g.typeStep depth) (TypeKept depth) := by
  unfold typeStep
  refine yields_bind (yields_enter depth) ?_
  rintro _ ⟨rfl, room⟩
  refine yields_peek_bind fun start proper => ?_
  dsimp only
  have rest : ∀ t : TypeExpr, TypeKept depth t → YieldsIn I (do
      if ← accept (.symbol .question) then return t.asNullable (← spanFrom start)
      else return t) (TypeKept depth) := by
    intro t kept
    refine yields_bind (yields_accept _) fun found _ => ?_
    split
    · refine yields_bind (yields_spanFrom start) fun span _ => yields_pure ?_
      exact typeKept_asNullable depth kept span
    · exact yields_pure kept
  split
  · exact yieldsAt_bind (yieldsAt_of_yields (yields_functionType promised depth room)) rest
  · next kind => exact yieldsAt_bind (yieldsAt_namedType promised depth proper kind room) rest
  · exact yieldsAt_of_yields (yields_bind (yields_unexpected _ _ start) rest)

end Types

/-! ## Markup -/

theorem isWord_of_isName {t : Token} (proper : t.Proper) (named : t.kind.isName = true) : IsWord t.word := by
  cases kind : t.kind with
  | identifier => exact (proper.isName kind).1
  | boolean =>
    rw [Token.Proper, kind] at proper
    exact isWord_truth proper
  | keyword k =>
    rw [proper.isKeyword kind]
    exact (isWord_keyword k).1
  | _ =>
    rw [kind] at named
    cases named

/-- Where reading a text ends: in front of a token that ends it. What was added is a run of tokens that
can follow the token `last`, unless the text goes on to the end of the input. -/
theorem textRest_run {sofar all : Text} {fuel : Nat} {last : Token} {ahead : List Token} {c' : Cursor}
    (proper : Cursor.Proper ⟨last, ahead⟩) (enough : ahead.length ≤ fuel)
    (noComment : last.kind ≠ .comment) (woven : ∀ b ∈ ahead, last.Woven b)
    (run : textRest sofar fuel ⟨last, ahead⟩ = .ok (all, c')) :
    c'.Proper ∧ ∃ b, c'.ahead.head? = some b ∧ b ∈ ahead ∧ endsText b.kind = true ∧
      (b.kind ≠ .endOfInput → ∃ ks, Follows last.shape ks ∧ all = sofar ++ joined ks) := by
  induction fuel generalizing sofar last ahead with
  | zero => exact absurd (List.length_eq_zero_iff.1 (Nat.le_zero.1 enough)) proper.some_ahead
  | succ fuel ih =>
    obtain ⟨t, rest, rfl⟩ := List.exists_cons_of_ne_nil proper.some_ahead
    rw [textRest] at run
    obtain ⟨_, _, looked, run⟩ := bind_ok run
    cases looked
    rw [List.headD_cons] at run
    split at run
    · next ends =>
      cases run
      exact ⟨proper, t, rfl, List.mem_cons_self, ends, fun _ => ⟨[], trivial, (List.append_nil _).symm⟩⟩
    · next inText =>
      obtain ⟨_, _, got, run⟩ := bind_ok run
      cases got
      obtain ⟨t', mid, taken, run⟩ := bind_ok run
      obtain ⟨after, -, same⟩ := next_run proper taken
      obtain rfl : t' = t := same
      cases rest with
      | nil =>
        -- The last token is the end of the input, which ends every text.
        have ends := proper.ends
        rw [List.getLast?_singleton, Option.map_some] at ends
        rw [Option.some.inj ends] at inText
        exact absurd rfl inText
      | cons t'' rest =>
        cases taken
        have later := (List.pairwise_cons.1 proper.woven).1
        have visible := proper.noComment t' List.mem_cons_self
        obtain ⟨properEnd, b, front, found, ends, followed⟩ :=
          ih after (Nat.le_of_succ_le_succ enough) visible later run
        refine ⟨properEnd, b, front, List.mem_cons_of_mem _ found, ends, fun goesOn => ?_⟩
        obtain ⟨ks, follows, text⟩ := followed goesOn
        obtain ⟨stands, -⟩ := later b found visible goesOn
        have noEnd : t'.kind ≠ .endOfInput := fun isEnd => inText (by rw [isEnd]; rfl)
        have joint := (woven t' List.mem_cons_self noComment noEnd).2
        refine ⟨⟨t'.kind, t'.lexeme, some (last.isApart t')⟩ :: ks, ⟨⟨⟨stands.solid, stands.noComment,
          stands.before⟩, Bool.eq_false_iff.2 inText⟩, ?_, follows.loose rfl⟩, ?_⟩
        · cases apart : last.isApart t' with
          | true => exact .inl rfl
          | false => exact .inr ⟨rfl, joint apart⟩
        · have gap : (if t'.span.start > last.span.stop then Text.ofString " " else Text.ofString "") =
              if last.isApart t' then [.char ' '] else [] := by
            rw [Token.isApart]
            by_cases apart : last.span.stop < t'.span.start
            · rw [if_pos apart, decide_eq_true apart]
              rfl
            · rw [if_neg apart, decide_eq_false apart]
              rfl
          rw [text, joined, gap]
          cases last.isApart t' <;> simp

/-- A text that does not go on to the end of the input is a run. -/
theorem text_run {c c' : Cursor} {child : Child} (proper : c.Proper)
    (inText : endsText (c.ahead.headD c.last).kind = false) (run : text c = .ok (child, c')) :
    c'.Proper ∧ ∃ b, c'.ahead.head? = some b ∧ endsText b.kind = true ∧
      ∃ m t, child = .text m t ∧ (b.kind ≠ .endOfInput → IsRun t) := by
  obtain ⟨last, ahead⟩ := c
  obtain ⟨t, rest, rfl⟩ := List.exists_cons_of_ne_nil proper.some_ahead
  obtain ⟨t', mid, taken, run⟩ := bind_ok run
  obtain ⟨after, -, same⟩ := next_run proper taken
  obtain rfl : t' = t := same
  cases rest with
  | nil =>
    have ends := proper.ends
    rw [List.getLast?_singleton, Option.map_some] at ends
    rw [List.headD_cons, Option.some.inj ends] at inText
    cases inText
  | cons t'' rest =>
    cases taken
    obtain ⟨_, _, got, run⟩ := bind_ok run
    cases got
    obtain ⟨all, mid, read, run⟩ := bind_ok run
    have later := (List.pairwise_cons.1 proper.woven).1
    have visible := proper.noComment t' List.mem_cons_self
    obtain ⟨properEnd, b, front, found, ends, followed⟩ :=
      textRest_run after (Nat.le_refl _) visible later read
    obtain ⟨m, _, marked, run⟩ := bind_ok run
    cases run
    cases marked
    refine ⟨properEnd, b, front, ends, _, all, rfl, fun goesOn => ?_⟩
    obtain ⟨ks, follows, text⟩ := followed goesOn
    obtain ⟨stands, -⟩ := later b found visible goesOn
    exact ⟨t'.shape, ks, rfl, ⟨stands, inText⟩, follows, text⟩

section Markup

variable {g : Grammar} (promised : g.Promises) (depth : Nat)
include promised

theorem yieldsAt_attr {t : Token} (proper : t.Proper) (named : t.kind.isName = true) :
    YieldsAt t (g.attr depth) fun a => IsWord a.name ∧ (a.value.isClear = true → a.value.Tidy) := by
  unfold attr
  refine yieldsAt_next_bind (yields_bind (yields_expect _) fun _ _ => ?_)
  refine yields_peek_bind fun v properValue => ?_
  dsimp only
  have rest : ∀ e : Expr, (e.isClear = true → e.Tidy) →
      Yields (do return (⟨← markFrom t t, t.word, e⟩ : Attribute))
        fun a => IsWord a.name ∧ (a.value.isClear = true → a.value.Tidy) :=
    fun e tidy => yields_bind (yields_markFrom t t) fun _ _ =>
      yields_pure ⟨isWord_of_isName proper named, tidy⟩
  split
  · next kind => exact yieldsAt_next_bind (rest _ fun _ => properValue.isQuotable kind)
  · exact yieldsAt_next_bind (yields_bind (promised.expression depth 0 (by decide)) fun e tidy =>
      yields_bind (yields_expect _) fun _ _ => rest e tidy)
  · exact yieldsAt_of_yields
      (yields_bind (yields_unexpected (fun _ => False) _ v) fun _ impossible => impossible.elim)

theorem yields_attributesUpTo (fuel : Nat) :
    Yields (g.attributesUpTo depth fuel) fun as => Attribute.areClear as = true → Attribute.TidyAll as := by
  induction fuel with
  | zero => exact yields_pure fun _ => trivial
  | succ fuel ih =>
    refine yields_peek_bind fun t proper => ?_
    split
    · next named =>
      refine yieldsAt_bind (yieldsAt_attr promised depth proper named) fun a holds => ?_
      refine yields_bind ih fun more all => yields_pure fun areClear => ?_
      obtain ⟨_, _, _⟩ := a
      rw [Attribute.areClear, Bool.and_eq_true] at areClear
      exact ⟨holds.1, holds.2 areClear.1, all areClear.2⟩
    · exact yieldsAt_of_yields (yields_pure fun _ => trivial)

theorem yields_hole : Yields (g.hole depth) fun c => ∃ m e, c = .hole m e ∧ (e.isClear = true → e.Tidy) := by
  refine yields_bind yields_next fun start _ => ?_
  refine yields_bind (promised.expression depth 0 (by decide)) fun e tidy => ?_
  refine yields_bind (yields_expect _) fun _ _ => ?_
  exact yields_bind (yields_markFrom start start) fun m _ => yields_pure ⟨m, e, rfl, tidy⟩

omit promised in
theorem yields_closingTag (tag : String) : Yields (closingTag tag) fun _ => True := by
  unfold closingTag
  refine yields_bind yields_next fun _ _ => yields_bind yields_next fun t _ => ?_
  have rest : Yields (do let _ ← expect (.symbol .greater)) fun _ => True :=
    yields_bind (yields_expect _) fun _ _ => yields_pure trivial
  dsimp only
  split
  · exact yields_bind (yields_failAt (fun _ => True) _ t) fun _ _ => rest
  · exact rest

/-- Clear children are tidy, and the first is no text if the token ahead ends a text. -/
theorem yieldsAt_childrenUpTo (tag : String) (fuel : Nat) (t : Token) :
    YieldsAt t (g.childrenUpTo depth tag fuel) fun cs =>
      (Child.areClear cs = true → Child.TidyAll cs) ∧ t.kind ≠ .endOfInput ∧
        (endsText t.kind = true → Child.startsText cs = false) := by
  induction fuel generalizing t with
  | zero => exact yieldsAt_peek_bind (yieldsAt_of_yields (yields_failAt _ _ t))
  | succ fuel ih =>
    have others : Yields (g.childrenUpTo depth tag fuel)
        fun cs => Child.areClear cs = true → Child.TidyAll cs :=
      yields_of_yieldsAt ih fun _ _ holds => holds.1
    refine yieldsAt_peek_bind ?_
    split
    · exact yieldsAt_of_yields (yields_unexpected _ _ t)
    · next kind =>
      refine yieldsAt_of_yields (yields_bind (yields_closingTag tag) fun _ _ => yields_pure ?_)
      exact ⟨fun _ => trivial, by rw [kind]; exact ne_of_beq_false rfl, fun _ => rfl⟩
    · next kind =>
      refine yieldsAt_of_yields (yields_bind (promised.element depth) fun e tidy => ?_)
      refine yields_bind others fun more all => yields_pure ⟨fun areClear => ?_, ?_, fun _ => rfl⟩
      · simp only [Child.areClear, Bool.and_eq_true, Bool.or_eq_true, Bool.not_eq_true'] at areClear
        obtain ⟨⟨isClear, areClear⟩, apart⟩ := areClear
        exact ⟨tidy isClear, all areClear, apart⟩
      · rw [kind]
        exact ne_of_beq_false rfl
    · next kind =>
      refine yieldsAt_of_yields (yields_bind (yields_hole promised depth) fun h found => ?_)
      obtain ⟨m, e, rfl, tidy⟩ := found
      refine yields_bind others fun more all => yields_pure ⟨fun areClear => ?_, ?_, fun _ => rfl⟩
      · rw [Child.areClear, Bool.and_eq_true] at areClear
        exact ⟨tidy areClear.1, all areClear.2⟩
      · rw [kind]
        exact ne_of_beq_false rfl
    · next noEnd noClosing noTag noHole =>
      have inText : endsText t.kind = false := by
        unfold endsText
        split <;> first | contradiction | rfl
      intro c cs c' proper front run
      obtain ⟨child, mid, first, run⟩ := bind_ok run
      obtain ⟨properMid, b, behind, ends, m, text, rfl, isRun⟩ := text_run proper (front ▸ inText) first
      obtain ⟨more, _, read, run⟩ := bind_ok run
      cases run
      have here : mid.ahead.headD mid.last = b := by
        rw [List.headD_eq_head?_getD, behind, Option.getD_some]
      obtain ⟨after, all, goesOn, noText⟩ := ih b mid more _ properMid here read
      refine ⟨after, fun areClear => ⟨isRun goesOn, all areClear, noText ends⟩, noEnd, fun endsHere => ?_⟩
      rw [inText] at endsHere
      cases endsHere

theorem yields_childrenUpTo (tag : String) (fuel : Nat) :
    Yields (g.childrenUpTo depth tag fuel) fun cs => Child.areClear cs = true → Child.TidyAll cs :=
  yields_of_yieldsAt (yieldsAt_childrenUpTo promised depth tag fuel) fun _ _ holds => holds.1

theorem yields_elementStep : Yields (g.elementStep depth) fun e => e.isClear = true → e.Tidy := by
  unfold elementStep
  refine yields_bind (yields_enter depth) fun depth _ => ?_
  refine yields_bind yields_next fun start _ => yields_bind yields_next fun tagToken proper => ?_
  have rest : IsWord tagToken.word → Yields (do
      let tag := tagToken.word
      let attributes ← g.attributesUpTo depth (← get).ahead.length
      if ← accept (.symbol .slashGreater) then
        return (⟨← markFrom start start, tag, attributes, [], true⟩ : Element)
      else
        let _ ← expect (.symbol .greater)
        let children ← g.childrenUpTo depth tag ((← get).ahead.length + 1)
        return ⟨← markFrom start start, tag, attributes, children, false⟩)
      fun e => e.isClear = true → e.Tidy := by
    intro isWord
    refine yields_bind yields_get fun _ _ => ?_
    refine yields_bind (yields_attributesUpTo promised depth _) fun attributes named => ?_
    refine yields_bind (yields_accept _) fun found _ => ?_
    split
    · refine yields_bind (yields_markFrom start start) fun _ _ => yields_pure fun isClear => ?_
      simp only [Element.isClear, Bool.and_eq_true] at isClear
      exact ⟨isWord, named isClear.1.1, trivial, rfl, fun _ => rfl⟩
    · refine yields_bind (yields_expect _) fun _ _ => yields_bind yields_get fun _ _ => ?_
      refine yields_bind (yields_childrenUpTo promised depth _ _) fun children tidy => ?_
      refine yields_bind (yields_markFrom start start) fun _ _ => yields_pure fun isClear => ?_
      simp only [Element.isClear, Bool.and_eq_true, Bool.not_eq_true'] at isClear
      obtain ⟨⟨clearAttributes, clearChildren⟩, noEqual⟩ := isClear
      exact ⟨isWord, named clearAttributes, tidy clearChildren, noEqual, fun other => nomatch other⟩
  dsimp only at rest ⊢
  split
  · exact yields_bind (yields_unexpected (fun _ => False) _ tagToken) fun _ impossible => impossible.elim
  · next named => exact rest (isWord_of_isName proper (by simpa using named))

omit promised in
theorem tidy_remark {e : Element} (tidy : e.isClear = true → e.Tidy) (m : Mark) :
    ({ e with mark := m } : Element).isClear = true → ({ e with mark := m } : Element).Tidy := by
  obtain ⟨mark, tag, attributes, children, selfClosing⟩ := e
  exact tidy

theorem yields_markup : Yields (g.markup depth) fun e => e.isClear = true → e.Tidy := by
  unfold markup
  refine yields_bind yields_next fun start _ => yields_bind (yields_peekIs _) fun found _ => ?_
  have rest : Yields (do
      let e ← g.element depth
      return Expr.markup { e with mark := { e.mark with span := ← spanFrom start } })
      fun e => e.isClear = true → e.Tidy := by
    refine yields_bind (promised.element depth) fun e tidy => ?_
    exact yields_bind (yields_spanFrom start) fun _ _ => yields_pure (tidy_remark tidy _)
  dsimp only
  split
  · refine yields_bind yields_peek fun t _ => ?_
    exact yields_bind (yields_unexpected (fun _ => True) _ t) fun _ _ => rest
  · exact rest

end Markup

/-! ## Expressions -/

/-- The next token calls what stands before it or names a member of it. -/
def CallsAhead (c : Cursor) : Prop :=
  (c.ahead.headD c.last).kind = .symbol .leftParen ∨ (c.ahead.headD c.last).kind = .symbol .dot

section Expressions

variable {g : Grammar} (promised : g.Promises) (depth : Nat)
include promised

theorem yields_expressions (stop : TokenKind) :
    Yields (g.expressions depth stop) fun es => Expr.areClear es = true → Expr.TidyAll es := by
  refine yields_bind (yields_accept _) fun found _ => ?_
  split
  · exact yields_pure fun _ => trivial
  · refine yields_bind (yields_commaList (promised.expression depth 0 (by decide))) fun es all => ?_
    exact yields_bind (yields_expect _) fun _ _ => yields_pure (exprs_tidy all.2)

theorem yields_lambdaBody : Yields (g.lambdaBody depth) fun b => b.isClear = true → b.Tidy := by
  refine yields_bind (yields_peekIs _) fun found _ => ?_
  split
  · exact yields_bind (yields_block promised depth) fun b tidy => yields_pure tidy
  · exact yields_bind (promised.expression depth 0 (by decide)) fun e tidy => yields_pure tidy

theorem yields_lambda : Yields (g.lambda depth) fun e => e.isClear = true → e.Tidy := by
  refine yields_bind yields_next fun start _ => ?_
  refine yields_bind (yields_parameters promised depth) fun ps params => ?_
  refine yields_bind (yields_typed promised depth) fun result typed => ?_
  refine yields_bind (yields_expect _) fun _ _ => ?_
  refine yields_bind (yields_lambdaBody promised depth) fun body tidy => ?_
  refine yields_bind (yields_markFrom start start) fun _ _ => yields_pure fun isClear => ?_
  simp only [Expr.isClear, Bool.and_eq_true, decide_eq_true_eq] at isClear
  obtain ⟨⟨⟨clearParams, clearResult⟩, clearBody⟩, balanced⟩ := isClear
  exact ⟨params clearParams, typed clearResult, tidy clearBody, balanced⟩

theorem yields_group : Yields (g.group depth) fun e => e.isClear = true → e.Tidy := by
  refine yields_bind yields_next fun _ _ => ?_
  refine yields_bind (promised.expression depth 0 (by decide)) fun e tidy => ?_
  exact yields_bind (yields_expect _) fun _ _ => yields_pure tidy

theorem yields_creation : Yields (g.creation depth) fun e => e.isClear = true → e.Tidy := by
  unfold creation
  refine yields_bind yields_next fun start _ => ?_
  refine yields_bind (promised.type depth) fun type typed => ?_
  dsimp only
  split
  · refine yields_bind yields_get fun c _ => ?_
    exact yields_bind (yields_failAt (fun _ => False) _ c.last) fun _ impossible => impossible.elim
  · next named =>
    refine yields_bind (yields_expect _) fun _ _ => ?_
    refine yields_bind (yields_expressions promised depth _) fun args all => ?_
    refine yields_bind (yields_markFrom start start) fun _ _ => yields_pure fun isClear => ?_
    rw [Expr.isClear, Bool.and_eq_true] at isClear
    refine ⟨?_, typed isClear.1, all isClear.2⟩
    cases named' : type.name? with
    | none => exact absurd (by rw [named']; rfl) named
    | some name => rfl

omit promised in
/-- The word for the superclass is read only in front of a call or a member. -/
theorem parent_run {c c' : Cursor} {e : Expr} (proper : c.Proper) (run : parent c = .ok (e, c')) :
    c'.Proper ∧ e.isParent = true ∧ CallsAhead c' := by
  unfold parent at run
  obtain ⟨t, mid, taken, run⟩ := bind_ok run
  obtain ⟨after, _⟩ := yields_next c t mid proper taken
  obtain ⟨ahead, _, looked, run⟩ := bind_ok run
  cases looked
  dsimp only at run
  split at run
  · cases run
  · next follows =>
    cases run
    refine ⟨after, rfl, ?_⟩
    exact Decidable.or_iff_not_imp_left.2 (by simpa using follows)

theorem yields_unary (op : UnaryOp) : Yields (g.unary depth op) fun e => e.isClear = true → e.Tidy := by
  refine yields_bind yields_next fun start _ => ?_
  refine yields_bind (promised.expression depth _ (by decide)) fun e tidy => ?_
  refine yields_bind (yields_markFrom start start) fun _ _ => yields_pure fun isClear => ?_
  rw [Expr.isClear, Bool.and_eq_true] at isClear
  exact ⟨tidy isClear.1, isClear.2⟩

theorem yieldsAt_operand {t : Token} (proper : t.Proper) (other : t.kind ≠ .keyword .superWord) :
    YieldsAt t (g.operand depth) fun e => e.isClear = true → e.Tidy := by
  unfold operand
  refine yieldsAt_peek_bind ?_
  split
  · next kind => exact yieldsAt_next_bind (yields_pure fun _ => proper.isName kind)
  · next kind => exact yieldsAt_next_bind (yields_pure fun _ => proper.isNumeral kind)
  · next kind => exact yieldsAt_next_bind (yields_pure fun _ => proper.isQuotable kind)
  · next kind => exact yieldsAt_next_bind (yields_pure fun _ => proper.isTruth kind)
  · exact yieldsAt_next_bind (yields_pure fun _ => trivial)
  · exact yieldsAt_next_bind (yields_pure fun _ => trivial)
  · next kind => exact absurd kind other
  · exact yieldsAt_of_yields (yields_creation promised depth)
  · exact yieldsAt_of_yields (yields_markup promised depth)
  · refine yieldsAt_next_bind ?_
    refine yields_bind (yields_expressions promised depth _) fun es all => ?_
    exact yields_bind (yields_markFrom _ _) fun _ _ => yields_pure all
  · refine yieldsAt_of_yields (yields_bind yields_get fun ahead _ => ?_)
    split
    · exact yields_lambda promised depth
    · exact yields_group promised depth
  · exact yieldsAt_of_yields (yields_unary promised depth _)
  · exact yieldsAt_of_yields (yields_unary promised depth _)
  · exact yieldsAt_of_yields (yields_failAt _ _ _)

/-- An operand is tidy, or it is the word for the superclass and a call or a member follows. -/
theorem operand_run {c c' : Cursor} {e : Expr} (proper : c.Proper)
    (run : g.operand depth c = .ok (e, c')) :
    c'.Proper ∧ ((e.isClear = true → e.Tidy) ∨ e.isParent = true ∧ CallsAhead c') := by
  by_cases isSuper : (c.ahead.headD c.last).kind = .keyword .superWord
  · unfold operand at run
    obtain ⟨t, mid, looked, run⟩ := bind_ok run
    cases looked
    rw [isSuper] at run
    obtain ⟨after, isParent, calls⟩ := parent_run proper run
    exact ⟨after, .inr ⟨isParent, calls⟩⟩
  · have holds : (c.ahead.headD c.last).Proper := (yields_peek c _ c proper rfl).2
    obtain ⟨after, tidy⟩ := yieldsAt_operand promised depth holds isSuper c e c' proper rfl run
    exact ⟨after, .inl tidy⟩

/-- What follows a tidy operand, or the word for the superclass in front of a call or a member,
makes a tidy expression of it. -/
theorem yields_infixStep (start : Token) {left : Expr} {kind : Infix}
    (fits : (left.isClear = true → left.Tidy) ∨
      left.isParent = true ∧ (kind = .call ∨ kind = .member)) :
    Yields (g.infixStep depth start left kind) fun e => e.isClear = true → e.Tidy := by
  unfold infixStep
  refine yields_bind yields_next fun head _ => ?_
  cases kind with
  | binary op =>
    have tidy : left.isClear = true → left.Tidy := by simpa using fits
    have weak : Precedence.binary op < 90 := by cases op <;> decide
    refine yields_bind (promised.expression depth _ weak) fun right tidyRight => ?_
    refine yields_bind (yields_markFrom head start) fun _ _ => yields_pure fun isClear => ?_
    simp only [Expr.isClear, Bool.and_eq_true] at isClear
    obtain ⟨⟨⟨clearLeft, clearRight⟩, shelteredLeft⟩, shelteredRight⟩ := isClear
    exact ⟨tidy clearLeft, tidyRight clearRight, shelteredLeft, shelteredRight⟩
  | assign =>
    have tidy : left.isClear = true → left.Tidy := by simpa using fits
    dsimp only
    split
    · exact yields_bind (yields_failAt (fun _ => False) _ head) fun _ impossible => impossible.elim
    · next target =>
      refine yields_bind (promised.expression depth _ (by decide)) fun value tidyValue => ?_
      refine yields_bind (yields_markFrom head start) fun _ _ => yields_pure fun isClear => ?_
      simp only [Expr.isClear, Bool.and_eq_true] at isClear
      obtain ⟨⟨clearTarget, clearValue⟩, sheltered⟩ := isClear
      exact ⟨by simpa using target, tidy clearTarget, tidyValue clearValue, sheltered⟩
  | call =>
    refine yields_bind (yields_expressions promised depth _) fun args all => ?_
    refine yields_bind (yields_markFrom head start) fun _ _ => yields_pure fun isClear => ?_
    simp only [Expr.isClear, Bool.and_eq_true] at isClear
    obtain ⟨⟨clearCallee, clearArgs⟩, sheltered⟩ := isClear
    exact ⟨fits.elim (fun tidy => .inr (tidy clearCallee)) fun parent => .inl parent.1, all clearArgs,
      sheltered⟩
  | index =>
    have tidy : left.isClear = true → left.Tidy := by simpa using fits
    refine yields_bind (promised.expression depth 0 (by decide)) fun i tidyIndex => ?_
    refine yields_bind (yields_expect _) fun _ _ => ?_
    refine yields_bind (yields_markFrom head start) fun _ _ => yields_pure fun isClear => ?_
    simp only [Expr.isClear, Bool.and_eq_true] at isClear
    obtain ⟨⟨clearObject, clearIndex⟩, sheltered⟩ := isClear
    exact ⟨tidy clearObject, tidyIndex clearIndex, sheltered⟩
  | member =>
    refine yields_bind yields_name fun property named => ?_
    refine yields_bind (yields_markFrom head start) fun _ _ => yields_pure fun isClear => ?_
    rw [Expr.isClear, Bool.and_eq_true] at isClear
    exact ⟨fits.elim (fun tidy => .inr (tidy isClear.1)) fun parent => .inl parent.1, named, isClear.2⟩

theorem yields_infixRest (precedence : Nat) (start : Token) {left : Expr}
    (tidy : left.isClear = true → left.Tidy) (fuel : Nat) :
    Yields (g.infixRest depth precedence start left fuel) fun e => e.isClear = true → e.Tidy := by
  induction fuel generalizing left with
  | zero => exact yields_pure tidy
  | succ fuel ih =>
    refine yields_bind yields_peek fun t _ => ?_
    split
    · exact yields_pure tidy
    · split
      · refine yields_bind (yields_infixStep promised depth start (.inl tidy)) fun e tidyStep => ?_
        exact ih tidyStep
      · exact yields_pure tidy

/-- The word for the superclass does not stay alone when a call or a member follows. -/
theorem parent_infixRest {precedence : Nat} (weak : precedence < 90) (start : Token) {left e : Expr}
    {c c' : Cursor} (proper : c.Proper) (isParent : left.isParent = true) (calls : CallsAhead c)
    {fuel : Nat} (run : g.infixRest depth precedence start left (fuel + 1) c = .ok (e, c')) :
    c'.Proper ∧ (e.isClear = true → e.Tidy) := by
  rw [infixRest] at run
  obtain ⟨t, mid, looked, run⟩ := bind_ok run
  cases looked
  rcases calls with call | member
  · rw [call] at run
    have tighter : precedence < Infix.precedence .call := weak
    simp only [Infix.ofKind?, if_pos tighter] at run
    refine yields_bind (yields_infixStep promised depth start (.inr ⟨isParent, .inl rfl⟩))
      (fun e tidy => yields_infixRest promised depth precedence start tidy fuel) c e c' proper run
  · rw [member] at run
    have tighter : precedence < Infix.precedence .member := Nat.lt_trans weak (by decide)
    simp only [Infix.ofKind?, if_pos tighter] at run
    refine yields_bind (yields_infixStep promised depth start (.inr ⟨isParent, .inr rfl⟩))
      (fun e tidy => yields_infixRest promised depth precedence start tidy fuel) c e c' proper run

theorem yields_expressionStep {precedence : Nat} (weak : precedence < 90) :
    Yields (g.expressionStep depth precedence) fun e => e.isClear = true → e.Tidy := by
  unfold expressionStep
  refine yields_bind (yields_enter depth) fun depth _ => yields_bind yields_peek fun start _ => ?_
  intro c e c' proper run
  obtain ⟨left, mid, first, run⟩ := bind_ok run
  obtain ⟨after, fits⟩ := operand_run promised depth proper first
  obtain ⟨_, _, got, run⟩ := bind_ok run
  cases got
  rcases fits with tidy | ⟨isParent, calls⟩
  · exact yields_infixRest promised depth precedence start tidy _ mid e c' after run
  · have some_ahead : 0 < mid.ahead.length := List.length_pos_iff.2 after.some_ahead
    obtain ⟨fuel, enough⟩ := Nat.exists_eq_succ_of_ne_zero (Nat.ne_of_gt some_ahead)
    rw [enough] at run
    exact parent_infixRest promised depth weak start after isParent calls run

end Expressions

/-! ## Declarations -/

/-- Modifiers that are not public and private at once. -/
def NotBoth (m : Modifiers) : Prop := (m.isPublic && m.isPrivate) = false

theorem modifiersFrom_run {m m' : Modifiers} {fuel : Nat} {c c' : Cursor} (proper : c.Proper)
    (enough : c.ahead.length ≤ fuel) (run : modifiersFrom m fuel c = .ok (m', c')) :
    c'.Proper ∧ NotBoth m' := by
  induction fuel generalizing m c with
  | zero => exact absurd (List.length_eq_zero_iff.1 (Nat.le_zero.1 enough)) proper.some_ahead
  | succ fuel ih =>
    have checked : ∀ {m : Modifiers} {t : Token},
        (if m.isPublic && m.isPrivate then failAt .publicAndPrivate t else pure m : Reader Modifiers) c =
          .ok (m', c') → c'.Proper ∧ NotBoth m' := by
      intro m t run
      split at run
      · cases run
      · next ok =>
        cases run
        exact ⟨proper, by simpa [NotBoth] using ok⟩
    rw [modifiersFrom] at run
    obtain ⟨t, mid, looked, run⟩ := bind_ok run
    cases looked
    cases kind : (c.ahead.headD c.last).kind with
    | keyword k =>
      simp only [kind] at run
      by_cases modifier : isModifier k = true
      · rw [if_pos modifier] at run
        cases added : addModifier m k with
        | none =>
          rw [added] at run
          cases run
        | some m'' =>
          rw [added] at run
          obtain ⟨t, mid, taken, run⟩ := bind_ok run
          -- A reserved word is not the last token, so taking it leaves one token less.
          have shorter : mid.ahead.length ≤ fuel := by
            obtain ⟨last, ahead⟩ := c
            match ahead, taken with
            | [], _ => exact absurd rfl proper.some_ahead
            | [t], _ =>
              have ends := proper.ends
              rw [List.getLast?_singleton, Option.map_some] at ends
              rw [List.headD_cons, Option.some.inj ends] at kind
              cases kind
            | t :: t' :: rest, taken =>
              cases taken
              exact Nat.le_of_succ_le_succ enough
          exact ih (next_run proper taken).1 shorter run
      · rw [if_neg modifier] at run
        exact checked run
    | _ =>
      simp only [kind] at run
      exact checked run

theorem yields_modifiers : Yields modifiers NotBoth := by
  intro c m c' proper run
  obtain ⟨_, _, got, run⟩ := bind_ok run
  cases got
  exact modifiersFrom_run proper (Nat.le_succ _) run

/-- What is promised of a member: it is named after its token, and it is tidy if it is clear. -/
def Member.Promised : Member → Prop
  | .field f => f.name.text = f.mark.head.word ∧ (f.isClear = true → f.Tidy)
  | .method m => m.name.text = m.mark.head.word ∧ (m.isClear = true → m.Tidy)

section Declarations

variable {g : Grammar} (promised : g.Promises) (depth : Nat)
include promised

theorem yields_method {start nameToken : Token} {as : List Annotation} {mods : Modifiers}
    (annotated : ∀ a ∈ as, IsWord a.name) (notBoth : NotBoth mods) (proper : nameToken.Proper)
    (named : nameToken.kind = .identifier ∨ nameToken.kind = .keyword .constructorWord) :
    Yields (g.method depth start nameToken as mods) fun m =>
      m.name.text = m.mark.head.word ∧ (m.isClear = true → m.Tidy) := by
  have isNamed : if nameToken.kind == .keyword .constructorWord then nameToken.word = "constructor"
      else IsName nameToken.word := by
    rcases named with identifier | word
    · rw [identifier]
      exact proper.isName identifier
    · rw [word]
      exact proper.isKeyword word
  have tidyMods : Modifiers.Tidy
      (if mods.isPublic || mods.isPrivate then mods else { mods with isPublic := true }) := by
    obtain ⟨isPublic, isPrivate, _, _, _⟩ := mods
    cases isPublic <;> cases isPrivate <;> first | rfl | cases notBoth
  unfold method
  dsimp only
  refine yields_bind yields_typeParameters fun tps typeNames => ?_
  refine yields_bind (yields_expect _) fun _ _ => ?_
  refine yields_bind (yields_parameters promised depth) fun ps params => ?_
  refine yields_bind (yields_typed promised depth) fun result typed => ?_
  refine yields_bind (yields_peekIs _) fun found _ => ?_
  have rest : ∀ body : Option Block, (Block.isClearOption body = true → Block.TidyOption body) →
      Yields (do return {
        mark := ← markFrom nameToken start
        annotations := as
        modifiers := if mods.isPublic || mods.isPrivate then mods else { mods with isPublic := true }
        name := Name.ofToken nameToken
        isConstructor := nameToken.kind == .keyword .constructorWord
        typeParams := tps
        params := ps
        result
        body }) fun m : Method => m.name.text = m.mark.head.word ∧ (m.isClear = true → m.Tidy) := by
    intro body tidy
    refine yields_bind (yields_markFrom nameToken start) fun mark head => yields_pure ⟨?_, fun isClear => ?_⟩
    · rw [head]
      rfl
    · rw [Method.isClear, Bool.and_eq_true, Bool.and_eq_true] at isClear
      exact ⟨annotated, tidyMods, isNamed, typeNames, params isClear.1.1, typed isClear.1.2, tidy isClear.2⟩
  split
  · exact yields_bind (yields_block promised depth) fun b tidy => rest (some b) tidy
  · exact yields_bind (yields_expect _) fun _ _ => rest none fun _ => trivial

theorem yields_field {start nameToken : Token} {as : List Annotation} {mods : Modifiers}
    (annotated : ∀ a ∈ as, IsWord a.name) (notBoth : NotBoth mods) (named : IsName nameToken.word) :
    Yields (g.field depth start nameToken as mods) fun f =>
      f.name.text = f.mark.head.word ∧ (f.isClear = true → f.Tidy) := by
  have tidyMods : Modifiers.Tidy
      (if mods.isPublic || mods.isPrivate then mods else { mods with isPrivate := true }) := by
    obtain ⟨isPublic, isPrivate, _, _, _⟩ := mods
    cases isPublic <;> cases isPrivate <;> first | rfl | cases notBoth
  unfold field
  dsimp only
  refine yields_bind (yields_typed promised depth) fun type typed => ?_
  refine yields_bind (yields_initialiser promised depth) fun init valued => ?_
  refine yields_bind (yields_expect _) fun _ _ => ?_
  refine yields_bind (yields_markFrom nameToken start) fun mark head => yields_pure ⟨?_, fun isClear => ?_⟩
  · rw [head]
    rfl
  · rw [Field.isClear, Bool.and_eq_true] at isClear
    exact ⟨annotated, tidyMods, named, typed isClear.1, valued isClear.2⟩

theorem yields_member : Yields (g.member depth) Member.Promised := by
  unfold member
  refine yields_bind yields_peek fun start _ => ?_
  refine yields_bind yields_annotations fun as annotated => ?_
  refine yields_bind yields_modifiers fun mods notBoth => ?_
  refine yields_peek_bind fun t proper => ?_
  dsimp only
  split
  · exact yieldsAt_of_yields
      (yields_bind (yields_unexpected (fun _ => False) _ t) fun _ impossible => impossible.elim)
  · next named =>
    have isNamed : t.kind = .identifier ∨ t.kind = .keyword .constructorWord :=
      Decidable.or_iff_not_imp_left.2 (by simpa using named)
    refine yieldsAt_next_bind (yields_bind yields_peek fun ahead _ => ?_)
    split
    · exact yields_bind (yields_method promised depth annotated notBoth proper isNamed) fun m tidy =>
        yields_pure tidy
    · split
      · exact yields_bind (yields_unexpected (fun _ => False) _ ahead) fun _ impossible =>
          impossible.elim
      · next notConstructor =>
        have identifier : t.kind = .identifier := by
          rcases isNamed with identifier | word
          · exact identifier
          · exact absurd (by rw [word]; rfl) notConstructor
        exact yields_bind (yields_field promised depth annotated notBoth (proper.isName identifier))
          fun f tidy => yields_pure tidy

theorem yields_membersUpTo (owner : String) (taken : List String) (fuel : Nat) :
    Yields (g.membersUpTo depth owner taken fuel) fun ms =>
      (∀ m ∈ ms, m.Promised) ∧ (ms.map (·.nameToken.word)).Nodup ∧
        ∀ name ∈ taken, name ∉ ms.map (·.nameToken.word) := by
  induction fuel generalizing taken with
  | zero => exact yields_bind yields_peek fun t _ => yields_failAt _ _ t
  | succ fuel ih =>
    refine yields_bind yields_peek fun t _ => ?_
    split
    · exact yields_pure (by simp)
    · split
      · exact yields_unexpected _ _ t
      · refine yields_bind (yields_member promised depth) fun m holds => ?_
        dsimp only
        split
        · exact yields_bind (yields_failAt (fun _ => False) _ _) fun _ impossible => impossible.elim
        · next fresh =>
          refine yields_bind (ih _) fun ms rest => yields_pure ?_
          obtain ⟨all, nodup, apart⟩ := rest
          obtain ⟨own, others⟩ := List.forall_mem_cons.1 apart
          refine ⟨List.forall_mem_cons.2 ⟨holds, all⟩, List.nodup_cons.2 ⟨own, nodup⟩, ?_⟩
          intro name found
          rw [List.map_cons, List.mem_cons, not_or]
          refine ⟨?_, others name found⟩
          rintro rfl
          exact fresh (List.contains_iff_mem.2 found)

omit promised in
/-- Splitting members into fields and methods only reorders their names. -/
theorem names_perm {ms : List Member} (each : ∀ m ∈ ms, m.Promised) :
    ((ms.filterMap fun | .field f => some f | .method _ => none).map (·.name.text) ++
      (ms.filterMap fun | .field _ => none | .method m => some m).map (·.name.text)).Perm
      (ms.map (·.nameToken.word)) := by
  induction ms with
  | nil => exact .nil
  | cons m ms ih =>
    obtain ⟨own, rest⟩ := List.forall_mem_cons.1 each
    cases m with
    | field f =>
      have named : f.name.text = (Member.field f).nameToken.word := own.1
      simp only [List.filterMap_cons, List.map_cons, List.cons_append, named]
      exact (ih rest).cons _
    | method m =>
      have named : m.name.text = (Member.method m).nameToken.word := own.1
      simp only [List.filterMap_cons, List.map_cons, named]
      exact List.perm_middle.trans ((ih rest).cons _)

/-- What is promised of the members of a declaration. -/
def MembersPromised (members : List Field × List Method) : Prop :=
  (Field.areClear members.1 = true → Field.TidyAll members.1) ∧
    (Method.areClear members.2 = true → Method.TidyAll members.2) ∧
    (members.1.map (·.name.text) ++ members.2.map (·.name.text)).Nodup

theorem yields_members (owner : String) : Yields (g.members depth owner) MembersPromised := by
  unfold members
  refine yields_bind (yields_expect _) fun _ _ => yields_bind yields_get fun _ _ => ?_
  refine yields_bind (yields_membersUpTo promised depth owner [] _) fun ms all => ?_
  refine yields_bind yields_next fun _ _ => yields_pure ?_
  obtain ⟨each, nodup, _⟩ := all
  refine ⟨all_tidy (fun _ _ => rfl) trivial (fun _ _ => And.intro) ?_,
    all_tidy (fun _ _ => rfl) trivial (fun _ _ => And.intro) ?_, (names_perm each).nodup_iff.2 nodup⟩
  · intro f found
    obtain ⟨m, mem, isField⟩ := List.mem_filterMap.1 found
    have holds := each m mem
    cases m with
    | field f' =>
      cases isField
      exact holds.2
    | method m => cases isField
  · intro m' found
    obtain ⟨m, mem, isMethod⟩ := List.mem_filterMap.1 found
    have holds := each m mem
    cases m with
    | field f => cases isMethod
    | method m =>
      cases isMethod
      exact holds.2

theorem yields_classDeclaration {start head : Token} {as : List Annotation} (isOpen : Bool)
    (annotated : ∀ a ∈ as, IsWord a.name) :
    Yields (g.classDeclaration depth start head as isOpen) fun d => d.isClear = true → d.Tidy := by
  unfold classDeclaration
  refine yields_bind yields_name fun name named => ?_
  refine yields_bind yields_typeParameters fun tps typeNames => ?_
  refine yields_bind (yields_accept _) fun found _ => ?_
  dsimp only
  have body : ∀ parent interfaces, (Option.all TypeExpr.isPlain parent = true → TypeExpr.TidyOption parent) →
      (TypeExpr.arePlain interfaces = true → TypeExpr.TidyAll interfaces) →
      Yields (do
        let members ← g.members depth name.text
        return (⟨← markFrom head start, as, .ofClass isOpen parent interfaces, name, tps, members.1,
          members.2⟩ : Declaration)) fun d => d.isClear = true → d.Tidy := by
    intro parent interfaces parentTidy interfacesTidy
    refine yields_bind (yields_members promised depth _) fun ms holds => ?_
    refine yields_bind (yields_markFrom head start) fun _ _ => yields_pure fun isClear => ?_
    obtain ⟨fields, methods, nodup⟩ := holds
    simp only [Declaration.isClear, Heading.isPlain, Bool.and_eq_true] at isClear
    obtain ⟨⟨⟨clearParent, clearInterfaces⟩, clearFields⟩, clearMethods⟩ := isClear
    exact ⟨annotated, ⟨parentTidy clearParent, interfacesTidy clearInterfaces⟩, named, typeNames,
      fields clearFields, methods clearMethods, nodup, fun _ other => nomatch other⟩
  have rest : ∀ parent, (Option.all TypeExpr.isPlain parent = true → TypeExpr.TidyOption parent) →
      Yields (do
        let interfaces ← if ← accept (.keyword .implementsWord) then g.types depth else pure []
        let members ← g.members depth name.text
        return (⟨← markFrom head start, as, .ofClass isOpen parent interfaces, name, tps, members.1,
          members.2⟩ : Declaration)) fun d => d.isClear = true → d.Tidy := by
    intro parent parentTidy
    refine yields_bind (yields_accept _) fun found _ => ?_
    dsimp only
    split
    · exact yields_bind (yields_types promised depth) fun ts all => body parent ts parentTidy all.2
    · exact body parent [] parentTidy fun _ => trivial
  split
  · exact yields_bind (promised.type depth) fun t tidy => rest (some t) tidy
  · exact rest none fun _ => trivial

theorem yields_interfaceBody {start head : Token} {as : List Annotation} {name : Name} {tps : List Name}
    {parents : List TypeExpr} (annotated : ∀ a ∈ as, IsWord a.name) (named : IsName name.text)
    (typeNames : ∀ n ∈ tps, IsName n.text)
    (parentsTidy : TypeExpr.arePlain parents = true → TypeExpr.TidyAll parents) :
    Yields (do
      let members ← g.members depth name.text
      match members.2.find? (·.isConstructor) with
      | some m => failAt (.interfaceConstructor name.text) m.mark.head
      | none =>
        return (⟨← markFrom head start, as, .ofInterface parents, name, tps, members.1,
          members.2⟩ : Declaration)) fun d => d.isClear = true → d.Tidy := by
  refine yields_bind (yields_members promised depth _) fun ms holds => ?_
  split
  · exact yields_failAt _ _ _
  · next noConstructor =>
    refine yields_bind (yields_markFrom head start) fun _ _ => yields_pure fun isClear => ?_
    obtain ⟨fields, methods, nodup⟩ := holds
    simp only [Declaration.isClear, Heading.isPlain, Bool.and_eq_true] at isClear
    obtain ⟨⟨clearParents, clearFields⟩, clearMethods⟩ := isClear
    refine ⟨annotated, parentsTidy clearParents, named, typeNames, fields clearFields,
      methods clearMethods, nodup, fun _ _ m found => ?_⟩
    simpa using List.find?_eq_none.1 noConstructor m found

theorem yields_interfaceDeclaration {start head : Token} {as : List Annotation}
    (annotated : ∀ a ∈ as, IsWord a.name) :
    Yields (g.interfaceDeclaration depth start head as) fun d => d.isClear = true → d.Tidy := by
  unfold interfaceDeclaration
  refine yields_bind yields_name fun name named => ?_
  refine yields_bind yields_typeParameters fun tps typeNames => ?_
  refine yields_bind (yields_accept _) fun found _ => ?_
  dsimp only
  split
  · refine yields_bind (yields_types promised depth) fun ts all => ?_
    exact yields_interfaceBody promised depth annotated named typeNames all.2
  · exact yields_interfaceBody promised depth annotated named typeNames fun _ => trivial

theorem yields_declaration : Yields (g.declaration depth) fun d => d.isClear = true → d.Tidy := by
  unfold declaration
  refine yields_bind yields_peek fun start _ => ?_
  refine yields_bind yields_annotations fun as annotated => ?_
  refine yields_bind yields_peek fun t _ => ?_
  split
  · refine yields_bind yields_next fun _ _ => yields_bind (yields_expect _) fun head _ => ?_
    exact yields_classDeclaration promised depth true annotated
  · exact yields_bind yields_next fun head _ => yields_classDeclaration promised depth false annotated
  · exact yields_bind yields_next fun head _ => yields_interfaceDeclaration promised depth annotated
  · exact yields_unexpected _ _ t

end Declarations

/-! ## Statements -/

theorem yields_importNames : Yields importNames fun names => ∀ n ∈ names, IsName n.text := by
  refine yields_bind (yields_accept _) fun found _ => ?_
  split
  · refine yields_bind (yields_commaList yields_name) fun names all => ?_
    refine yields_bind (yields_expect _) fun _ _ => yields_bind (yields_expect _) fun _ _ => ?_
    exact yields_pure all.2
  · exact yields_pure (by simp)

theorem yields_importing : Yields importing fun s => s.isClear = true → s.Tidy := by
  refine yields_bind yields_next fun start _ => ?_
  refine yields_bind yields_importNames fun names all => ?_
  refine yields_bind (yields_expect _) fun path taken => yields_bind (yields_expect _) fun _ _ => ?_
  refine yields_bind (yields_markFrom start start) fun _ _ => yields_pure fun _ => ?_
  exact ⟨all, taken.1.isQuotable taken.2⟩

section Statements

variable {g : Grammar} (promised : g.Promises) (depth : Nat)
include promised

theorem yields_binding : Yields (g.binding depth) fun s => s.isClear = true → s.Tidy := by
  refine yields_bind yields_next fun start _ => yields_bind yields_name fun name named => ?_
  refine yields_bind (yields_typed promised depth) fun type typed => ?_
  refine yields_bind (yields_initialiser promised depth) fun value valued => ?_
  refine yields_bind (yields_expect _) fun _ _ => ?_
  refine yields_bind (yields_markFrom start start) fun _ _ => yields_pure fun isClear => ?_
  rw [Stmt.isClear, Bool.and_eq_true] at isClear
  exact ⟨named, typed isClear.1, valued isClear.2⟩

theorem yields_returning : Yields (g.returning depth) fun s => s.isClear = true → s.Tidy := by
  unfold returning
  refine yields_bind yields_next fun start _ => yields_bind (yields_peekIs _) fun found _ => ?_
  dsimp only
  have rest : ∀ value : Option Expr, (Expr.isClearOption value = true → Expr.TidyOption value) →
      Yields (do
        let _ ← expect (.symbol .semicolon)
        return Stmt.returns (← markFrom start start) value) fun s => s.isClear = true → s.Tidy := by
    intro value tidy
    refine yields_bind (yields_expect _) fun _ _ => ?_
    exact yields_bind (yields_markFrom start start) fun _ _ => yields_pure tidy
  split
  · exact rest none fun _ => trivial
  · exact yields_bind (promised.expression depth 0 (by decide)) fun e tidy => rest (some e) tidy

theorem yields_parenthesised : Yields (g.parenthesised depth) fun e => e.isClear = true → e.Tidy := by
  refine yields_bind (yields_expect _) fun _ _ => ?_
  refine yields_bind (promised.expression depth 0 (by decide)) fun e tidy => ?_
  exact yields_bind (yields_expect _) fun _ _ => yields_pure tidy

theorem yields_branching :
    Yields (g.branching depth) fun s => s.isOtherwise = true ∧ (s.isClear = true → s.Tidy) := by
  unfold branching
  refine yields_bind yields_next fun start _ => ?_
  refine yields_bind (yields_parenthesised promised depth) fun condition tidyCondition => ?_
  refine yields_bind (yields_block promised depth) fun yes tidyYes => ?_
  refine yields_bind (yields_accept _) fun found _ => ?_
  dsimp only
  have rest : ∀ no : Option Stmt, (Stmt.isClearOption no = true → Stmt.TidyOtherwise no) →
      Yields (do return Stmt.branch (← markFrom start start) condition yes no)
        fun s => s.isOtherwise = true ∧ (s.isClear = true → s.Tidy) := by
    intro no tidyNo
    refine yields_bind (yields_markFrom start start) fun _ _ => yields_pure ⟨rfl, fun isClear => ?_⟩
    rw [Stmt.isClear, Bool.and_eq_true, Bool.and_eq_true] at isClear
    exact ⟨tidyCondition isClear.1.1, tidyYes isClear.1.2, tidyNo isClear.2⟩
  split
  · refine yields_peekIs_bind fun t _ => ?_
    split
    · next isIf =>
      refine yieldsAt_bind (promised.branch depth t (beq_iff_eq.1 isIf)) fun s holds => ?_
      exact rest (some s) fun isClear => ⟨holds.1, holds.2 isClear⟩
    · refine yieldsAt_of_yields (yields_bind (yields_block promised depth) fun b tidy => ?_)
      exact rest (some (.block b)) fun isClear => ⟨rfl, tidy isClear⟩
  · exact rest none fun _ => trivial

/-- What is promised of the arms of a selection and its default block. -/
def ArmsPromised (result : List Arm × Option Block) : Prop :=
  (Arm.areClear result.1 = true → Arm.TidyAll result.1) ∧
    (Block.isClearOption result.2 = true → Block.TidyOption result.2)

theorem yields_armsUpTo {fallback : Option Block}
    (tidyFallback : Block.isClearOption fallback = true → Block.TidyOption fallback) (fuel : Nat) :
    Yields (g.armsUpTo depth fallback fuel) ArmsPromised := by
  induction fuel generalizing fallback with
  | zero => exact yields_bind yields_peek fun t _ => yields_failAt _ _ t
  | succ fuel ih =>
    refine yields_bind yields_peek fun t _ => ?_
    split
    · exact yields_pure ⟨fun _ => trivial, tidyFallback⟩
    · split
      · exact yields_unexpected _ _ t
      · split
        · refine yields_bind yields_next fun t _ => ?_
          dsimp only
          split
          · exact yields_bind (yields_failAt (fun _ => False) _ t) fun _ impossible => impossible.elim
          · refine yields_bind (yields_expect _) fun _ _ => ?_
            exact yields_bind (yields_block promised depth) fun b tidy => ih tidy
        · refine yields_bind (promised.expression depth 0 (by decide)) fun value tidyValue => ?_
          refine yields_bind (yields_expect _) fun _ _ => ?_
          refine yields_bind (yields_block promised depth) fun body tidyBody => ?_
          refine yields_bind (yields_markFrom t t) fun mark _ => ?_
          refine yields_bind (ih tidyFallback) fun result holds => yields_pure ⟨fun isClear => ?_, holds.2⟩
          rw [Arm.areClear, Arm.isClear, Bool.and_eq_true, Bool.and_eq_true] at isClear
          exact ⟨⟨tidyValue isClear.1.1, tidyBody isClear.1.2⟩, holds.1 isClear.2⟩

theorem yields_selecting : Yields (g.selecting depth) fun s => s.isClear = true → s.Tidy := by
  refine yields_bind yields_next fun start _ => ?_
  refine yields_bind (yields_parenthesised promised depth) fun subject tidySubject => ?_
  refine yields_bind (yields_expect _) fun _ _ => yields_bind yields_get fun _ _ => ?_
  have noFallback : Block.isClearOption none = true → Block.TidyOption none := fun _ => trivial
  refine yields_bind (yields_armsUpTo promised depth noFallback _) fun result holds => ?_
  refine yields_bind yields_next fun _ _ => ?_
  refine yields_bind (yields_markFrom start start) fun _ _ => yields_pure fun isClear => ?_
  rw [Stmt.isClear, Bool.and_eq_true, Bool.and_eq_true] at isClear
  exact ⟨tidySubject isClear.1.1, holds.1 isClear.1.2, holds.2 isClear.2⟩

theorem yields_looping : Yields (g.looping depth) fun s => s.isClear = true → s.Tidy := by
  refine yields_bind yields_next fun start _ => yields_bind (yields_expect _) fun _ _ => ?_
  refine yields_bind yields_name fun item named => yields_bind (yields_expect _) fun _ _ => ?_
  refine yields_bind (promised.expression depth 0 (by decide)) fun iterable tidyIterable => ?_
  refine yields_bind (yields_expect _) fun _ _ => ?_
  refine yields_bind (yields_block promised depth) fun body tidyBody => ?_
  refine yields_bind (yields_markFrom start start) fun _ _ => yields_pure fun isClear => ?_
  rw [Stmt.isClear, Bool.and_eq_true] at isClear
  exact ⟨named, tidyIterable isClear.1, tidyBody isClear.2⟩

theorem yields_doing : Yields (g.doing depth) fun s => s.isClear = true → s.Tidy := by
  refine yields_bind yields_peek fun start _ => ?_
  refine yields_bind (promised.expression depth 0 (by decide)) fun e tidy => ?_
  refine yields_bind (yields_expect _) fun _ _ => ?_
  exact yields_bind (yields_markFrom start start) fun _ _ => yields_pure tidy

theorem yields_statementStep : Yields (g.statementStep depth) fun s => s.isClear = true → s.Tidy := by
  have declares : Yields (do return Stmt.declares (← g.declaration depth))
      fun s => s.isClear = true → s.Tidy :=
    yields_bind (yields_declaration promised depth) fun d tidy => yields_pure tidy
  refine yields_bind yields_peek fun t _ => ?_
  split
  · exact yields_importing
  · exact declares
  · exact declares
  · exact declares
  · exact declares
  · exact yields_binding promised depth
  · exact yields_returning promised depth
  · exact yields_mono (yields_branching promised depth) fun s holds => holds.2
  · exact yields_selecting promised depth
  · exact yields_looping promised depth
  · exact yields_bind (yields_block promised depth) fun b tidy => yields_pure tidy
  · exact yields_doing promised depth

theorem yieldsAt_statementStep {t : Token} (isIf : t.kind = .keyword .ifWord) :
    YieldsAt t (g.statementStep depth) fun s => s.isOtherwise = true ∧ (s.isClear = true → s.Tidy) := by
  refine yieldsAt_peek_bind ?_
  rw [isIf]
  exact yieldsAt_of_yields (yields_branching promised depth)

end Statements

/-! ## Whole programs -/

/-- The readers with at most `fuel` nested calls. -/
def within (fuel : Nat) : Grammar :=
  ⟨statementWithin fuel, expressionWithin fuel, typeWithin fuel, elementWithin fuel⟩

theorem within_zero : within 0 =
    ⟨fun _ => do failAt .exhausted (← peek), fun _ _ => do failAt .exhausted (← peek),
      fun _ => do failAt .exhausted (← peek), fun _ => do failAt .exhausted (← peek)⟩ := by
  unfold within
  congr 1
  · funext depth
    rw [statementWithin]
  · funext depth precedence
    rw [expressionWithin]
  · funext depth
    rw [typeWithin]
  · funext depth
    rw [elementWithin]

theorem within_succ (fuel : Nat) : within (fuel + 1) =
    ⟨(within fuel).statementStep, (within fuel).expressionStep, (within fuel).typeStep,
      (within fuel).elementStep⟩ := by
  unfold within
  congr 1
  · funext depth
    rw [statementWithin]
  · funext depth precedence
    rw [expressionWithin]
  · funext depth
    rw [typeWithin]
  · funext depth
    rw [elementWithin]

theorem yields_exhausted {I : Cursor → Prop} [Cursor.Keeps I] {α : Type} {P : α → Prop} :
    YieldsIn I (do failAt .exhausted (← peek)) P :=
  yields_bind yields_peek fun t _ => yields_failAt P _ t

/-- Types need no other construct, so what is read as one is kept from wherever it is read. -/
theorem within_typeKept {I : Cursor → Prop} [Cursor.Keeps I] (fuel depth : Nat) :
    YieldsIn I ((within fuel).type depth) (TypeKept depth) := by
  induction fuel generalizing depth with
  | zero =>
    rw [within_zero]
    exact yields_exhausted
  | succ fuel ih =>
    rw [within_succ]
    exact yields_typeStep ih depth

theorem within_promises (fuel : Nat) : (within fuel).Promises := by
  induction fuel with
  | zero =>
    rw [within_zero]
    constructor
    · exact fun depth => yields_exhausted
    · exact fun depth t _ => yieldsAt_of_yields yields_exhausted
    · exact fun depth precedence _ => yields_exhausted
    · exact fun depth => yields_exhausted
    · exact fun depth => yields_exhausted
  | succ fuel ih =>
    rw [within_succ]
    constructor
    · exact fun depth => yields_statementStep ih depth
    · exact fun depth t isIf => yieldsAt_statementStep ih depth isIf
    · exact fun depth precedence weak => yields_expressionStep ih depth weak
    · intro depth
      have kept := within_typeKept (I := Cursor.Proper) (fuel + 1) depth
      rw [within_succ] at kept
      exact yields_mono kept fun _ => And.left
    · exact fun depth => yields_elementStep ih depth

theorem yields_statementsUpTo {g : Grammar} (promised : g.Promises) (fuel : Nat) :
    Yields (g.statementsUpTo fuel) fun ss => ∀ s ∈ ss, s.isClear = true → s.Tidy := by
  induction fuel with
  | zero => exact yields_bind yields_peek fun t _ => yields_failAt _ _ t
  | succ fuel ih =>
    refine yields_bind (yields_peekIs _) fun found _ => ?_
    split
    · exact yields_pure (by simp)
    · refine yields_bind (promised.statement 0) fun s tidy => yields_bind ih fun more all => ?_
      exact yields_pure (List.forall_mem_cons.2 ⟨tidy, all⟩)

theorem yields_program {g : Grammar} (promised : g.Promises) (file : String) :
    Yields (g.program file) fun p => p.file = file ∧ (p.isClear = true → p.Tidy) := by
  unfold program
  refine yields_bind yields_peek fun start _ => yields_bind yields_get fun _ _ => ?_
  refine yields_bind (yields_statementsUpTo promised _) fun ss all => ?_
  dsimp only
  split
  · exact yields_pure ⟨rfl, stmts_tidy all⟩
  · exact yields_bind (yields_spanFrom start) fun _ _ => yields_pure ⟨rfl, stmts_tidy all⟩

end Grammar

theorem Token.significant_ends (tokens : List Token) :
    (Token.significant tokens).getLast?.map Token.kind = some .endOfInput := by
  unfold Token.significant
  dsimp only
  split
  · rfl
  · next last found =>
    split
    · next ends =>
      rw [found, Option.map_some, beq_iff_eq.1 ends]
    · rw [List.getLast?_concat, Option.map_some]

theorem Token.significant_woven {tokens : List Token} (woven : tokens.Pairwise Token.Woven) :
    (Token.significant tokens).Pairwise Token.Woven ∧ ∀ t ∈ Token.significant tokens, t.kind ≠ .comment := by
  have kept : (tokens.filter fun t => t.kind != .comment).Pairwise Token.Woven := woven.filter _
  have noComment : ∀ t ∈ tokens.filter fun t => t.kind != .comment, t.kind ≠ .comment :=
    fun t found => bne_iff_ne.1 (List.mem_filter.1 found).2
  unfold Token.significant
  dsimp only
  split
  · refine ⟨List.pairwise_singleton _ _, fun t found => ?_⟩
    rw [List.mem_singleton.1 found]
    exact ne_of_beq_false rfl
  · split
    · exact ⟨kept, noComment⟩
    · refine ⟨List.pairwise_append.2 ⟨kept, List.pairwise_singleton _ _, fun a _ b found _ noEnd => ?_⟩,
        fun t found => ?_⟩
      · rw [List.mem_singleton.1 found] at noEnd
        exact absurd rfl noEnd
      · rcases List.mem_append.1 found with early | last
        · exact noComment t early
        · rw [List.mem_singleton.1 last]
          exact ne_of_beq_false rfl

/-- A program that is read from the text of a file is named after it, and it is tidy if it is clear. -/
theorem Program.tidy_of_clear {file : String} {source : Text} {p : Program}
    (settled : source.Settled) (read : Program.ofSource file source = .ok p) :
    p.file = file ∧ (p.isClear = true → p.Tidy) := by
  unfold Program.ofSource Token.ofSource at read
  cases scanned : source.tokens with
  | error fault =>
    rw [scanned] at read
    cases read
  | ok tokens =>
    rw [scanned] at read
    have followed := Lexer.scanned_of_scan scanned
    obtain ⟨woven, noComment⟩ := Token.significant_woven (followed.woven settled)
    have proper : Cursor.Proper ⟨(Token.significant tokens).headD default, Token.significant tokens⟩ :=
      ⟨Token.significant_proper (followed.proper settled), woven, noComment,
        Token.significant_ends tokens⟩
    have promised := Grammar.within_promises (Grammar.bound (Token.significant tokens).length)
    have read : Program.ofTokens file tokens = .ok p := read
    unfold Program.ofTokens at read
    dsimp only at read
    split at read
    · cases read
    · next program rest run =>
      cases read
      exact (Grammar.yields_program promised file _ _ _ proper run).2

/-- A program that is read from the text of a file is named after it, and it is tidy if it is plain. -/
theorem Program.tidy_of_ofSource {file : String} {source : Text} {p : Program}
    (settled : source.Settled) (read : Program.ofSource file source = .ok p) :
    p.file = file ∧ (p.isPlain = true → p.Tidy) := by
  obtain ⟨named, tidy⟩ := Program.tidy_of_clear settled read
  exact ⟨named, fun plain => tidy (Program.clear_of_plain plain)⟩

end ClassScript
