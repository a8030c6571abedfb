import ClassScript.Proofs.LockstepGrammar

/-!
# Declarations and statements in step

A declaration ends with its brace, so both inputs have the same. A statement that ends where the first input ends may have
a longer alternative in the second (`statementStep_prolongs`). All constructs are in step, whatever the bounds on nested
calls (`within_inStep`), and so the statements of the first input go on as those of the second (`statementsUpTo_goOn`).
-/

namespace ClassScript

namespace Grammar

open Reader

variable {offset n : Nat} {a e : Parting}

section Parts

variable {g g' : Grammar} (inStep : InStep offset g g') {depth d : Nat}
include inStep

/-! ## Declarations -/

theorem accords_method {start start' nameToken nameToken' : Token} (named : nameToken'.shape = nameToken.shape)
    {as as' : List Annotation} (annotated : as'.map Annotation.bare = as.map Annotation.bare) (mods : Modifiers)
    (early : a ≤ .ending) : Accords offset n true a .never Method.bare (g.method depth start nameToken as mods)
      (g'.method d start' nameToken' as' mods) := by
  refine accords_then (accords_typeParameters early) fun names names' sameNames => ?_
  refine accords_bind (accords_expect rfl) fun _ _ _ => ?_
  refine accords_bind (accords_parameters inStep (by decide)) fun params params' sameParams => ?_
  refine accords_bind (accords_annotatedType inStep (by decide)) fun result result' sameResult => ?_
  have isConstructor : (nameToken'.kind == .keyword .constructorWord) = (nameToken.kind == .keyword .constructorWord) := by
    rw [Token.kind_of_shape named]
  have closing {a : Parting} {body body' : Option Block} (same : Block.bareOption body' = Block.bareOption body) :
      Accords offset n false a a Method.bare
        (do return ⟨← markFrom nameToken start, as,
          if mods.isPublic || mods.isPrivate then mods else { mods with isPublic := true },
          Name.ofToken nameToken, nameToken.kind == .keyword .constructorWord, names, params, result, body⟩)
        (do return ⟨← markFrom nameToken' start', as',
          if mods.isPublic || mods.isPrivate then mods else { mods with isPublic := true },
          Name.ofToken nameToken', nameToken'.kind == .keyword .constructorWord, names', params', result', body'⟩) := by
    refine accords_mark fun m m' => ?_
    rw [Method.bare, Method.bare, annotated, Name.bare_of_shape named, isConstructor, sameNames, sameParams, sameResult, same]
  refine accords_peekIs_bind (b := .ending) (by decide) (by decide) rfl ?_ ?_
  · exact accords_bind (accords_block inStep).weaken fun b b' same => closing (congrArg some same)
  · exact accords_bind (accords_expect rfl).weaken fun _ _ _ => closing rfl

theorem accords_field {start start' nameToken nameToken' : Token} (named : nameToken'.shape = nameToken.shape)
    {as as' : List Annotation} (annotated : as'.map Annotation.bare = as.map Annotation.bare) (mods : Modifiers)
    (early : a ≤ .ending) : Accords offset n true a .never Field.bare (g.field depth start nameToken as mods)
      (g'.field d start' nameToken' as' mods) := by
  refine accords_then (accords_annotatedType inStep early) fun type type' sameType => ?_
  refine accords_then (accords_initialiser inStep (by decide)) fun init init' sameInit => ?_
  refine accords_bind (accords_expect rfl) fun _ _ _ => accords_mark fun m m' => ?_
  rw [Field.bare, Field.bare, annotated, Name.bare_of_shape named, sameType, sameInit]

theorem accords_member (early : a ≤ .ending) :
    Accords offset n true a .never Member.bare (g.member depth) (g'.member d) := by
  refine accords_then (accords_peek (b := .ending) early (by decide)) fun start start' _ => ?_
  refine accords_then (accords_annotations (by decide)) fun as as' annotated => ?_
  refine accords_then (accords_modifiers (by decide)) fun mods mods' sameMods => ?_
  obtain rfl : mods' = mods := sameMods
  refine accords_peek_bind (b := .ending) (by decide) (by decide) (fun t t' same _ => ?_) fun {c _ _} atEnd run => ?_
  · refine accords_guard (fun _ _ _ run => by cases run) (fun _ _ _ run => by cases run) ?_
    refine accords_bind (accords_next (by decide)) fun nameToken nameToken' named => ?_
    refine accords_bind (accords_peek (b := .ending) (by decide) (by decide)) fun ahead ahead' same => ?_
    refine accords_ite (by rw [Token.kind_of_shape same]) (fun _ => ?_) fun _ => ?_
    · exact accords_map (accords_method inStep named annotated mods' (by decide)).weaken fun m m' same =>
        congrArg Member.method same
    · refine accords_guard (fun _ _ _ run => by cases run) (fun _ _ _ run => by cases run) ?_
      exact accords_map (accords_field inStep named annotated mods' (by decide)).weaken fun f f' same =>
        congrArg Member.field same
  · rw [show c.head.kind = .endOfInput from atEnd.kind] at run
    cases run

theorem accords_membersUpTo (owner owner' : String) (taken taken' : List String) (fuel fuel' : Nat) (early : a ≤ .ending) :
    Accords offset n false a .never (List.map Member.bare) (g.membersUpTo depth owner taken fuel)
      (g'.membersUpTo d owner' taken' fuel') := by
  induction fuel generalizing fuel' a taken taken' with
  | zero => exact accords_fails fun _ _ _ run => by cases run
  | succ fuel ih =>
    have alone {c c₁ : Cursor} {v : List Member} (atEnd : Parting.ending.Holds c)
        (run : g.membersUpTo depth owner taken (fuel + 1) c = .ok (v, c₁)) : Parting.never.Holds c₁ := by
      obtain ⟨_, _, looked, run⟩ := bind_ok run
      cases looked
      rw [show (c.ahead.headD c.last).kind = .endOfInput from atEnd.kind] at run
      cases run
    cases fuel' with
    | zero => exact ⟨fun _ _ _ run' => (by cases run'), fun holds run => alone (holds.mono early) run⟩
    | succ fuel' =>
      refine accords_peek_bind early (Nat.le_refl _) (fun t t' same _ => ?_) fun holds run => alone holds run
      have kind := Token.kind_of_shape same
      refine accords_ite (by rw [kind]) (fun _ => accords_pure rfl) fun _ => ?_
      refine accords_ite (by rw [kind]) (fun _ => accords_failAt) fun _ => ?_
      refine accords_bind (accords_member inStep (by decide)).weaken fun m m' same => ?_
      refine accords_guard (fun _ _ _ run => by cases run) (fun _ _ _ run => by cases run) ?_
      refine accords_map (ih _ _ _ (by decide)) fun ms ms' others => ?_
      rw [List.map_cons, List.map_cons, same, others]

theorem accords_members (owner owner' : String) :
    Accords offset n true a .never (fun r : List Field × List Method => (Field.bareAll r.1, Method.bareAll r.2))
      (g.members depth owner) (g'.members d owner') := by
  refine accords_bind (accords_expect rfl) fun _ _ _ => accords_get_bind fun _ _ _ => ?_
  refine accords_closing_bind (by decide) (accords_membersUpTo inStep owner owner' [] [] _ _ (by decide))
    (membersUpTo_stops _) fun ms ms' same => accords_pure (Prod.ext ?_ ?_)
  · rw [Field.bareAll_eq, Field.bareAll_eq]
    exact parts_recovered _ Field.bare (by rintro (_ | _) <;> rfl) same
  · rw [Method.bareAll_eq, Method.bareAll_eq]
    exact parts_recovered _ Method.bare (by rintro (_ | _) <;> rfl) same

section Heads

variable {start start' head head' : Token} {as as' : List Annotation} {name name' : Name} {params params' : List Name}
  (annotated : as'.map Annotation.bare = as.map Annotation.bare)
include annotated

section Bodies

variable (sameName : name'.bare = name.bare) (sameParams : params'.map Name.bare = params.map Name.bare)
include sameName sameParams

theorem accords_classBody (isOpen : Bool) {parent parent' : Option TypeExpr} {interfaces interfaces' : List TypeExpr}
    (sameParent : parent'.map TypeExpr.bare = parent.map TypeExpr.bare)
    (sameInterfaces : TypeExpr.bareAll interfaces' = TypeExpr.bareAll interfaces) :
    Accords offset n false a .never Declaration.bare
      (do
        let members ← g.members depth name.text
        return ⟨← markFrom head start, as, .ofClass isOpen parent interfaces, name, params, members.1, members.2⟩)
      (do
        let members ← g'.members d name'.text
        return ⟨← markFrom head' start', as', .ofClass isOpen parent' interfaces', name', params', members.1, members.2⟩) := by
  refine accords_bind (accords_members inStep _ _).weaken fun r r' same => accords_mark fun m m' => ?_
  obtain ⟨sameFields, sameMethods⟩ := Prod.mk.inj same
  rw [Declaration.bare, Declaration.bare, annotated, Heading.bare, Heading.bare, sameParent, sameInterfaces, sameName,
    sameParams, sameFields, sameMethods]

/-- Where only the second has a constructor, it fails. -/
theorem accords_interfaceBody {parents parents' : List TypeExpr}
    (sameParents : TypeExpr.bareAll parents' = TypeExpr.bareAll parents) :
    Accords offset n false a .never Declaration.bare
      (do
        let members ← g.members depth name.text
        match members.2.find? (·.isConstructor) with
        | some m => failAt (.interfaceConstructor name.text) m.mark.head
        | none => return ⟨← markFrom head start, as, .ofInterface parents, name, params, members.1, members.2⟩)
      (do
        let members ← g'.members d name'.text
        match members.2.find? (·.isConstructor) with
        | some m => failAt (.interfaceConstructor name'.text) m.mark.head
        | none => return ⟨← markFrom head' start', as', .ofInterface parents', name', params', members.1, members.2⟩) := by
  refine accords_bind (accords_members inStep _ _).weaken fun r r' same => ?_
  obtain ⟨sameFields, sameMethods⟩ := Prod.mk.inj same
  cases r.2.find? (·.isConstructor) with
  | some m => exact accords_failAt
  | none =>
    cases r'.2.find? (·.isConstructor) with
    | some m => exact ⟨fun _ _ _ run' => (by cases run'), never_parts⟩
    | none =>
      refine accords_mark fun m m' => ?_
      rw [Declaration.bare, Declaration.bare, annotated, Heading.bare, Heading.bare, sameParents, sameName, sameParams,
        sameFields, sameMethods]

end Bodies

theorem accords_classDeclaration (isOpen : Bool) :
    Accords offset n true a .never Declaration.bare (g.classDeclaration depth start head as isOpen)
      (g'.classDeclaration d start' head' as' isOpen) := by
  refine accords_bind accords_name fun name name' sameName => ?_
  refine accords_bind (accords_typeParameters (by decide)) fun params params' sameParams => ?_
  have implementing {parent parent' : Option TypeExpr} (same : parent'.map TypeExpr.bare = parent.map TypeExpr.bare) :
      Accords offset n false .ending .never Declaration.bare
        (do
          let interfaces ← if ← accept (.keyword .implementsWord) then g.types depth else pure []
          let members ← g.members depth name.text
          return ⟨← markFrom head start, as, .ofClass isOpen parent interfaces, name, params, members.1, members.2⟩)
        (do
          let interfaces ← if ← accept (.keyword .implementsWord) then g'.types d else pure []
          let members ← g'.members d name'.text
          return ⟨← markFrom head' start', as', .ofClass isOpen parent' interfaces, name', params', members.1, members.2⟩) := by
    refine accords_accept_bind (b := .ending) (Nat.le_succ n) (by decide) (by decide) rfl ?_ ?_
    · exact accords_bind (accords_types inStep (by decide)).weaken fun _ _ sameTypes =>
        accords_classBody inStep annotated sameName sameParams isOpen same sameTypes
    · exact accords_classBody inStep annotated sameName sameParams isOpen same rfl
  refine accords_accept_bind (b := .ending) (Nat.le_succ n) (by decide) (by decide) rfl ?_ (implementing rfl)
  exact accords_bind ((inStep.type n depth d).mono (by decide)).weaken fun t t' same => implementing (congrArg some same)

theorem accords_interfaceDeclaration :
    Accords offset n true a .never Declaration.bare (g.interfaceDeclaration depth start head as)
      (g'.interfaceDeclaration d start' head' as') := by
  refine accords_bind accords_name fun name name' sameName => ?_
  refine accords_bind (accords_typeParameters (by decide)) fun params params' sameParams => ?_
  refine accords_accept_bind (b := .ending) (Nat.le_succ n) (by decide) (by decide) rfl ?_ ?_
  · exact accords_bind (accords_types inStep (by decide)).weaken fun _ _ same =>
      accords_interfaceBody inStep annotated sameName sameParams same
  · exact accords_interfaceBody inStep annotated sameName sameParams rfl

end Heads

theorem accords_declaration (early : a ≤ .ending) :
    Accords offset n true a .never Declaration.bare (g.declaration depth) (g'.declaration d) := by
  refine accords_then (accords_peek (b := .ending) early (by decide)) fun start start' _ => ?_
  refine accords_then (accords_annotations (by decide)) fun as as' annotated => ?_
  refine accords_peek_bind (b := .ending) (by decide) (by decide) (fun t t' same _ => ?_) fun {c _ _} atEnd run => ?_
  · rw [Token.kind_of_shape same]
    split
    · refine accords_bind (accords_next (by decide)) fun _ _ _ => ?_
      refine accords_bind (accords_expect rfl).weaken fun head head' _ => ?_
      exact (accords_classDeclaration inStep annotated true).weaken
    · refine accords_bind (accords_next (by decide)) fun head head' _ => ?_
      exact (accords_classDeclaration inStep annotated false).weaken
    · exact accords_bind (accords_next (by decide)) fun head head' _ => (accords_interfaceDeclaration inStep annotated).weaken
    · exact accords_failAt
  · rw [show c.head.kind = .endOfInput from atEnd.kind] at run
    cases run

/-! ## Statements -/

omit inStep in
theorem accords_importNames (early : a ≤ .ending) :
    Accords offset n false a .ending (List.map Name.bare) importNames importNames := by
  refine accords_accept_bind (Nat.le_succ n) early (by decide) rfl ?_ (accords_pure rfl)
  refine accords_bind (accords_commaList fun _ => accords_name.widen (Parting.never_le _)).weaken fun names names' same => ?_
  refine Accords.widen (b := .never) ?_ (by decide)
  exact accords_bind (accords_expect rfl).weaken fun _ _ _ => accords_bind (accords_expect rfl).weaken fun _ _ _ =>
    accords_pure same

omit inStep in
theorem accords_importing (early : a ≤ .ending) : Accords offset n true a .never Stmt.bare importing importing := by
  refine accords_bind (accords_next early) fun start start' _ => ?_
  refine accords_bind (accords_importNames (by decide)) fun names names' sameNames => ?_
  refine accords_bind (accords_expect rfl).weaken fun path path' samePath => ?_
  refine accords_bind (accords_expect rfl).weaken fun _ _ _ => accords_mark fun m m' => ?_
  rw [Stmt.bare, Stmt.bare, sameNames, Quotation.bare, Quotation.bare, Token.contents, Token.contents,
    show path'.lexeme = path.lexeme from congrArg Shape.text samePath]

theorem accords_binding (early : a ≤ .ending) :
    Accords offset n true a .never Stmt.bare (g.binding depth) (g'.binding d) := by
  refine accords_bind (accords_next early) fun start start' _ => accords_bind accords_name.weaken fun name name' sameName => ?_
  refine accords_bind (accords_annotatedType inStep (by decide)) fun type type' sameType => ?_
  refine accords_bind (accords_initialiser inStep (by decide)) fun value value' sameValue => ?_
  refine accords_bind (accords_expect rfl).weaken fun _ _ _ => accords_mark fun m m' => ?_
  rw [Stmt.bare, Stmt.bare, sameName, sameType, sameValue]

theorem accords_returning (early : a ≤ .ending) :
    Accords offset n true a .never Stmt.bare (g.returning depth) (g'.returning d) := by
  refine accords_bind (accords_next early) fun start start' _ => ?_
  have closing {a : Parting} {value value' : Option Expr} (same : Expr.bareOption value' = Expr.bareOption value) :
      Accords offset n false a .never Stmt.bare
        (do let _ ← expect (.symbol .semicolon); return .returns (← markFrom start start) value)
        (do let _ ← expect (.symbol .semicolon); return .returns (← markFrom start' start') value') := by
    refine accords_bind (accords_expect rfl).weaken fun _ _ _ => accords_mark fun m m' => ?_
    rw [Stmt.bare, Stmt.bare, same]
  refine accords_peekIs_bind (b := .ending) (by decide) (by decide) rfl (closing rfl) ?_
  exact accords_bind (accords_expression inStep (by decide)).weaken fun e e' same => closing (congrArg some same)

theorem accords_parenthesised :
    Accords offset n true a .never Expr.bare (g.parenthesised depth) (g'.parenthesised d) := by
  refine accords_bind (accords_expect rfl) fun _ _ _ => ?_
  refine accords_bind (accords_expression inStep (by decide)).weaken fun e e' same => ?_
  exact accords_bind (accords_expect rfl).weaken fun _ _ _ => accords_pure same

theorem accords_branching (early : a ≤ .ending) :
    Accords offset n true a .ending Stmt.bare (g.branching depth) (g'.branching d) := by
  refine accords_bind (accords_next early) fun start start' _ => ?_
  refine accords_bind (accords_parenthesised inStep).weaken fun condition condition' sameCondition => ?_
  refine accords_bind (accords_block inStep).weaken fun yes yes' sameYes => ?_
  have closing {a : Parting} {no no' : Option Stmt} (same : Stmt.bareOption no' = Stmt.bareOption no) :
      Accords offset n false a a Stmt.bare (do return .branch (← markFrom start start) condition yes no)
        (do return .branch (← markFrom start' start') condition' yes' no') := by
    refine accords_mark fun m m' => ?_
    rw [Stmt.bare, Stmt.bare, sameCondition, sameYes, same]
  refine accords_accept_bind (b := .ending) (Nat.le_succ n) (by decide) (by decide) rfl ?_ (closing rfl)
  refine accords_peekIs_bind (b := .ending) (by decide) (by decide) rfl ?_ ?_
  · exact accords_bind ((inStep.statement n depth d).mono (by decide)).weaken fun s s' same => closing (congrArg some same)
  · refine accords_bind ((accords_block inStep).weaken.widen (Parting.never_le _)) fun b b' same => closing ?_
    rw [Stmt.bareOption, Stmt.bareOption, Stmt.bare, Stmt.bare, same]

theorem accords_armsUpTo {fallback fallback' : Option Block} (same : Block.bareOption fallback' = Block.bareOption fallback)
    (fuel fuel' : Nat) (early : a ≤ .ending) :
    Accords offset n false a .never (fun r : List Arm × Option Block => (Arm.bareAll r.1, Block.bareOption r.2))
      (g.armsUpTo depth fallback fuel) (g'.armsUpTo d fallback' fuel') := by
  induction fuel generalizing fuel' a fallback fallback' with
  | zero => exact accords_fails fun _ _ _ run => by cases run
  | succ fuel ih =>
    have alone {c c₁ : Cursor} {v : List Arm × Option Block} (atEnd : Parting.ending.Holds c)
        (run : g.armsUpTo depth fallback (fuel + 1) c = .ok (v, c₁)) : Parting.never.Holds c₁ := by
      obtain ⟨_, _, looked, run⟩ := bind_ok run
      cases looked
      rw [show (c.ahead.headD c.last).kind = .endOfInput from atEnd.kind] at run
      cases run
    cases fuel' with
    | zero => exact ⟨fun _ _ _ run' => (by cases run'), fun holds run => alone (holds.mono early) run⟩
    | succ fuel' =>
      refine accords_peek_bind early (Nat.le_refl _) (fun t t' sameShape _ => ?_) fun holds run => alone holds run
      have kind := Token.kind_of_shape sameShape
      refine accords_ite (by rw [kind]) (fun _ => accords_pure (Prod.ext rfl same)) fun _ => ?_
      refine accords_ite (by rw [kind]) (fun _ => accords_failAt) fun _ => ?_
      refine accords_ite (by rw [kind]) (fun _ => ?_) fun _ => ?_
      · refine accords_bind (accords_next (by decide)).weaken fun _ _ _ => ?_
        refine accords_guard (fun _ _ _ run => by cases run) (fun _ _ _ run => by cases run) ?_
        refine accords_bind (accords_expect rfl).weaken fun _ _ _ => ?_
        refine accords_bind (accords_block inStep).weaken fun b b' same => ?_
        have sameFallback : Block.bareOption (some b') = Block.bareOption (some b) := congrArg some same
        exact ih sameFallback fuel' (by decide)
      · refine accords_bind (accords_expression inStep (by decide)).weaken fun value value' sameValue => ?_
        refine accords_bind (accords_expect rfl).weaken fun _ _ _ => ?_
        refine accords_bind (accords_block inStep).weaken fun body body' sameBody => accords_markFrom_bind fun m m' => ?_
        refine accords_map (ih same fuel' (by decide)) fun r r' same => ?_
        obtain ⟨sameArms, sameFallback⟩ := Prod.mk.inj same
        rw [Arm.bareAll, Arm.bareAll, sameValue, sameBody, sameArms, sameFallback]

theorem accords_selecting (early : a ≤ .ending) :
    Accords offset n true a .never Stmt.bare (g.selecting depth) (g'.selecting d) := by
  refine accords_bind (accords_next early) fun start start' _ => ?_
  refine accords_bind (accords_parenthesised inStep).weaken fun subject subject' sameSubject => ?_
  refine accords_bind (accords_expect rfl).weaken fun _ _ _ => accords_get_bind fun _ _ _ => ?_
  refine accords_closing_bind (by decide) (accords_armsUpTo inStep rfl _ _ (by decide)) (armsUpTo_stops _)
    fun r r' same => accords_mark fun m m' => ?_
  obtain ⟨sameArms, sameFallback⟩ := Prod.mk.inj same
  rw [Stmt.bare, Stmt.bare, sameSubject, sameArms, sameFallback]

theorem accords_looping (early : a ≤ .ending) :
    Accords offset n true a .never Stmt.bare (g.looping depth) (g'.looping d) := by
  refine accords_bind (accords_next early) fun start start' _ => accords_bind (accords_expect rfl).weaken fun _ _ _ => ?_
  refine accords_bind accords_name.weaken fun item item' sameItem => accords_bind (accords_expect rfl).weaken fun _ _ _ => ?_
  refine accords_bind (accords_expression inStep (by decide)).weaken fun iterable iterable' sameIterable => ?_
  refine accords_bind (accords_expect rfl).weaken fun _ _ _ => ?_
  refine accords_bind (accords_block inStep).weaken fun body body' sameBody => accords_mark fun m m' => ?_
  rw [Stmt.bare, Stmt.bare, sameItem, sameIterable, sameBody]

theorem accords_doing (early : a ≤ .ending) :
    Accords offset n true a .never Stmt.bare (g.doing depth) (g'.doing d) := by
  refine accords_then (accords_peek (b := .ending) early (by decide)) fun start start' _ => ?_
  refine accords_bind (accords_expression inStep (by decide)) fun e e' same => ?_
  refine accords_bind (accords_expect rfl).weaken fun _ _ _ => accords_mark fun m m' => ?_
  rw [Stmt.bare, Stmt.bare, same]

theorem accords_statementStep :
    Accords offset n true .ending .ending Stmt.bare (g.statementStep depth) (g'.statementStep d) := by
  have declares : Accords offset n true .never .ending Stmt.bare (do return .declares (← g.declaration depth))
      (do return .declares (← g'.declaration d)) :=
    (accords_map (accords_declaration inStep (Parting.never_le _)) fun x x' same => by
      rw [Stmt.bare, Stmt.bare, same]).widen (Parting.never_le _)
  refine accords_peek_bind (b := .ending) (by decide) (by decide) (fun t t' same _ => ?_) fun {c _ _} atEnd run => ?_
  · rw [Token.kind_of_shape same]
    split
    · exact (accords_importing (by decide)).widen (by decide)
    · exact declares
    · exact declares
    · exact declares
    · exact declares
    · exact (accords_binding inStep (by decide)).widen (by decide)
    · exact (accords_returning inStep (by decide)).widen (by decide)
    · exact accords_branching inStep (by decide)
    · exact (accords_selecting inStep (by decide)).widen (by decide)
    · exact (accords_looping inStep (by decide)).widen (by decide)
    · exact (accords_map (accords_block inStep) fun b b' same => by rw [Stmt.bare, Stmt.bare, same]).widen (Parting.never_le _)
    · exact (accords_doing inStep (by decide)).widen (by decide)
  · rw [show c.head.kind = .endOfInput from atEnd.kind] at run
    exact ((accords_doing (n := 0) (d := d) inStep (by decide : Parting.ending ≤ .ending)).parted atEnd run).elim

/-- What is read for the alternative of a branch: none, or a branch or a block behind its word. -/
inductive Alternative (g : Grammar) (depth : Nat) (c c₁ : Cursor) : Option Stmt → Prop
  | absent : c.head.kind ≠ .keyword .elseWord → Alternative g depth c c₁ none
  | branch {t : Token} {mid : Cursor} {no : Stmt} : c.head.kind = .keyword .elseWord → next c = .ok (t, mid) →
    mid.head.kind = .keyword .ifWord → g.statement depth mid = .ok (no, c₁) → Alternative g depth c c₁ (some no)
  | block {t : Token} {mid : Cursor} {b : Block} : c.head.kind = .keyword .elseWord → next c = .ok (t, mid) →
    mid.head.kind ≠ .keyword .ifWord → g.block depth mid = .ok (b, c₁) → Alternative g depth c c₁ (some (.block b))

omit inStep in
/-- What a branch is read from. -/
theorem branching_run {c c₁ : Cursor} {s : Stmt} (run : g.branching depth c = .ok (s, c₁)) :
    ∃ m condition yes no start begun opened mid, next c = .ok (start, begun) ∧
      g.parenthesised depth begun = .ok (condition, opened) ∧ g.block depth opened = .ok (yes, mid) ∧
        Alternative g depth mid c₁ no ∧ s = .branch m condition yes no := by
  obtain ⟨start, begun, taken, run⟩ := bind_ok run
  obtain ⟨condition, opened, asked, run⟩ := bind_ok run
  obtain ⟨yes, mid, first, run⟩ := bind_ok run
  obtain ⟨goesOn, behind, accepted, run⟩ := bind_ok run
  cases goesOn with
  | false =>
    obtain ⟨_, _, absent, run⟩ := bind_ok run
    cases absent
    cases run
    exact ⟨_, condition, yes, none, start, begun, opened, mid, taken, asked, first, .absent (accept_still accepted).2, rfl⟩
  | true =>
    obtain ⟨isElse, _, took⟩ := accept_taken accepted
    obtain ⟨_, _, looked, run⟩ := bind_ok run
    cases looked
    cases isIf : (behind.ahead.headD behind.last).kind == .keyword .ifWord with
    | true =>
      rw [isIf] at run
      obtain ⟨no, _, nested, run⟩ := bind_ok run
      cases run
      exact ⟨_, condition, yes, some no, start, begun, opened, mid, taken, asked, first,
        .branch isElse took (beq_iff_eq.1 isIf) nested, rfl⟩
    | false =>
      rw [isIf] at run
      obtain ⟨b, _, block, run⟩ := bind_ok run
      cases run
      exact ⟨_, condition, yes, some (.block b), start, begun, opened, mid, taken, asked, first,
        .block isElse took (ne_of_beq_false isIf) block, rfl⟩

/-- The alternative of a branch at the end of the first input is the same in the second, or is there only in the second,
or is longer there. -/
theorem alternative_prolongs {c c' c₁ c₁' : Cursor} {no no' : Option Stmt} (alike : c.Alike offset c')
    (read : Alternative g depth c c₁ no) (atEnd : c₁.AtEnd) (read' : Alternative g' d c' c₁' no') :
    Stmt.bareOption no' = Stmt.bareOption no ∨ (no = none ∧ ∃ s', no' = some s') ∨
      ∃ s s', no = some s ∧ no' = some s' ∧ s.bare.Prolongs s'.bare := by
  cases read with
  | absent =>
    cases read' with
    | absent => exact .inl rfl
    | branch => exact .inr (.inl ⟨rfl, _, rfl⟩)
    | block => exact .inr (.inl ⟨rfl, _, rfl⟩)
  | branch isElse taken isIf nested =>
    obtain ⟨same, behind⟩ := alike.taken (by rw [isElse]; decide)
    cases read' with
    | absent other => exact absurd (same.trans isElse) other
    | branch _ taken' _ nested' =>
      rcases inStep.prolongs (behind taken taken') nested atEnd nested' with same | longer
      · exact .inl (congrArg some same)
      · exact .inr (.inr ⟨_, _, rfl, rfl, longer⟩)
    | block _ taken' other =>
      obtain ⟨same, -⟩ := (behind taken taken').taken (by rw [isIf]; decide)
      exact absurd (same.trans isIf) other
  | block isElse taken other block =>
    obtain ⟨same, behind⟩ := alike.taken (by rw [isElse]; decide)
    cases read' with
    | absent other' => exact absurd (same.trans isElse) other'
    | branch _ taken' isIf =>
      have alike := behind taken taken'
      obtain atElse | ⟨inside, -⟩ := alike.step
      · exact ((accords_block (n := 0) (d := 0) inStep).parted (a := .ending) atElse block).elim
      · exact absurd ((alike.taken inside).1.symm.trans isIf) other
    | block _ taken' _ block' =>
      have both := (accords_block (a := .never) inStep).aligned (behind taken taken') (Nat.le_refl _) block block'
      obtain ⟨same, -, -⟩ := both.resolve_right id
      refine .inl ?_
      rw [Stmt.bareOption, Stmt.bareOption, Stmt.bare, Stmt.bare, same]

/-- A branch at the end of the first input may have an alternative, or a longer one, in the second. -/
theorem branching_prolongs {c c' c₁ c₁' : Cursor} {s s' : Stmt} (alike : c.Alike offset c')
    (run : g.branching depth c = .ok (s, c₁)) (atEnd : c₁.AtEnd) (run' : g'.branching d c' = .ok (s', c₁')) :
    s'.bare = s.bare ∨ s.bare.Prolongs s'.bare := by
  obtain ⟨_, condition, yes, no, _, _, _, _, taken, asked, first, read, rfl⟩ := branching_run run
  obtain ⟨_, condition', yes', no', _, _, _, _, taken', asked', first', read', rfl⟩ := branching_run run'
  -- Up to the block, both have read alike.
  obtain atFirst | ⟨inside, -⟩ := alike.step
  · exact ((accords_parenthesised (n := 0) (d := 0) inStep).parted (a := .ending) (atFirst.next taken) asked).elim
  obtain ⟨sameCondition, alike, -⟩ := ((accords_parenthesised (a := .never) inStep).aligned
    ((alike.taken inside).2 taken taken') (Nat.le_refl _) asked asked').resolve_right id
  obtain ⟨sameYes, alike, -⟩ := ((accords_block (a := .never) inStep).aligned alike (Nat.le_refl _) first
    first').resolve_right id
  rw [Stmt.bare, Stmt.bare, sameCondition, sameYes]
  obtain same | ⟨rfl, s', rfl⟩ | ⟨s, s', rfl, rfl, longer⟩ := alternative_prolongs inStep alike read atEnd read'
  · exact .inl (by rw [same])
  · exact .inr .alternative
  · exact .inr (.nested longer)

/-- A statement at the end of the first input is the same in the second, or has a longer alternative there. -/
theorem statementStep_prolongs {c c' c₁ c₁' : Cursor} {s s' : Stmt} (alike : c.Alike offset c')
    (run : g.statementStep depth c = .ok (s, c₁)) (atEnd : c₁.AtEnd) (run' : g'.statementStep d c' = .ok (s', c₁')) :
    s'.bare = s.bare ∨ s.bare.Prolongs s'.bare := by
  have tight {x x' : Reader Stmt} (accords : Accords offset c.ahead.length true .never .never Stmt.bare x x')
      (run : x c = .ok (s, c₁)) (run' : x' c' = .ok (s', c₁')) : s'.bare = s.bare ∨ s.bare.Prolongs s'.bare := by
    obtain ⟨same, -⟩ | never := accords.aligned alike (Nat.le_refl _) run run'
    · exact .inl same
    · exact never.elim
  have declares (run : (do return .declares (← g.declaration depth) : Reader Stmt) c = .ok (s, c₁))
      (run' : (do return .declares (← g'.declaration d) : Reader Stmt) c' = .ok (s', c₁')) :
      s'.bare = s.bare ∨ s.bare.Prolongs s'.bare :=
    tight (accords_map (accords_declaration inStep (Parting.never_le _)) fun x x' same => by
      rw [Stmt.bare, Stmt.bare, same]) run run'
  obtain ⟨_, _, looked, run⟩ := bind_ok run
  cases looked
  obtain ⟨_, _, looked, run'⟩ := bind_ok run'
  cases looked
  obtain atFirst | ⟨-, same, -⟩ := alike.step
  · rw [show (c.ahead.headD c.last).kind = .endOfInput from atFirst.kind] at run
    exact ((accords_doing (n := 0) (d := 0) inStep (Nat.le_refl _)).parted (a := .ending) atFirst run).elim
  rw [show (c'.ahead.headD c'.last).kind = (c.ahead.headD c.last).kind from Token.kind_of_shape same.shape] at run'
  generalize (c.ahead.headD c.last).kind = k at run run'
  split at run
  · exact tight (accords_importing (Parting.never_le _)) run run'
  · exact declares run run'
  · exact declares run run'
  · exact declares run run'
  · exact declares run run'
  · exact tight (accords_binding inStep (Parting.never_le _)) run run'
  · exact tight (accords_returning inStep (Parting.never_le _)) run run'
  · exact branching_prolongs inStep alike run atEnd run'
  · exact tight (accords_selecting inStep (Parting.never_le _)) run run'
  · exact tight (accords_looping inStep (Parting.never_le _)) run run'
  · exact tight (accords_map (accords_block inStep) fun b b' same => by rw [Stmt.bare, Stmt.bare, same]) run run'
  · split at run'
    all_goals first
      | contradiction
      | exact tight (accords_doing inStep (Parting.never_le _)) run run'

end Parts

/-! ## Every grammar -/

/-- Grammars are in step, whatever their bounds on nested calls. -/
theorem within_inStep (fuel fuel' : Nat) : InStep offset (within fuel) (within fuel') := by
  induction fuel generalizing fuel' with
  | zero =>
    rw [within_zero]
    refine ⟨fun _ _ _ => ?_, fun _ _ _ _ _ _ => ?_, fun _ _ _ => ?_, fun _ _ _ => ?_, ?_, ?_, ?_⟩
    · exact accords_fails fun _ _ _ run => by cases run
    · exact accords_fails fun _ _ _ run => by cases run
    · exact accords_fails fun _ _ _ run => by cases run
    · exact accords_fails fun _ _ _ run => by cases run
    · exact fun run => by cases run
    · exact fun _ _ run => by cases run
    · exact fun _ run => by cases run
  | succ fuel ih =>
    have starts {depth precedence : Nat} {c c₁ : Cursor} {e : Expr}
        (run : (within fuel).expressionStep depth precedence c = .ok (e, c₁)) : startsExpr c.head.kind = true := by
      obtain ⟨_, _, entered, run⟩ := bind_ok run
      cases enter_run entered
      obtain ⟨_, _, looked, run⟩ := bind_ok run
      cases looked
      obtain ⟨_, _, operand, -⟩ := bind_ok run
      exact startsExpr_of_operand operand
    rw [within_succ fuel]
    cases fuel' with
    | zero =>
      refine ⟨fun _ _ _ => ?_, fun _ _ _ _ _ loose => ?_, fun _ _ _ => ?_, fun _ _ _ => ?_, starts,
        parameter_of_expressionStep (ih 0), fun _ _ _ run' => ?_⟩
      · exact (accords_statementStep (d := 0) (ih 0)).alone fun _ _ _ run => by rw [within_zero] at run; cases run
      · exact (accords_expressionStep (d := 0) (ih 0) loose).alone fun _ _ _ run => by rw [within_zero] at run; cases run
      · exact (accords_typeStep (d := 0) (ih 0)).alone fun _ _ _ run => by rw [within_zero] at run; cases run
      · exact (accords_elementStep (d := 0) (ih 0)).alone fun _ _ _ run => by rw [within_zero] at run; cases run
      · rw [within_zero] at run'
        cases run'
    | succ fuel' =>
      refine ⟨fun _ _ _ => ?_, fun _ _ _ _ _ loose => ?_, fun _ _ _ => ?_, fun _ _ _ => ?_, starts,
        parameter_of_expressionStep (ih (fuel' + 1)), fun alike run atEnd run' => ?_⟩
      · rw [within_succ fuel']
        exact accords_statementStep (ih fuel')
      · rw [within_succ fuel']
        exact accords_expressionStep (ih fuel') loose
      · rw [within_succ fuel']
        exact accords_typeStep (ih fuel')
      · rw [within_succ fuel']
        exact accords_elementStep (ih fuel')
      · rw [within_succ fuel'] at run'
        exact statementStep_prolongs (ih fuel') alike run atEnd run'

/-- There are no statements at the end of the input. -/
theorem statementsUpTo_atEnd {g : Grammar} (fuel : Nat) {c c₁ : Cursor} {ss : List Stmt} (atEnd : c.AtEnd)
    (run : g.statementsUpTo fuel c = .ok (ss, c₁)) : ss = [] := by
  cases fuel with
  | zero => cases run
  | succ fuel =>
    obtain ⟨_, _, looked, run⟩ := bind_ok run
    cases looked
    rw [show (c.ahead.headD c.last).kind = .endOfInput from atEnd.kind] at run
    cases run
    rfl

/-- The statements up to the end of the first input go on as those up to the end of the second. -/
theorem statementsUpTo_goOn {g g' : Grammar} (inStep : InStep offset g g') {fuel fuel' : Nat} {c c' c₁ c₁' : Cursor}
    {ss ss' : List Stmt} (alike : c.Alike offset c') (run : g.statementsUpTo fuel c = .ok (ss, c₁))
    (run' : g'.statementsUpTo fuel' c' = .ok (ss', c₁')) : Stmt.GoOn (ss.map Stmt.bare) (ss'.map Stmt.bare) := by
  induction fuel generalizing fuel' c c' ss ss' with
  | zero => cases run
  | succ fuel ih =>
    cases fuel' with
    | zero => cases run'
    | succ fuel' =>
      obtain ⟨_, _, looked, run⟩ := bind_ok run
      cases looked
      obtain ⟨_, _, looked', run'⟩ := bind_ok run'
      cases looked'
      obtain atEnd | ⟨inside, same, -⟩ := alike.step
      · rw [statementsUpTo_atEnd (fuel + 1) atEnd run]
        exact .more
      · rw [show ((c.ahead.headD c.last).kind == .endOfInput) = false from beq_eq_false_iff_ne.2 inside] at run
        rw [show ((c'.ahead.headD c'.last).kind == .endOfInput) = false from
          beq_eq_false_iff_ne.2 fun atEnd => inside ((Token.kind_of_shape same.shape).symm.trans atEnd)] at run'
        obtain ⟨s, mid, read, run⟩ := bind_ok run
        obtain ⟨rest, _, others, run⟩ := bind_ok run
        cases run
        obtain ⟨s', mid', read', run'⟩ := bind_ok run'
        obtain ⟨rest', _, others', run'⟩ := bind_ok run'
        cases run'
        rw [List.map_cons, List.map_cons]
        obtain ⟨same, behind, -⟩ | atEnd := (inStep.statement _ 0 0).aligned alike (Nat.le_refl _) read read'
        · rw [same]
          exact .cons (ih behind others others')
        · rw [statementsUpTo_atEnd _ atEnd others]
          rcases inStep.prolongs alike read atEnd read' with same | longer
          · rw [same]
            exact .cons .more
          · exact .prolonged longer

end Grammar

end ClassScript
