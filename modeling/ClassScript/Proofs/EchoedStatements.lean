import ClassScript.Proofs.EchoedGrammar

/-!
# Declarations and statements are read again elsewhere

The constructs that hold expressions, and the grammar as a whole: what it reads with some bound on nested calls, it reads
again with any bound that is not below the number of the tokens (`within_echo`).
-/

namespace ClassScript

namespace Grammar

open Reader

variable {tokens : List Token} {length : Nat} {r : Relocation} {good : Expr → Prop} {n a : Nat} {g g' : Grammar}
  {R : TokenKind → TokenKind → Prop}

/-! ## Members -/

theorem echoes_modifiersFrom (row : Token.Row tokens length) (m : Modifiers) (fuel fuel' : Nat) :
    EchoesWhen tokens r (·.length ≤ fuel) (·.length ≤ fuel') Eq none false a a n (modifiersFrom m fuel)
      (modifiersFrom m fuel') id fun _ => True := by
  refine echoes_loop modifiersFrom modifiersFrom (fun _ _ => True) (fun fuel fuel' ih m => ?_) fuel fuel' m
  refine echoesWhen_look_bind fun t t' _ same => ?_
  rw [same]
  split
  · next k kind =>
    split
    · split
      · exact echoes_failAt
      · next m' _ =>
        have item : EchoesAt tokens r t Eq none true a a n next next r.token fun u => u = t :=
          echoes_next row (by rw [kind]; nofun) (kind ▸ turns_other (by simp) a)
        exact echoes_item_bind (item.mono (fun _ => id) (fun _ => And.right) (fun _ => id) (fun _ _ => id) id
          (Nat.le_refl n)) (fun _ => rfl) (fun _ _ => ih m') (fun _ => And.left) fun _ => And.left
    · split
      · exact echoes_failAt
      · exact echoes_pure rfl trivial
  · split
    · exact echoes_failAt
    · exact echoes_pure rfl trivial

theorem echoes_modifiers (row : Token.Row tokens length) :
    Echoes tokens r Eq none false a a n modifiers modifiers id fun _ => True :=
  echoes_get_bind fun _ _ => (echoes_modifiersFrom row {} _ _).mono (fun _ => id) (fun _ few => Nat.le_succ_of_le few)
    (fun _ few => Nat.le_succ_of_le few) (fun _ _ => id) id (Nat.le_refl n)

/-- The member in another place. -/
def Member.moved (f : Span → Span) : Member → Member
  | .field x => .field (x.moved f)
  | .method m => .method (m.moved f)

/-- The expressions in a member. -/
def Member.walk : Member → List Expr
  | .field f => Field.walkAll [f]
  | .method m => Method.walkAll [m]

theorem Member.nameToken_moved (f : Span → Span) (m : Member) : (m.moved f).nameToken = m.nameToken.moved f := by
  cases m with
  | field x => cases x; simp [moved, nameToken, Field.moved, Mark.moved]
  | method m => cases m; simp [moved, nameToken, Method.moved, Mark.moved]

section Nested

variable (row : Token.Row tokens length) (echo : Echo tokens r good n g g') {depth depth' : Nat}
  (shallow : depth' ≤ depth)
include row echo shallow

section Started

variable (start nameToken : Token) (annotations : List Annotation) (mods : Modifiers)

theorem echoes_method : Echoes tokens r R (some start) true a a n (g.method depth start nameToken annotations mods)
    (g'.method depth' (r.token start) (r.token nameToken) (annotations.map ( Annotation.moved r.place)) mods)
    (Method.moved r.place) fun m => ∀ e ∈ Method.walkAll [m], good e := by
  unfold method
  refine echoes_bind (echoes_typeParameters row) (fun _ => rfl) fun typeParams _ => ?_
  refine echoes_expect_bind row (by decide) (turns_left a) fun _ _ _ => ?_
  refine echoes_bind (echoes_parameters (R := Eq) row echo shallow) (fun _ => rfl) fun params goods => ?_
  refine echoes_bind (echoes_annotatedType row echo shallow) (fun _ => rfl) fun result _ => ?_
  have behind (body : Option Block) (all : ∀ b, body = some b → ∀ e ∈ b.walk, good e) :
      Echoes tokens r R (some start) false a a n (do return {
        mark := ← markFrom nameToken start
        annotations := annotations
        modifiers := if mods.isPublic || mods.isPrivate then mods else { mods with isPublic := true }
        name := Name.ofToken nameToken
        isConstructor := nameToken.kind == .keyword .constructorWord
        typeParams := typeParams
        params := params
        result := result
        body }) (do return {
        mark := ← markFrom (r.token nameToken) (r.token start)
        annotations := annotations.map ( Annotation.moved r.place)
        modifiers := if mods.isPublic || mods.isPrivate then mods else { mods with isPublic := true }
        name := Name.ofToken (r.token nameToken)
        isConstructor := (r.token nameToken).kind == .keyword .constructorWord
        typeParams := typeParams.map (Name.moved r.place)
        params := Param.movedAll r.place params
        result := result.map (TypeExpr.moved r.place)
        body := Block.movedOption r.place body }) (Method.moved r.place) fun m => ∀ e ∈ Method.walkAll [m], good e := by
    refine echoes_markFrom_bind fun m => echoes_pure rfl ?_
    cases body with
    | none => simpa [Method.walkAll] using goods
    | some b =>
      rw [Method.walkAll, Method.walkAll, List.append_nil]
      exact List.forall_mem_append.2 ⟨goods, all b rfl⟩
  refine echoes_peekIs_bind fun t _ => ?_
  dsimp only
  split
  · exact echoes_last_bind (S := fun _ _ => True) (Echoes.at (echoes_block row echo shallow).fewer) (fun _ => trivial)
      (fun _ _ _ => trivial) id fun b all => behind (some b) fun b' same => Option.some.inj same ▸ all
  · exact Echoes.at (echoes_expect_bind row (by decide) (turns_other (by decide) a) fun _ _ _ =>
      behind none fun _ same => absurd same.symm (Option.some_ne_none _))

theorem echoes_field : Echoes tokens r R (some start) true a a n (g.field depth start nameToken annotations mods)
    (g'.field depth' (r.token start) (r.token nameToken) (annotations.map ( Annotation.moved r.place)) mods)
    (Field.moved r.place) fun f => ∀ e ∈ Field.walkAll [f], good e := by
  unfold field
  refine echoes_bind (echoes_annotatedType row echo shallow) (fun _ => rfl) fun type _ => ?_
  refine echoes_bind (echoes_initialiser row echo shallow) (fun _ => rfl) fun init all => ?_
  refine echoes_expect_bind row (by decide) (turns_other (by decide) a) fun _ _ _ => ?_
  refine echoes_markFrom_bind fun m => echoes_pure (by rw [Field.moved, Expr.movedOption_eq]; rfl) ?_
  cases init with
  | none => nofun
  | some e => simpa [Field.walkAll] using all e rfl

end Started

omit row echo shallow in
/-- What stands in front of a member: its annotations, its modifiers, and the token that names it. -/
def memberHead : Reader (List Annotation × Modifiers × Token) := do
  let annotations ← annotations
  let mods ← modifiers
  let t ← peek
  if t.kind != .identifier && t.kind != .keyword .constructorWord then unexpected "member name" t
  return (annotations, mods, ← next)

omit row echo shallow in
/-- A member that starts with `start`, behind the token that names it. -/
def memberTail (g : Grammar) (depth : Nat) (start : Token) (head : List Annotation × Modifiers × Token) :
    Reader Member := do
  let ahead ← peek
  if ahead.kind == .symbol .leftParen || ahead.kind == .symbol .less then
    return .method (← g.method depth start head.2.2 head.1 head.2.1)
  else
    if head.2.2.kind == .keyword .constructorWord then unexpected "( after constructor" ahead
    return .field (← g.field depth start head.2.2 head.1 head.2.1)

omit row echo shallow in
theorem member_eq (g : Grammar) (depth : Nat) :
    g.member depth = peek >>= fun start => memberHead >>= memberTail g depth start := by
  unfold member memberHead memberTail
  refine congrArg (peek >>= ·) (funext fun start => ?_)
  simp only [bind_assoc]
  refine congrArg (annotations >>= ·) (funext fun as => congrArg (modifiers >>= ·) (funext fun mods => ?_))
  refine congrArg (peek >>= ·) (funext fun t => ?_)
  split
  · rfl
  · simp only [bind_assoc, pure_bind]

omit echo shallow in
theorem echoes_memberHead : Echoes tokens r Eq none true a a n memberHead memberHead
    (fun h => (h.1.map ( Annotation.moved r.place), h.2.1, r.token h.2.2)) fun _ => True := by
  refine echoes_bind (echoes_annotations row) (fun _ => rfl) fun as _ => ?_
  refine echoes_bind (echoes_modifiers row) (fun _ => rfl) fun mods _ => echoes_peek_bind fun t _ => ?_
  dsimp only
  split
  · exact echoes_failAt_bind
  · next named =>
    have kinds : t.kind = .identifier ∨ t.kind = .keyword .constructorWord := by
      by_cases isName : t.kind = .identifier
      · exact .inl isName
      · exact .inr (by simpa [isName] using named)
    have other : t.kind ≠ .symbol .leftParen ∧ t.kind ≠ .symbol .rightParen ∧ t.kind ≠ .endOfInput := by
      rcases kinds with kind | kind <;> rw [kind] <;> decide
    rw [if_neg (show ¬ ((r.token t).kind != _ && (r.token t).kind != _) = true from named)]
    exact echoesAt_next_bind row other.2.2 (turns_other other a) (echoes_pure rfl trivial)

theorem echoes_memberTail (start : Token) (head : List Annotation × Modifiers × Token) :
    Echoes tokens r R (some start) true a a n (memberTail g depth start head)
      (memberTail g' depth' (r.token start) (head.1.map ( Annotation.moved r.place), head.2.1, r.token head.2.2))
      (Member.moved r.place) fun m => ∀ e ∈ m.walk, good e := by
  refine echoes_peek_bind fun t _ => ?_
  dsimp only
  rw [show (r.token t).kind = t.kind from rfl, show (r.token head.2.2).kind = head.2.2.kind from rfl]
  split
  · refine echoes_map Member.method Member.method
      (Echoes.at (echoes_method row echo shallow start head.2.2 head.1 head.2.1)) ?_ ?_
    · exact fun _ => rfl
    · exact fun _ all => all
  · split
    · exact echoes_failAt_bind
    · refine echoes_map Member.field Member.field
        (Echoes.at (echoes_field row echo shallow start head.2.2 head.1 head.2.1)) ?_ ?_
      · exact fun _ => rfl
      · exact fun _ all => all

theorem echoes_member : Echoes tokens r Eq none true a a (n + 1) (g.member depth) (g'.member depth')
    (Member.moved r.place) fun m => ∀ e ∈ m.walk, good e := by
  rw [member_eq, member_eq]
  refine echoes_peek_bind fun t _ => ?_
  exact echoesAt_start_bind (echoes_memberHead (n := n + 1) row).at (fun _ => rfl) (.inl rfl) (.inl (Nat.le_refl _))
    (Nat.le_refl _) fun head _ => echoes_memberTail row echo shallow t head

theorem echoes_membersUpTo (owner : String) (taken : List String) (fuel fuel' : Nat) :
    EchoesWhen tokens r (·.length ≤ fuel) (·.length ≤ fuel') Eq none false a a n (g.membersUpTo depth owner taken fuel)
      (g'.membersUpTo depth' owner taken fuel') (List.map (Member.moved r.place))
      fun ms => ∀ m ∈ ms, ∀ e ∈ m.walk, good e := by
  refine echoes_loop (g.membersUpTo depth owner) (g'.membersUpTo depth' owner)
    (fun _ ms => ∀ m ∈ ms, ∀ e ∈ m.walk, good e) (fun fuel fuel' ih taken => ?_) fuel fuel' taken
  refine echoesWhen_look_bind fun t t' _ same => ?_
  rw [same]
  split
  · exact echoes_pure rfl nofun
  · split
    · exact echoes_failAt
    · refine echoes_item_bind (Echoes.when (echoes_member row echo shallow).fewer) (fun _ => rfl) (fun m all => ?_)
        (fun _ => And.left) fun _ => And.left
      dsimp only
      rw [Member.nameToken_moved]
      split
      · exact echoes_failAt_bind
      · next untaken =>
        rw [if_neg (show ¬ taken.contains (m.nameToken.moved r.place).word = true from untaken)]
        refine echoes_last_bind (ih _) (fun _ => rfl) (fun _ _ => id) nofun fun more goods => ?_
        exact echoes_pure rfl (List.forall_mem_cons.2 ⟨all, goods⟩)

omit row echo shallow in
/-- Members, taken apart, are moved one by one. -/
theorem fields_moved (f : Span → Span) (ms : List Member) :
    ((ms.map (Member.moved f)).filterMap fun | .field x => some x | .method _ => none) =
      Field.movedAll f (ms.filterMap fun | .field x => some x | .method _ => none) := by
  induction ms with
  | nil => rfl
  | cons m ms ih =>
    cases m with
    | field x => exact congrArg (x.moved f :: ·) ih
    | method m => exact ih

omit row echo shallow in
theorem methods_moved (f : Span → Span) (ms : List Member) :
    ((ms.map (Member.moved f)).filterMap fun | .field _ => none | .method m => some m) =
      Method.movedAll f (ms.filterMap fun | .field _ => none | .method m => some m) := by
  induction ms with
  | nil => rfl
  | cons m ms ih =>
    cases m with
    | field x => exact ih
    | method m => exact congrArg (m.moved f :: ·) ih

omit row echo shallow in
/-- The expressions of members, taken apart. -/
theorem members_walk {ms : List Member} (all : ∀ m ∈ ms, ∀ e ∈ m.walk, good e) :
    (∀ e ∈ Field.walkAll (ms.filterMap fun | .field x => some x | .method _ => none), good e) ∧
      ∀ e ∈ Method.walkAll (ms.filterMap fun | .field _ => none | .method m => some m), good e := by
  constructor
  · refine forall_walkAll rfl Field.walkAll_cons fun x found => ?_
    obtain ⟨m, isMember, same⟩ := List.mem_filterMap.1 found
    cases m with
    | field y => exact Option.some.inj same ▸ all _ isMember
    | method m => cases same
  · refine forall_walkAll rfl Method.walkAll_cons fun x found => ?_
    obtain ⟨m, isMember, same⟩ := List.mem_filterMap.1 found
    cases m with
    | field y => cases same
    | method m => exact Option.some.inj same ▸ all _ isMember

theorem echoes_members (owner : String) :
    Echoes tokens r R none true a a n (g.members depth owner) (g'.members depth' owner)
      (fun ms => (Field.movedAll r.place ms.1, Method.movedAll r.place ms.2))
      fun ms => (∀ e ∈ Field.walkAll ms.1, good e) ∧ ∀ e ∈ Method.walkAll ms.2, good e := by
  refine echoes_expect_bind row (by decide) (turns_other (by decide) a) fun _ _ _ => ?_
  refine echoes_get_bind fun s s' => ?_
  have all := (echoes_membersUpTo (a := a) row echo shallow owner [] (s.ahead.length + 1) (s'.ahead.length + 1)).mono
    (w := none) (n := n) (fun _ => id) (fun _ few => Nat.le_succ_of_le few) (fun _ few => Nat.le_succ_of_le few)
    (fun _ _ => id) id (Nat.le_refl n)
  refine echoes_bind_next row all (fun _ => rfl) (by decide) (turns_other (by decide) a)
    (fun run => membersUpTo_stops depth run) fun ms goods => ?_
  exact echoes_pure (Prod.ext (fields_moved r.place ms) (methods_moved r.place ms)) (members_walk goods)

/-! ## Declarations -/

section Started

variable (start head : Token) (annotations : List Annotation)

theorem echoes_classDeclaration (isOpen : Bool) :
    Echoes tokens r R (some start) true a a n (g.classDeclaration depth start head annotations isOpen)
      (g'.classDeclaration depth' (r.token start) (r.token head) (annotations.map ( Annotation.moved r.place)) isOpen)
      (Declaration.moved r.place) fun d => ∀ e ∈ (Stmt.declares d).walk, good e := by
  unfold classDeclaration
  refine echoes_bind (echoes_name (R := Eq) row) (fun _ => rfl) fun name _ => ?_
  refine echoes_bind (echoes_typeParameters row) (fun _ => rfl) fun typeParams _ => ?_
  have body (parent : Option TypeExpr) (interfaces : List TypeExpr) : Echoes tokens r R (some start) true a a n (do
      let members ← g.members depth name.text
      return (⟨← markFrom head start, annotations, .ofClass isOpen parent interfaces, name, typeParams, members.1,
        members.2⟩ : Declaration)) (do
      let members ← g'.members depth' (name.moved r.place).text
      return (⟨← markFrom (r.token head) (r.token start), annotations.map ( Annotation.moved r.place),
        .ofClass isOpen (parent.map (TypeExpr.moved r.place)) (interfaces.map (TypeExpr.moved r.place)),
        name.moved r.place, typeParams.map (Name.moved r.place), members.1, members.2⟩ : Declaration))
      (Declaration.moved r.place) fun d => ∀ e ∈ (Stmt.declares d).walk, good e := by
    refine echoes_last_bind (S := fun _ _ => True) (echoes_members row echo shallow name.text) (fun _ => trivial)
      (fun _ _ _ => trivial) id fun members goods => ?_
    refine echoes_markFrom_bind fun m => echoes_pure ?_ (List.forall_mem_append.2 goods)
    rw [Declaration.moved, Heading.moved, TypeExpr.movedAll_eq]
  have rest (parent : Option TypeExpr) : Echoes tokens r R (some start) true a a n (do
      let interfaces ← if ← accept (.keyword .implementsWord) then g.types depth else pure []
      let members ← g.members depth name.text
      return (⟨← markFrom head start, annotations, .ofClass isOpen parent interfaces, name, typeParams, members.1,
        members.2⟩ : Declaration)) (do
      let interfaces ← if ← accept (.keyword .implementsWord) then g'.types depth' else pure []
      let members ← g'.members depth' (name.moved r.place).text
      return (⟨← markFrom (r.token head) (r.token start), annotations.map ( Annotation.moved r.place),
        .ofClass isOpen (parent.map (TypeExpr.moved r.place)) interfaces,
        name.moved r.place, typeParams.map (Name.moved r.place), members.1, members.2⟩ : Declaration))
      (Declaration.moved r.place) fun d => ∀ e ∈ (Stmt.declares d).walk, good e := by
    refine echoes_accept_bind row (by decide) (turns_other (by decide) a) (.inl rfl) ?_ (body parent [])
    exact echoes_bind (echoes_types row echo shallow) (fun _ => rfl) fun ts _ => body parent ts
  refine echoes_accept_bind row (by decide) (turns_other (by decide) a) (.inl rfl) ?_ (rest none)
  exact echoes_bind (echo.type shallow a) (fun _ => rfl) fun t _ => rest (some t)

theorem echoes_interfaceBody (name : Name) (typeParams : List Name) (parents : List TypeExpr) :
    Echoes tokens r R (some start) true a a n (do
      let members ← g.members depth name.text
      match members.2.find? (·.isConstructor) with
      | some m => failAt (.interfaceConstructor name.text) m.mark.head
      | none =>
        return (⟨← markFrom head start, annotations, .ofInterface parents, name, typeParams, members.1,
          members.2⟩ : Declaration)) (do
      let members ← g'.members depth' (name.moved r.place).text
      match members.2.find? (·.isConstructor) with
      | some m => failAt (.interfaceConstructor (name.moved r.place).text) m.mark.head
      | none =>
        return (⟨← markFrom (r.token head) (r.token start), annotations.map ( Annotation.moved r.place),
          .ofInterface (parents.map (TypeExpr.moved r.place)), name.moved r.place, typeParams.map (Name.moved r.place),
          members.1, members.2⟩ : Declaration))
      (Declaration.moved r.place) fun d => ∀ e ∈ (Stmt.declares d).walk, good e := by
  refine echoes_last_bind (S := fun _ _ => True) (echoes_members row echo shallow name.text) (fun _ => trivial)
    (fun _ _ _ => trivial) id fun members goods => ?_
  have constructor? : (Method.movedAll r.place members.2).find? (·.isConstructor) =
      (members.2.find? (·.isConstructor)).map (Method.moved r.place) := by
    have same : (fun m : Method => m.isConstructor) ∘ Method.moved r.place = fun m => m.isConstructor := by
      funext m
      cases m
      simp [Method.moved]
    rw [Method.movedAll_eq, List.find?_map, same]
  dsimp only
  rw [constructor?]
  cases found : members.2.find? (·.isConstructor) with
  | some m => exact echoes_failAt
  | none =>
    refine echoes_markFrom_bind fun m => echoes_pure ?_ (List.forall_mem_append.2 goods)
    rw [Declaration.moved, Heading.moved, TypeExpr.movedAll_eq]

theorem echoes_interfaceDeclaration :
    Echoes tokens r R (some start) true a a n (g.interfaceDeclaration depth start head annotations)
      (g'.interfaceDeclaration depth' (r.token start) (r.token head) (annotations.map ( Annotation.moved r.place)))
      (Declaration.moved r.place) fun d => ∀ e ∈ (Stmt.declares d).walk, good e := by
  unfold interfaceDeclaration
  refine echoes_bind (echoes_name (R := Eq) row) (fun _ => rfl) fun name _ => ?_
  refine echoes_bind (echoes_typeParameters row) (fun _ => rfl) fun typeParams _ => ?_
  have body := echoes_interfaceBody (R := R) (a := a) row echo shallow start head annotations name typeParams
  refine echoes_accept_bind row (by decide) (turns_other (by decide) a) (.inl rfl) ?_ (body [])
  exact echoes_bind (echoes_types row echo shallow) (fun _ => rfl) fun ts _ => body ts

end Started

omit row echo shallow in
/-- What stands in front of a declaration: its annotations and the word that introduces it, and for a class whether it is
open. -/
def declarationHead : Reader (List Annotation × Token × Option Bool) := do
  let annotations ← annotations
  let t ← peek
  match t.kind with
  | .keyword .openWord => do
    let _ ← next
    return (annotations, ← expect (.keyword .classWord), some true)
  | .keyword .classWord => return (annotations, ← next, some false)
  | .keyword .interfaceWord => return (annotations, ← next, none)
  | _ => unexpected "class or interface after annotation" t

omit row echo shallow in
/-- A declaration that starts with `start`, behind the word that introduces it. -/
def declarationTail (g : Grammar) (depth : Nat) (start : Token) (head : List Annotation × Token × Option Bool) :
    Reader Declaration :=
  match head.2.2 with
  | some isOpen => g.classDeclaration depth start head.2.1 head.1 isOpen
  | none => g.interfaceDeclaration depth start head.2.1 head.1

omit row echo shallow in
theorem declaration_eq (g : Grammar) (depth : Nat) :
    g.declaration depth = peek >>= fun start => declarationHead >>= declarationTail g depth start := by
  unfold declaration declarationHead
  refine congrArg (peek >>= ·) (funext fun start => ?_)
  simp only [bind_assoc]
  refine congrArg (annotations >>= ·) (funext fun as => congrArg (peek >>= ·) (funext fun t => ?_))
  cases t.kind with
  | keyword k =>
    cases k with
    | openWord | classWord | interfaceWord =>
      simp only [bind_assoc, pure_bind]
      rfl
    | _ => rfl
  | _ => rfl

omit echo shallow in
theorem echoes_declarationHead : Echoes tokens r Eq none true a a n declarationHead declarationHead
    (fun h => (h.1.map ( Annotation.moved r.place), r.token h.2.1, h.2.2)) fun _ => True := by
  refine echoes_bind (echoes_annotations row) (fun _ => rfl) fun as _ => echoes_peek_bind fun t _ => ?_
  rw [show (r.token t).kind = t.kind from rfl]
  split
  · next kind =>
    refine echoesAt_next_bind row (by rw [kind]; decide) (by rw [kind]; exact turns_other (by decide) a) ?_
    exact echoes_expect_bind row (by decide) (turns_other (by decide) a) fun _ _ _ => echoes_pure rfl trivial
  · next kind =>
    refine echoesAt_next_bind row (by rw [kind]; decide) (by rw [kind]; exact turns_other (by decide) a) ?_
    exact echoes_pure rfl trivial
  · next kind =>
    refine echoesAt_next_bind row (by rw [kind]; decide) (by rw [kind]; exact turns_other (by decide) a) ?_
    exact echoes_pure rfl trivial
  · exact echoes_failAt

theorem echoes_declarationTail (start : Token) (head : List Annotation × Token × Option Bool) :
    Echoes tokens r R (some start) true a a n (declarationTail g depth start head)
      (declarationTail g' depth' (r.token start) (head.1.map ( Annotation.moved r.place), r.token head.2.1, head.2.2))
      (Declaration.moved r.place) fun d => ∀ e ∈ (Stmt.declares d).walk, good e := by
  obtain ⟨as, word, isOpen?⟩ := head
  cases isOpen? with
  | some isOpen => exact echoes_classDeclaration row echo shallow start word as isOpen
  | none => exact echoes_interfaceDeclaration row echo shallow start word as

theorem echoes_declaration : Echoes tokens r R none true a a (n + 1) (g.declaration depth) (g'.declaration depth')
    (Declaration.moved r.place) fun d => ∀ e ∈ (Stmt.declares d).walk, good e := by
  rw [declaration_eq, declaration_eq]
  refine echoes_peek_bind fun t _ => ?_
  exact echoesAt_start_bind (echoes_declarationHead (n := n + 1) row).at (fun _ => rfl) (.inl rfl) (.inl (Nat.le_refl _))
    (Nat.le_refl _) fun head _ => echoes_declarationTail row echo shallow t head

/-! ## Statements -/

omit echo shallow in
theorem echoes_importNames : Echoes tokens r Eq none false a a n importNames importNames (List.map (Name.moved r.place))
    fun _ => True := by
  refine echoes_accept_bind row (by decide) (turns_other (by decide) a) (.inr fun _ _ same => same ▸ id) ?_
    (echoes_pure rfl trivial)
  refine echoes_bind (echoes_commaList row (echoes_name (R := Eq) row) fun _ => rfl) (fun _ => rfl) fun names _ => ?_
  refine echoes_expect_bind row (by decide) (turns_other (by decide) a) fun _ _ _ => ?_
  exact echoes_expect_bind row (by decide) (turns_other (by decide) a) fun _ _ _ => echoes_pure rfl trivial

theorem echoes_parenthesised : Echoes tokens r R none true a a n (g.parenthesised depth) (g'.parenthesised depth')
    (Expr.moved r.place) fun e => ∀ e' ∈ e.walk, good e' := by
  refine echoes_expect_bind row (by decide) (turns_left a) fun _ _ _ => ?_
  refine echoes_bind (echo.expression shallow (by decide) (a + 1)) Calm.refl fun e all => ?_
  exact echoes_expect_bind row (by decide) (turns_right a) fun _ _ _ => echoes_pure rfl all

section At

variable {t : Token} (other : t.kind ≠ .symbol .leftParen ∧ t.kind ≠ .symbol .rightParen ∧ t.kind ≠ .endOfInput)
include other

omit echo shallow in
theorem echoesAt_importing : EchoesAt tokens r t R none true a a (n + 1) importing importing (Stmt.moved r.place)
    fun s => ∀ e ∈ s.walk, good e := by
  refine echoesAt_first_bind row other.2.2 (turns_other other a) ?_
  refine echoes_bind (echoes_importNames row) (fun _ => rfl) fun names _ => ?_
  refine echoes_expect_bind row (by decide) (turns_other (by decide) a) fun path _ _ => ?_
  refine echoes_expect_bind row (by decide) (turns_other (by decide) a) fun _ _ _ => ?_
  exact echoes_markFrom_bind fun m => echoes_pure rfl nofun

theorem echoesAt_binding : EchoesAt tokens r t R none true a a (n + 1) (g.binding depth) (g'.binding depth')
    (Stmt.moved r.place) fun s => ∀ e ∈ s.walk, good e := by
  refine echoesAt_first_bind row other.2.2 (turns_other other a) ?_
  refine echoes_bind (echoes_name (R := Eq) row) (fun _ => rfl) fun name _ => ?_
  refine echoes_bind (echoes_annotatedType row echo shallow) (fun _ => rfl) fun type _ => ?_
  refine echoes_bind (echoes_initialiser row echo shallow) (fun _ => rfl) fun value all => ?_
  refine echoes_expect_bind row (by decide) (turns_other (by decide) a) fun _ _ _ => ?_
  refine echoes_markFrom_bind fun m => echoes_pure (by rw [Stmt.moved, Expr.movedOption_eq]) ?_
  cases value with
  | none => nofun
  | some e => exact all e rfl

theorem echoesAt_returning : EchoesAt tokens r t R none true a a (n + 1) (g.returning depth) (g'.returning depth')
    (Stmt.moved r.place) fun s => ∀ e ∈ s.walk, good e := by
  refine echoesAt_first_bind row other.2.2 (turns_other other a) (EchoesWhen.lax (echoes_peekIs_bind fun u _ => ?_))
  have rest (value : Option Expr) (all : ∀ e, value = some e → ∀ e' ∈ e.walk, good e') :
      Echoes tokens r R (some t) true a a n (do
        let _ ← expect (.symbol .semicolon)
        return Stmt.returns (← markFrom t t) value) (do
        let _ ← expect (.symbol .semicolon)
        return Stmt.returns (← markFrom (r.token t) (r.token t)) (value.map (Expr.moved r.place)))
        (Stmt.moved r.place) fun s => ∀ e ∈ s.walk, good e := by
    refine echoes_expect_bind row (by decide) (turns_other (by decide) a) fun _ _ _ => ?_
    refine echoes_markFrom_bind fun m => echoes_pure (by rw [Stmt.moved, Expr.movedOption_eq]) ?_
    cases value with
    | none => nofun
    | some e => exact all e rfl
  dsimp only
  split
  · exact Echoes.at (rest none nofun)
  · refine echoes_bind (echo.expression shallow (by decide) a).at Calm.refl fun e all => ?_
    exact rest (some e) fun e' same => Option.some.inj same ▸ all

theorem echoesAt_branching : EchoesAt tokens r t NoElse none true a a (n + 1) (g.branching depth) (g'.branching depth')
    (Stmt.moved r.place) fun s => ∀ e ∈ s.walk, good e := by
  refine echoesAt_first_bind row other.2.2 (turns_other other a) ?_
  refine echoes_last_bind (S := fun _ _ => True) (echoes_parenthesised row echo shallow) (fun _ => trivial)
    (fun _ _ _ => trivial) nofun fun condition goods => ?_
  refine echoes_last_bind (S := fun _ _ => True) (echoes_block row echo shallow).fewer (fun _ => trivial)
    (fun _ _ _ => trivial) nofun fun yes goods' => ?_
  have rest (no : Option Stmt) (all : ∀ s, no = some s → ∀ e ∈ s.walk, good e) :
      Echoes tokens r NoElse (some t) false a a n (do
        return Stmt.branch (← markFrom t t) condition yes no) (do
        return Stmt.branch (← markFrom (r.token t) (r.token t)) (condition.moved r.place) (yes.moved r.place)
          (Stmt.movedOption r.place no)) (Stmt.moved r.place) fun s => ∀ e ∈ s.walk, good e := by
    refine echoes_markFrom_bind fun m => echoes_pure rfl ?_
    cases no with
    | none =>
      rw [Stmt.walk]
      exact List.forall_mem_append.2 ⟨goods, goods'⟩
    | some s => exact List.forall_mem_append.2 ⟨List.forall_mem_append.2 ⟨goods, goods'⟩, all s rfl⟩
  refine echoes_accept_bind row (by decide) (turns_other (by decide) a) (.inr fun _ _ calm no yes => no (calm yes)) ?_
    (rest none nofun)
  refine EchoesWhen.lax (echoes_peekIs_bind fun u _ => ?_)
  dsimp only
  split
  · refine echoes_last_bind (echo.statement shallow a).at NoElse.refl (fun _ _ => id) id fun s all => ?_
    exact rest (some s) fun s' same => Option.some.inj same ▸ all
  · refine echoes_last_bind (S := fun _ _ => True) (Echoes.at (echoes_block row echo shallow).fewer)
      (fun _ => trivial) (fun _ _ _ => trivial) id fun b all => ?_
    exact rest (some (.block b)) fun s' same => Option.some.inj same ▸ all

theorem echoesAt_looping : EchoesAt tokens r t R none true a a (n + 1) (g.looping depth) (g'.looping depth')
    (Stmt.moved r.place) fun s => ∀ e ∈ s.walk, good e := by
  refine echoesAt_first_bind row other.2.2 (turns_other other a) ?_
  refine echoes_expect_bind row (by decide) (turns_left a) fun _ _ _ => ?_
  refine echoes_last_bind (S := fun _ _ => True) (echoes_name row) (fun _ => trivial) (fun _ _ _ => trivial) nofun
    fun item _ => ?_
  refine echoes_expect_bind row (by decide) (turns_other (by decide) (a + 1)) fun _ _ _ => ?_
  refine echoes_bind (echo.expression shallow (by decide) (a + 1)) Calm.refl fun iterable goods => ?_
  refine echoes_expect_bind row (by decide) (turns_right a) fun _ _ _ => ?_
  refine echoes_last_bind (S := fun _ _ => True) (echoes_block row echo shallow).fewer (fun _ => trivial)
    (fun _ _ _ => trivial) nofun fun body goods' => ?_
  exact echoes_markFrom_bind fun m => echoes_pure rfl (List.forall_mem_append.2 ⟨goods, goods'⟩)

omit row echo shallow other in
/-- An arm of a selection that starts with `start`. -/
def armFrom (g : Grammar) (depth : Nat) (start : Token) : Reader Arm := do
  let value ← g.expression depth 0
  let _ ← expect (.symbol .fatArrow)
  let body ← g.block depth
  return ⟨← markFrom start start, value, body⟩

omit row echo shallow other in
theorem armsUpTo_succ (g : Grammar) (depth : Nat) (fallback : Option Block) (fuel : Nat) :
    g.armsUpTo depth fallback (fuel + 1) = peek >>= fun t =>
      if t.kind == .symbol .rightBrace then return ([], fallback)
      else if t.kind == .endOfInput then unexpected "\x7d" t
      else if t.kind == .keyword .defaultWord then do
        let t ← next
        if fallback.isSome then failAt .duplicateDefault t
        let _ ← expect (.symbol .fatArrow)
        let body ← g.block depth
        g.armsUpTo depth (some body) fuel
      else armFrom g depth t >>= fun arm => g.armsUpTo depth fallback fuel >>= fun rest =>
        return (arm :: rest.1, rest.2) := by
  rw [armsUpTo]
  simp only [armFrom, bind_assoc, pure_bind]

omit other in
theorem echoesAt_armFrom : EchoesAt tokens r t R none true a a (n + 1) (armFrom g depth t)
    (armFrom g' depth' (r.token t)) ( Arm.moved r.place) fun arm => ∀ e ∈ Arm.walkAll [arm], good e := by
  refine echoesAt_start_bind (echo.expression shallow (by decide) a).at Calm.refl (.inl rfl)
    (.inr ⟨rfl, Nat.le_refl _⟩) (Nat.le_refl _) fun value goods => ?_
  refine echoes_expect_bind row (by decide) (turns_other (by decide) a) fun _ _ _ => ?_
  refine echoes_last_bind (S := fun _ _ => True) (echoes_block row echo shallow).fewer (fun _ => trivial)
    (fun _ _ _ => trivial) nofun fun body goods' => ?_
  refine echoes_markFrom_bind fun m => echoes_pure rfl ?_
  rw [Arm.walkAll, Arm.walkAll, List.append_nil]
  exact List.forall_mem_append.2 ⟨goods, goods'⟩

omit other in
theorem echoes_armsUpTo (fallback : Option Block) (fuel fuel' : Nat) :
    EchoesWhen tokens r (·.length ≤ fuel) (·.length ≤ fuel') Eq none false a a n (g.armsUpTo depth fallback fuel)
      (g'.armsUpTo depth' (Block.movedOption r.place fallback) fuel')
      (fun result => ( Arm.movedAll r.place result.1, Block.movedOption r.place result.2))
      fun result => (∀ e ∈ fallback.elim [] Block.walk, good e) →
        ∀ e ∈ Arm.walkAll result.1 ++ result.2.elim [] Block.walk, good e := by
  refine echoes_loop (g.armsUpTo depth) (fun fallback => g'.armsUpTo depth' (Block.movedOption r.place fallback))
    (fun fallback result => (∀ e ∈ fallback.elim [] Block.walk, good e) →
      ∀ e ∈ Arm.walkAll result.1 ++ result.2.elim [] Block.walk, good e) (fun fuel fuel' ih fallback => ?_) fuel fuel'
    fallback
  rw [armsUpTo_succ, armsUpTo_succ]
  refine echoesWhen_look_bind fun t t' _ same => ?_
  rw [same]
  split
  · exact echoes_pure rfl id
  · split
    · exact echoes_failAt
    · split
      · next isDefault =>
        have kind : t.kind = .keyword .defaultWord := beq_iff_eq.1 isDefault
        have item : EchoesAt tokens r t Eq none true a a n next next r.token fun u => u = t :=
          echoes_next row (by rw [kind]; decide) (by rw [kind]; exact turns_other (by decide) a)
        refine echoes_item_bind (item.mono (fun _ => id) (fun _ => And.right) (fun _ => id) (fun _ _ => id) id
          (Nat.le_refl n)) (fun _ => rfl) (fun u _ => ?_) (fun _ => And.left) fun _ => And.left
        have isSome : (Block.movedOption r.place fallback).isSome = fallback.isSome := by
          rw [Block.movedOption_eq, Option.isSome_map]
        dsimp only
        rw [isSome]
        split
        · exact echoes_failAt_bind
        · refine echoes_pass_bind (S := fun _ _ => True) (echoes_expect row (by decide) (turns_other (by decide) a))
            (fun _ => trivial) fun _ _ => ?_
          refine echoes_pass_bind (S := fun _ _ => True) (echoes_block row echo shallow).fewer (fun _ => trivial)
            fun body all => ?_
          exact (ih (some body)).mono (fun _ goods _ => goods all) (fun _ => id) (fun _ => id) (fun _ _ => id) id
            (Nat.le_refl n)
      · refine EchoesWhen.lax (echoesWhen_taken (fun t' => g'.armFrom depth' t' >>= fun arm =>
          g'.armsUpTo depth' (Block.movedOption r.place fallback) fuel' >>= fun rest => pure (arm :: rest.1, rest.2)) ?_)
        have item : EchoesAt tokens r t Eq none true a a n (armFrom g depth t) (armFrom g' depth' (r.token t))
            ( Arm.moved r.place) fun arm => ∀ e ∈ Arm.walkAll [arm], good e := (echoesAt_armFrom row echo shallow).fewer
        refine echoes_item_bind (item.mono (fun _ => id) (fun _ => And.right) (fun _ => id) (fun _ _ => id) id
          (Nat.le_refl n)) (fun _ => rfl) (fun arm all => ?_) (fun _ => And.left) fun _ => id
        refine echoes_last_bind (ih fallback) (fun _ => rfl) (fun _ _ => id) nofun fun result goods => ?_
        refine echoes_pure rfl fun given => ?_
        rw [Arm.walkAll_cons, List.append_assoc]
        exact List.forall_mem_append.2 ⟨all, goods given⟩

omit other in
theorem echoesAt_selecting (kind : t.kind = .keyword .matchWord) :
    EchoesAt tokens r t R none true a a (n + 1) (g.selecting depth) (g'.selecting depth') (Stmt.moved r.place)
      fun s => ∀ e ∈ s.walk, good e := by
  refine echoesAt_first_bind row (by rw [kind]; decide) (by rw [kind]; exact turns_other (by decide) a) ?_
  refine EchoesWhen.lax (echoes_bind (echoes_parenthesised row echo shallow) (fun _ => rfl) fun subject goods => ?_)
  refine echoes_expect_bind row (by decide) (turns_other (by decide) a) fun _ _ _ => echoes_get_bind fun s s' => ?_
  refine echoes_bind_next row ((echoes_armsUpTo row echo shallow none _ _).mono (fun _ => id)
    (fun _ few => Nat.le_succ_of_le few) (fun _ few => Nat.le_succ_of_le few) (fun _ _ => id) id (Nat.le_refl n))
    (fun _ => rfl) (by decide) (turns_other (by decide) a) (fun run => armsUpTo_stops depth run) fun result goods' => ?_
  refine echoes_markFrom_bind fun m => echoes_pure rfl ?_
  have all := List.forall_mem_append.2 ⟨goods, goods' nofun⟩
  rw [← List.append_assoc] at all
  obtain ⟨arms, _ | fallback⟩ := result
  · exact fun e found => all e (List.mem_append_left _ found)
  · exact all

end At

theorem echoes_doing : Echoes tokens r R none true a a (n + 1) (g.doing depth) (g'.doing depth') (Stmt.moved r.place)
    fun s => ∀ e ∈ s.walk, good e := by
  refine echoes_peek_bind fun t _ => ?_
  refine echoesAt_start_bind (echo.expression shallow (by decide) a).at Calm.refl (.inl rfl)
    (.inr ⟨rfl, Nat.le_refl _⟩) (Nat.le_refl _) fun e all => ?_
  refine echoes_expect_bind row (by decide) (turns_other (by decide) a) fun _ _ _ => ?_
  exact echoes_markFrom_bind fun m => echoes_pure rfl all

theorem echoes_statementStep : Echoes tokens r NoElse none true a a (n + 1) (g.statementStep depth)
    (g'.statementStep depth') (Stmt.moved r.place) fun s => ∀ e ∈ s.walk, good e := by
  have declares {t : Token} : EchoesAt tokens r t NoElse none true a a (n + 1)
      (do return Stmt.declares (← g.declaration depth)) (do return Stmt.declares (← g'.declaration depth'))
      (Stmt.moved r.place) fun s => ∀ e ∈ s.walk, good e :=
    echoes_map Stmt.declares Stmt.declares (echoes_declaration row echo shallow).at (fun _ => rfl) fun _ all => all
  refine echoes_peek_bind fun t _ => ?_
  rw [show (r.token t).kind = t.kind from rfl]
  split
  · next kind => exact echoesAt_importing row (by rw [kind]; decide)
  · next kind => exact declares
  · next kind => exact declares
  · next kind => exact declares
  · next kind => exact declares
  · next kind => exact echoesAt_binding row echo shallow (by rw [kind]; decide)
  · next kind => exact echoesAt_returning row echo shallow (by rw [kind]; decide)
  · next kind => exact echoesAt_branching row echo shallow (by rw [kind]; decide)
  · next kind => exact echoesAt_selecting row echo shallow kind
  · next kind => exact echoesAt_looping row echo shallow (by rw [kind]; decide)
  · exact echoes_map Stmt.block Stmt.block (echoes_block row echo shallow).at (fun _ => rfl) fun _ all => all
  · exact (echoes_doing row echo shallow).at

end Nested

/-! ## The grammar as a whole -/

/-- What the grammar reads with some bound on nested calls, it reads again with any bound that is not below the number of
the tokens. -/
theorem within_echo (row : Token.Row tokens length) (plain : ∀ t ∈ tokens, t.kind ≠ .keyword .vdomWord)
    (reared : ∀ fuel, Reared tokens (within fuel) good) (fuel fuel' : Nat) :
    Echo tokens r good fuel' (within fuel) (within fuel') := by
  induction fuel generalizing fuel' with
  | zero =>
    rw [within_zero]
    constructor
    · exact fun _ _ _ _ _ _ _ run => by cases run
    · exact fun _ _ _ _ _ _ _ _ run => by cases run
    · exact fun _ _ _ _ _ _ _ run => by cases run
  | succ fuel ih =>
    rw [within_succ]
    cases fuel' with
    | zero =>
      constructor
      · exact fun shallow a => (echoes_statementStep row (ih 0) shallow).nothing
      · exact fun shallow loose a => (echoes_expressionStep row (ih 0) shallow plain (reared fuel) loose).nothing
      · exact fun shallow a => (echoes_typeStep row (ih 0) shallow).nothing
    | succ fuel' =>
      rw [within_succ]
      constructor
      · exact fun shallow a => echoes_statementStep row (ih fuel') shallow
      · exact fun shallow loose a => echoes_expressionStep row (ih fuel') shallow plain (reared fuel) loose
      · exact fun shallow a => echoes_typeStep row (ih fuel') shallow

end Grammar

end ClassScript
