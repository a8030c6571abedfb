import ClassScript.Proofs.Samples
import ClassScript.Proofs.Settling
import ClassScript.Typing.Program

/-!
Whether the order of declarations matters. If no value that is typed early mentions a field of another declaration
for which no type is written, it does not: a program is accepted in any order of its declarations, with symbols
that are the same up to the numbers of type variables (`declarations_in_any_order`). In general it does matter,
as such a field has an unknown type until its declaration is reached (`later_field_is_unknown`).
-/

namespace ClassScript

namespace Typing

variable {W : Pairing} {B : String → Prop} {c c' : Context}

/-! ## Bodies -/

section Bodies

variable (contexts : Context.Alike W B c c') {d d' : DeclSymbol} (decls : d.Alike W B d')
include contexts

include decls in
theorem seenSignature_alike {m m' : MethodSymbol} (methods : m.Alike W m') :
    (seenSignature c.registry d m).Alike W (seenSignature c'.registry d' m') := by
  unfold seenSignature
  rw [← decls.nominal, ← methods.owner]
  exact apply_alike (viewSubst_alike contexts.registry _ _ decls.selfArgs) methods.signature

include decls in
theorem requireImplements_mirrors {i i' : DeclSymbol} {wanted wanted' : Registry.Inherited}
    (inherited : Registry.InheritedAlike W wanted wanted') :
    Mirrors W c c' (requireImplements c.registry d i wanted) (requireImplements c'.registry d' i' wanted')
      fun _ _ _ => True := by
  have methods := contexts.registry.classMethod? decls wanted.method.name
  unfold requireImplements
  dsimp only
  rw [← inherited.1.name]
  generalize c.registry.classMethod? d wanted.method.name = a at methods ⊢
  generalize c'.registry.classMethod? d' wanted.method.name = b at methods ⊢
  cases methods with
  | none => exact .require (by rw [inherited.1.decl])
  | some methods =>
    refine (Mirrors.require (by rw [methods.isStatic])).bind fun _ _ _ le₁ _ => ?_
    refine (Mirrors.require ?_).bind fun _ _ _ le₂ _ => ?_
    · rw [methods.params.length_eq, inherited.1.params.length_eq]
    · have le := le₁.trans le₂
      have want := (apply_alike inherited.2 inherited.1.signature).mono le
      exact requireAccepts_mirrors (contexts.mono le) want ((seenSignature_alike contexts decls methods).mono le)

include decls in
theorem requireInterface_mirrors {i i' : DeclSymbol} (interfaces : i.Alike W B i') :
    Mirrors W c c' (requireInterface c.registry d i) (requireInterface c'.registry d' i') fun _ _ _ => True := by
  have views : Ty.AlikeAll W ((c.registry.table.viewAs d.nominal d.selfArgs i.nominal).getD [])
      ((c'.registry.table.viewAs d'.nominal d'.selfArgs i'.nominal).getD []) := by
    have views := TypeTable.viewAs_alike contexts.registry.table d.nominal i.nominal decls.selfArgs
    rw [← decls.nominal, ← interfaces.nominal]
    generalize c.registry.table.viewAs d.nominal d.selfArgs i.nominal = a at views ⊢
    generalize c'.registry.table.viewAs d.nominal d'.selfArgs i.nominal = b at views ⊢
    cases views with
    | none => exact alikeAll_iff.2 .nil
    | some views => exact views
  refine (Mirrors.forM (fun W' a b le inherited => ?_) (contexts.registry.allMethods interfaces views)).bind
    fun _ _ _ le _ => Mirrors.forM (fun W' f f' le' fields => ?_) interfaces.fields
  · exact requireImplements_mirrors (contexts.mono le) (decls.mono le)
      ⟨inherited.1.mono le, inherited.2.mono le⟩
  · refine .require ?_
    have found := contexts.registry.classField? decls f.name
    rw [← fields.name]
    generalize c.registry.classField? d f.name = a at found ⊢
    generalize c'.registry.classField? d' f.name = b at found ⊢
    cases found <;> rfl

include decls in
theorem requireConforms_mirrors : Mirrors W c c' (requireConforms d) (requireConforms d') fun _ _ _ => True := by
  refine .read (Mirrors.forM (fun _ a a' le ancestors => ?_) (contexts.registry.ancestors decls))
  refine Mirrors.forM (fun _ p p' le' supers => ?_) ancestors.interfaces
  obtain ⟨n, args⟩ := p
  obtain ⟨n', args'⟩ := p'
  obtain ⟨rfl, -⟩ := supers
  have le := le.trans le'
  dsimp only
  rcases optionRel_cases (contexts.registry.find n.name) with ⟨absent, absent'⟩ | ⟨i, i', found, found', interfaces⟩
  · rw [absent, absent']
    exact .pure trivial
  · rw [found, found']
    exact requireInterface_mirrors (contexts.mono le) (decls.mono le) (interfaces.mono le)

end Bodies

theorem avoids_nothing {sites : List Site} : Avoids (fun _ => False) sites := fun _ _ _ _ => id

section Settled

variable (contexts : Context.Alike W (fun _ => False) c c') {outer outer' : Scope} (outers : outer.Alike W outer')
include contexts outers

theorem checkMethod_mirrors {m m' : MethodSymbol} (methods : m.Alike W m') :
    Mirrors W c c' (checkMethod outer m) (checkMethod outer' m') fun _ _ _ => True := by
  unfold checkMethod
  rw [← methods.decl]
  cases m.decl.body with
  | none => exact .pure trivial
  | some body =>
    have params : List.Forall₂ (Binding.Alike W) (m.params.map fun p => (⟨p.name, p.type, false⟩ : Binding))
        (m'.params.map fun p => ⟨p.name, p.type, false⟩) :=
      List.rel_map (fun _ _ param => ⟨param.name, param.type, rfl⟩) methods.params
    have scopes := (outers.enter params).constructing methods.isConstructor
    have inner : Context.Alike W (fun _ => False)
        { c with
          typeParams := (m.typeParams.map fun v => (v.name, v)).reverse ++ c.typeParams
          result := m.result }
        { c' with
          typeParams := (m'.typeParams.map fun v => (v.name, v)).reverse ++ c'.typeParams
          result := m'.result } :=
      ⟨contexts.registry, contexts.typeParams.extend methods.typeParams, methods.result⟩
    exact .withReader (.withReader (checkBlock_mirrors inner scopes body avoids_nothing))

theorem checkField_mirrors {f f' : FieldSymbol} (fields : f.Alike W (fun _ => False) f') :
    Mirrors W c c' (checkField outer f) (checkField outer' f') fun _ _ _ => True := by
  have types := fields.type.resolve_left id
  unfold checkField
  rw [← fields.decl]
  generalize f.type = a at types ⊢
  generalize f'.type = b at types ⊢
  cases types with
  | none => exact .pure trivial
  | some types =>
    cases f.decl.type with
    | none => exact .pure trivial
    | some t =>
      cases f.decl.init with
      | none => exact .pure trivial
      | some e =>
        refine (infer_mirrors contexts outers (.some types) e avoids_nothing).bind fun _ _ _ le gots => ?_
        exact requireAccepts_mirrors (contexts.mono le) (types.mono le) gots

/-- The members of a declaration are typed alike. -/
theorem checkDecl_mirrors {d d' : DeclSymbol} (decls : d.Same W d') :
    Mirrors W c c' (checkDecl outer d) (checkDecl outer' d') fun _ _ _ => True := by
  have inner := contexts.inside decls
  have bodies {W' : Pairing} (le : W ≤ W') :
      Mirrors W' (c.inside d) (c'.inside d') (d.methods.forM fun m => checkMethod (memberScope outer d m.isStatic) m)
        (d'.methods.forM fun m => checkMethod (memberScope outer' d' m.isStatic) m) fun _ _ _ => True := by
    refine Mirrors.forM (fun _ m m' le' methods => ?_) decls.methods
    have le := le.trans le'
    rw [← methods.isStatic]
    exact checkMethod_mirrors (inner.mono le) (memberScope_alike (outers.mono le) (decls.mono le) m.isStatic)
      (methods.mono le)
  refine .inDecl (.ite (by rw [decls.nominal]) ?_ ?_)
  · refine (requireConforms_mirrors inner decls).bind fun _ _ _ le _ => ?_
    refine (Mirrors.forM (fun _ f f' le' fields => ?_) decls.fields).bind fun _ _ _ le' _ => bodies (le.trans le')
    have le := le.trans le'
    have isStatic : f.isStatic = f'.isStatic := by rw [FieldSymbol.isStatic, FieldSymbol.isStatic, fields.decl]
    rw [← isStatic]
    exact checkField_mirrors (inner.mono le) (memberScope_alike (outers.mono le) (decls.mono le) f.isStatic)
      (fields.mono le)
  · exact bodies le_rfl

end Settled

/-- Top-level statements are typed alike. -/
theorem checkActions_mirrors {p p' : LinkedProgram} (actions : p.actions = p'.actions)
    (contexts : Context.Alike W (fun _ => False) c c') :
    Mirrors W c c' (checkActions p) (checkActions p') Scope.Alike := by
  unfold checkActions
  rw [← actions]
  refine (Mirrors.fresh "return").bind fun W₁ t t' le results => .withReader ?_
  have inner : Context.Alike W₁ (fun _ => False) { c with result := t } { c' with result := t' } :=
    { contexts.mono le with result := results }
  refine Mirrors.foldlM (fun W₂ _ _ a le' scopes => .withReader ?_) p.actions .global
  have inner := inner.mono le'
  have within : Context.Alike W₂ (fun _ => False) { c with file := a.file, result := t }
      { c' with file := a.file, result := t' } := ⟨inner.registry, inner.typeParams, inner.result⟩
  exact check_mirrors within scopes a.statement avoids_nothing

/-! ## Declarations -/

/-- A symbol has a counterpart in a registry that is the same. -/
theorem counterpart {r r' : Registry} (same : r.Same W r') {d : DeclSymbol} (member : d ∈ r) : ∃ d' ∈ r', d.Same W d' := by
  have found := Registry.find?_of_mem same.distinct member
  rcases optionRel_cases (same.find d.name) with ⟨absent, -⟩ | ⟨e, d', there, found', decls⟩
  · rw [found] at absent
    cases absent
  · obtain rfl : d = e := Option.some.inj (found.symm.trans there)
    exact ⟨d', Registry.mem_of_find? found', decls⟩

theorem counterpart' {r r' : Registry} (same : r.Same W r') {d' : DeclSymbol} (member : d' ∈ r') :
    ∃ d ∈ r, d.Same W d' := by
  have found' := Registry.find?_of_mem same.distinct' member
  rcases optionRel_cases (same.find d'.name) with ⟨-, absent⟩ | ⟨d, e, found, there, decls⟩
  · rw [found'] at absent
    cases absent
  · obtain rfl : d' = e := Option.some.inj (found'.symm.trans there)
    exact ⟨d, Registry.mem_of_find? found, decls⟩

/-- Registration gives symbols without members. -/
theorem registered_register_all {declarations : List (String × Declaration)} {r : Registry}
    (gives : Gives (declarations.foldlM (fun r d => register r d.1 d.2) ([] : Registry)) c r) :
    Registered declarations r ∧ ∀ d ∈ r, Written declarations d := by
  have registered : Registered declarations r := by
    have start : Registered [] ([] : Registry) := ⟨rfl, List.nodup_nil, by simp, by simp⟩
    exact gives_foldlM (I := fun done r => Registered done r)
      (fun done a r r' before gives => registered_register before gives) [] gives start
  refine ⟨registered, written_registered registered ?_⟩
  refine gives_foldlM_keeps (I := fun r => ∀ d ∈ r, d.fields = [] ∧ d.methods = []) (fun a r r' before gives => ?_) gives
    (by simp)
  obtain ⟨-, params, rfl⟩ := gives_register gives
  intro d member
  rcases List.mem_append.1 member with member | member
  · exact before d member
  · rw [List.mem_singleton.1 member]
    exact ⟨rfl, rfl⟩

/-- The demand that no declaration inherits from itself leaves no trace. -/
theorem acyclic_ran {r ds : Registry} (acyclic : ∀ d ∈ ds, r.isCyclic d = false) (p : Progress) :
    ds.forM (requireAcyclic r) c p = .ok ((), p) := by
  induction ds with
  | nil => rfl
  | cons d ds ih =>
    have first : requireAcyclic r d c p = .ok ((), p) := by
      unfold requireAcyclic
      rw [acyclic d List.mem_cons_self]
      rfl
    exact bind_ran first (ih fun e member => acyclic e (List.mem_cons_of_mem d member))

/-- Replacing symbols takes nothing from what was written. -/
theorem written_loop {declarations : List (String × Declaration)} {f : DeclSymbol → Analysis DeclSymbol} {names : List String}
    {r r₁ : Registry} (changed : ∀ {c d d'}, Written declarations d → Gives (f d) c d' → Written declarations d')
    (written : ∀ d ∈ r, Written declarations d) (gives : Gives (names.foldlM (replace f) r) c r₁) :
    ∀ d ∈ r₁, Written declarations d :=
  gives_foldlM_keeps (I := fun r => ∀ d ∈ r, Written declarations d)
    (fun _ _ _ before gives => written_replace changed before gives) gives written

/-- The symbols of declarations do not depend on their order. -/
theorem declare_matches {p p' : LinkedProgram} (perm : p.declarations.Perm p'.declarations)
    (independent : Independent p.declarations) (bare : c.Bare) :
    Matches W c c (declare p) (declare p') fun W' r r' => r.Same W' r' := by
  intro start start' r₄ q left right ran
  obtain ⟨r₁, q₁, ran₁, ran⟩ := ran_bind ran
  obtain ⟨r₂, q₂, ran₂, ran⟩ := ran_bind ran
  obtain ⟨_, q₂', ranA, ran⟩ := ran_bind ran
  obtain ⟨r₃, q₃, ran₃, ran₄⟩ := ran_bind ran
  -- names
  obtain ⟨registered, written₁⟩ := registered_register_all ⟨start, q₁, ran₁⟩
  have distinct : (p.declarations.map fun d => d.2.name.text).Nodup := registered.names ▸ registered.distinct
  have empty : Registry.Same W [] [] := ⟨rfl, List.nodup_nil, List.nodup_nil, fun _ => .none⟩
  obtain ⟨W₁, r₁', p₁, le₁, ran₁', left₁, right₁, same₁, -⟩ :=
    keyed_register.perm perm distinct empty trivial trivial start start' r₁ q₁ left right ran₁
  have written₁' : ∀ d ∈ r₁', Written p.declarations d := fun d member =>
    ((registered_register_all ⟨start', p₁, ran₁'⟩).2 d member).mono perm.mem_iff.2
  -- supertypes
  obtain ⟨W₂, r₂', p₂, le₂, ran₂', left₂, right₂, same₂, -⟩ :=
    (keyed_replace bare.typeParams head_withSupers withSupers_mirrors).perm (names_perm same₁)
      (by simpa using same₁.distinct) same₁ trivial trivial q₁ p₁ r₂ q₂ left₁ right₁ ran₂
  have written₂ := written_loop written_withSupers written₁ ⟨q₁, q₂, ran₂⟩
  have written₂' := written_loop written_withSupers written₁' ⟨p₁, p₂, ran₂'⟩
  -- cycles
  have acyclic : ∀ d ∈ r₂, r₂.isCyclic d = false := fun d member => by
    simpa using gives_require (gives_inFile (gives_forM ⟨q₂, q₂', ranA⟩ d member))
  have acyclic' : ∀ d ∈ r₂', r₂'.isCyclic d = false := fun d' member => by
    obtain ⟨d, within, decls⟩ := counterpart' same₂ member
    rw [← isCyclic_alike same₂ decls]
    exact acyclic d within
  obtain rfl : q₂ = q₂' := by
    have same := (acyclic_ran acyclic q₂).symm.trans ranA
    exact (Prod.mk.inj (Except.ok.inj same)).2
  have ranA' := acyclic_ran (c := c) acyclic' p₂
  -- members
  obtain ⟨W₃, r₃', p₃, le₃, ran₃', left₃, right₃, same₃, -⟩ :=
    (keyed_replace bare.typeParams head_withMembers withMembers_mirrors).perm (parentsFirst_perm same₂)
      (by simpa using (parentsFirst_perm_names same₂.distinct).nodup_iff.2 same₂.distinct) same₂ trivial trivial
      q₂ p₂ r₃ q₃ left₂ right₂ ran₃
  have written₃ := written_loop written_withMembers written₂ ⟨q₂, q₃, ran₃⟩
  have written₃' := written_loop written_withMembers written₂' ⟨p₂, p₃, ran₃'⟩
  -- initial and default values
  obtain ⟨W₄, r₄', p₄, le₄, ran₄', left₄, right₄, same₄, -⟩ :=
    (keyed_settle bare independent).perm (names_perm same₃) (by simpa using same₃.distinct) same₃
      ⟨same₃.distinct, written₃⟩ ⟨same₃.distinct', written₃'⟩ q₃ p₃ r₄ q left₃ right₃ ran₄
  refine ⟨W₄, r₄', p₄, le₁.trans (le₂.trans (le₃.trans le₄)), ?_, left₄, right₄, same₄⟩
  exact bind_ran ran₁' (bind_ran ran₂' (bind_ran ranA' (bind_ran ran₃' ran₄')))

theorem knowing_ran {α : Type} {r : Registry} {x : Analysis α} {p : Progress} :
    knowing r x c p = x { c with registry := r } p := rfl

/-! ## Bodies in any order -/

/-- A computation that comes to an end from every point at which at least `n` variables have been handed out. -/
def Ends (n : Nat) (c : Context) (x : Analysis PUnit) : Prop :=
  ∀ p, n ≤ p.fresh → ∃ q, x c p = .ok ((), q) ∧ p.fresh ≤ q.fresh

theorem ends_forM {α : Type} {n : Nat} {f : α → Analysis PUnit} {items : List α} (each : ∀ a ∈ items, Ends n c (f a)) :
    Ends n c (items.forM f) := by
  induction items with
  | nil => exact fun p _ => ⟨p, rfl, Nat.le_refl _⟩
  | cons a items ih =>
    intro p late
    obtain ⟨q, ran, grown⟩ := each a List.mem_cons_self p late
    obtain ⟨q', ran', grown'⟩ := ih (fun b member => each b (List.mem_cons_of_mem a member)) q (late.trans grown)
    exact ⟨q', bind_ran ran ran', grown.trans grown'⟩

/-- What comes to an end in one run does so in the other, later in either run. -/
theorem ends_of_mirrors {x y : Analysis PUnit} (mirrors : ∀ m n, Mirrors (W.skip m n) c c' x y fun _ _ _ => True)
    {p q : Progress} (late : W.left ≤ p.fresh) (ran : x c p = .ok ((), q)) :
    Ends W.right c' y ∧ p.fresh ≤ q.fresh := by
  have started (n : Nat) : p.fresh = (W.skip (p.fresh - W.left) n).left := by
    simp only [Pairing.skip]
    omega
  refine ⟨fun p' late' => ?_, ?_⟩
  · have started' : p'.fresh = (W.skip (p.fresh - W.left) (p'.fresh - W.right)).right := by
      simp only [Pairing.skip]
      omega
    obtain ⟨u, _, q', ran', -, grown, -⟩ := mirrors _ _ p p' () q (started _) started' ran
    refine ⟨q', ran', ?_⟩
    rw [grown, Pairing.grow_right, ← started']
    omega
  · obtain ⟨u, _, _, -, grown, -⟩ := mirrors _ 0 p ⟨W.right, [], []⟩ () q (started 0) rfl ran
    rw [grown, Pairing.grow_left, ← started]
    omega

/-- A loop that comes to an end in one run does so in the other, in any order. -/
theorem ends_of_forM {α β : Type} {R : α → β → Prop} {f : α → Analysis PUnit} {g : β → Analysis PUnit} {as : List α}
    {bs : List β} (mirrors : ∀ a b m n, R a b → Mirrors (W.skip m n) c c' (f a) (g b) fun _ _ _ => True)
    (counterpart : ∀ a ∈ as, ∃ b, R a b) (covered : ∀ b ∈ bs, ∃ a ∈ as, R a b) {p q : Progress} (late : W.left ≤ p.fresh)
    (ran : as.forM f c p = .ok ((), q)) : Ends W.right c' (bs.forM g) ∧ p.fresh ≤ q.fresh := by
  have each : (∀ a ∈ as, ∀ b, R a b → Ends W.right c' (g b)) ∧ p.fresh ≤ q.fresh := by
    clear covered
    induction as generalizing p with
    | nil =>
      cases ran
      exact ⟨by simp, Nat.le_refl _⟩
    | cons a as ih =>
      obtain ⟨_, p₁, first, rest⟩ := ran_bind ran
      obtain ⟨b, related⟩ := counterpart a List.mem_cons_self
      have grown := (ends_of_mirrors (fun m n => mirrors a b m n related) late first).2
      obtain ⟨others, grown'⟩ := ih (fun a member => counterpart a (List.mem_cons_of_mem _ member)) (late.trans grown) rest
      refine ⟨fun a' member b' related' => ?_, grown.trans grown'⟩
      rcases List.mem_cons.1 member with rfl | member
      · exact (ends_of_mirrors (fun m n => mirrors a' b' m n related') late first).1
      · exact others a' member b' related'
  refine ⟨ends_forM fun b member => ?_, each.2⟩
  obtain ⟨a, within, related⟩ := covered b member
  exact each.1 a within b related

/-- The bodies of some of the declarations, chosen by their nominal. -/
theorem bodies_end {r r' : Registry} (contexts : Context.Alike W (fun _ => False) c c') (same : r.Same W r')
    {globals globals' : Scope} (scopes : globals.Alike W globals') (choice : Nominal → Bool) {p q : Progress}
    (late : W.left ≤ p.fresh)
    (ran : (r.filter fun d => choice d.nominal).forM (checkDecl globals) c p = .ok ((), q)) :
    Ends W.right c' ((r'.filter fun d => choice d.nominal).forM (checkDecl globals')) ∧ p.fresh ≤ q.fresh := by
  refine ends_of_forM (R := DeclSymbol.Same W) (fun d d' m n decls => ?_) (fun d member => ?_) (fun d' member => ?_) late ran
  · have le := W.le_skip m n
    exact checkDecl_mirrors (contexts.mono le) (scopes.mono le) (decls.mono le)
  · obtain ⟨d', -, decls⟩ := counterpart same (List.mem_filter.1 member).1
    exact ⟨d', decls⟩
  · obtain ⟨within, chosen⟩ := List.mem_filter.1 member
    obtain ⟨d, there, decls⟩ := counterpart' same within
    refine ⟨d, List.mem_filter.2 ⟨there, ?_⟩, decls⟩
    rw [decls.nominal]
    exact chosen

end Typing

/-! ## Programs -/

/-- The same program with its declarations in another order, the other statements keeping theirs. -/
structure Reordered (p p' : LinkedProgram) : Prop where
  file : p.file = p'.file
  declarations : p.declarations.Perm p'.declarations
  others : (p.statements.filter fun s => !s.statement.isDeclaration) =
    p'.statements.filter fun s => !s.statement.isDeclaration

namespace Reordered

variable {p p' : LinkedProgram}

theorem symm (reordered : Reordered p p') : Reordered p' p :=
  ⟨reordered.file.symm, reordered.declarations.symm, reordered.others.symm⟩

theorem actions (reordered : Reordered p p') : p.actions = p'.actions := by
  have split (p : LinkedProgram) : p.actions =
      (p.statements.filter fun s => !s.statement.isDeclaration).filter fun s => !s.statement.isImport := by
    rw [LinkedProgram.actions, List.filter_filter]
    simp only [Bool.and_comm]
  rw [split, split, reordered.others]

end Reordered

theorem Independent.perm {declarations declarations' : List (String × Declaration)} (independent : Independent declarations)
    (perm : declarations.Perm declarations') : Independent declarations' :=
  fun d declared other declared' => independent d (perm.mem_iff.2 declared) other (perm.mem_iff.2 declared')

/-- No variables have been handed out yet. -/
def Pairing.start : Pairing where
  rel _ _ := False
  left := 0
  right := 0
  bound := False.elim
  unique := False.elim

open Typing in
/-- A program that is accepted is accepted with its declarations in another order, with the same symbols. -/
theorem accepted_reordered {p p' : LinkedProgram} (reordered : Reordered p p') (independent : Independent p.declarations)
    {checked : Checked} (accepted : p.check = .ok checked) :
    ∃ checked', p'.check = .ok checked' ∧ ∃ W, checked.registry.Same W checked'.registry := by
  have bare : Context.Bare ⟨[], p.file, [], .void⟩ := ⟨rfl, rfl⟩
  unfold LinkedProgram.check at accepted ⊢
  split at accepted
  · cases accepted
  · next r progress ran =>
    obtain rfl := Except.ok.inj accepted
    obtain ⟨_, q₁, ran₁, ran⟩ := ran_bind ran
    obtain ⟨_, q₂, bodies, ended⟩ := ran_bind ran
    cases ended
    rw [knowing_ran] at bodies
    obtain ⟨globals, q₃, ran₃, bodies⟩ := ran_bind bodies
    obtain ⟨_, q₄, ran₄, ran₅⟩ := ran_bind bodies
    -- declarations and top-level statements
    obtain ⟨W₁, r', p₁, -, ran₁', left₁, right₁, same⟩ :=
      declare_matches (W := .start) reordered.declarations independent bare ⟨0, [], []⟩ ⟨0, [], []⟩ r q₁ rfl rfl ran₁
    have contexts := bare.knowing same
    obtain ⟨u, globals', p₃, ran₃', left₃, right₃, scopes⟩ :=
      checkActions_mirrors reordered.actions contexts q₁ p₁ globals q₃ left₁ right₁ ran₃
    have le := W₁.le_grow u
    -- bodies of interfaces, then of classes
    obtain ⟨interfaces, grown⟩ := bodies_end (contexts.mono le) (same.mono le) scopes Nominal.isInterface
      (Nat.le_of_eq left₃.symm) ran₄
    obtain ⟨classes, -⟩ := bodies_end (contexts.mono le) (same.mono le) scopes (fun n => !n.isInterface)
      ((Nat.le_of_eq left₃.symm).trans grown) ran₅
    obtain ⟨p₄, ran₄', grown'⟩ := interfaces p₃ (Nat.le_of_eq right₃.symm)
    obtain ⟨p₅, ran₅', -⟩ := classes p₄ ((Nat.le_of_eq right₃.symm).trans grown')
    have bodies' : knowing r' (do
        let globals ← checkActions p'
        (r'.filter fun d => d.nominal.isInterface).forM (checkDecl globals)
        (r'.filter fun d => !d.nominal.isInterface).forM (checkDecl globals)) ⟨[], p.file, [], .void⟩ p₁ = .ok ((), p₅) := by
      rw [knowing_ran]
      exact bind_ran ran₃' (bind_ran ran₄' ran₅')
    have ran' : (checkProgram p').run ⟨[], p'.file, [], .void⟩ ⟨0, [], []⟩ = .ok (r', p₅) := by
      rw [← reordered.file]
      exact bind_ran ran₁' (bind_ran bodies' rfl)
    rw [ran']
    exact ⟨_, rfl, W₁, same⟩

/-- The order of declarations does not matter to a program in which no value that is typed early mentions a field
of another declaration for which no type is written. -/
theorem declarations_in_any_order (p p' : LinkedProgram) (reordered : Reordered p p')
    (independent : Independent p.declarations) :
    ((∃ checked, p.check = .ok checked) ↔ ∃ checked', p'.check = .ok checked') ∧
      ∀ checked checked', p.check = .ok checked → p'.check = .ok checked' →
        ∃ W : Pairing, ∀ name, Option.Rel (DeclSymbol.Same W) (checked.registry.find? name) (checked'.registry.find? name) := by
  refine ⟨⟨?_, ?_⟩, fun checked checked' accepted accepted' => ?_⟩
  · rintro ⟨checked, accepted⟩
    obtain ⟨checked', accepted', -⟩ := accepted_reordered reordered independent accepted
    exact ⟨checked', accepted'⟩
  · rintro ⟨checked, accepted⟩
    obtain ⟨checked', accepted', -⟩ :=
      accepted_reordered reordered.symm (independent.perm reordered.declarations) accepted
    exact ⟨checked', accepted'⟩
  · obtain ⟨found, accepted₁, W, same⟩ := accepted_reordered reordered independent accepted
    obtain rfl : found = checked' := Except.ok.inj (accepted₁.symm.trans accepted')
    exact ⟨W, same.find⟩

open Sample

/-- Two declarations, then the binding of a name with a written type. -/
def declaring (first second : Declaration) (name type : String) (value : Expr) : LinkedProgram :=
  .ofProgram ⟨"main.clasp",
    [.declares first, .declares second, .binds default (named name) (some (.simple default type false)) (some value)],
    default⟩

theorem declaring_swap (first second : Declaration) (name type : String) (value : Expr) :
    Reordered (declaring first second name type value) (declaring second first name type value) :=
  ⟨rfl, .swap _ _ _, rfl⟩

/-- A static member of a class. -/
def memberOf (name member : String) : Expr := .member default (.name (named name)) (named member)

/-- `class D extends C { public static y = 1; }` -/
def subclass : Declaration := cls "D" (some "C") [static "y" (.number default "1")] []

/-- `class C { public static go() { D.y; } }` -/
def superclass : Declaration := cls "C" none [] [method true "go" [] [.does default (memberOf "D" "y")]]

/-- A class and its superclass that mention each other, then `let n: number = D.y;`. -/
def subclassFirst : LinkedProgram := declaring subclass superclass "n" "number" (memberOf "D" "y")

@[inherit_doc subclassFirst]
def superclassFirst : LinkedProgram := declaring superclass subclass "n" "number" (memberOf "D" "y")

theorem superclass_before_or_after :
    ∃ checked checked', subclassFirst.check = .ok checked ∧ superclassFirst.check = .ok checked' ∧
      ∃ W : Pairing, ∀ name, Option.Rel (DeclSymbol.Same W) (checked.registry.find? name) (checked'.registry.find? name) := by
  obtain ⟨accepts, same⟩ :=
    declarations_in_any_order subclassFirst superclassFirst (declaring_swap _ _ _ _ _) (by decide +kernel)
  obtain ⟨checked, accepted, -⟩ := exists_accepted (p := subclassFirst) (P := fun _ => True) (by decide +kernel)
  obtain ⟨checked', accepted'⟩ := accepts.1 ⟨checked, accepted⟩
  exact ⟨checked, checked', accepted, accepted', same checked checked' accepted accepted'⟩

/-- `class A { public static x = B.y; }` -/
def readingClass : Declaration := cls "A" none [static "x" (memberOf "B" "y")] []

/-- `class B { public static y = 1; }` -/
def readClass : Declaration := cls "B" none [static "y" (.number default "1")] []

/-- A field that is read by the initial value of another, then `let s: string = A.x;`. -/
def readingFirst : LinkedProgram := declaring readingClass readClass "s" "string" (memberOf "A" "x")

@[inherit_doc readingFirst]
def readFirst : LinkedProgram := declaring readClass readingClass "s" "string" (memberOf "A" "x")

/-- The number is taken for a string only if the declaration that reads the field comes first, as the type of the
field is not known there yet. -/
theorem later_field_is_unknown :
    (readingFirst.declarations.map fun d => d.2.name.text).Nodup ∧ Reordered readingFirst readFirst ∧
      (∃ checked, readingFirst.check = .ok checked) ∧ ¬ ∃ checked, readFirst.check = .ok checked := by
  refine ⟨by decide +kernel, declaring_swap _ _ _ _ _, ?_, ?_⟩
  · obtain ⟨checked, accepted, -⟩ := exists_accepted (p := readingFirst) (P := fun _ => True) (by decide +kernel)
    exact ⟨checked, accepted⟩
  · rintro ⟨checked, accepted⟩
    have rejected : readFirst.check.toOption.isNone = true := by decide +kernel
    rw [accepted] at rejected
    cases rejected

end ClassScript
