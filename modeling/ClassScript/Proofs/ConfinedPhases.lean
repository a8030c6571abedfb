import ClassScript.Proofs.ConfinedCode
import ClassScript.Proofs.Headers

/-!
Typing of a program stays within the bounds of the program: every fault is placed at a node of the statement around
it, and every access to a private member stands in the body of a declaration that may use it
(`checkProgram_stays`). Each phase works on one declaration at a time, in its file and at its spans; only the demand
that a class has the methods of its interfaces looks at methods of other declarations, those that the class inherits.
-/

namespace ClassScript

open Evaluation (superclassName?)

namespace LinkedProgram

variable (p : LinkedProgram)

/-- A class of one name has a class of another as a superclass, direct or not. -/
def Inherits : String → String → Prop :=
  Relation.TransGen fun name super => ∃ d ∈ p.declarations, d.2.name.text = name ∧ superclassName? d.2 = some super

/-- A fault about a method of a class is reported in the file of a class that inherits the method. -/
def BlamesHeir (s : Placed) (d : Diagnostic) : Prop :=
  d.code = "T006" ∧ ∃ decl heir, s.statement = .declares decl ∧ (∃ m ∈ decl.methods, m.mark.span = d.span) ∧
    (d.file, heir) ∈ p.declarations ∧ p.Inherits heir.name.text decl.name.text

/-- A fault is placed at a node of a statement, in the file of the statement or in that of an heir. -/
def Places (d : Diagnostic) : Prop :=
  ∃ s ∈ p.statements, d.span ∈ s.statement.spans ∧ (s.file = d.file ∨ p.BlamesHeir s d)

/-- The members of a declaration may use what is private to it or to its superclass. A constructor calls that which its
superclass inherits if the superclass has none of its own. -/
inductive MayUse (decl : Declaration) (u : Typing.Access) : Prop
  | own (isOwn : u.owner = ⟨decl.name.text, decl.isInterface⟩)
  | parent {name : String} (isParent : superclassName? decl = some name) (isOwner : u.owner = ⟨name, false⟩)
  | through {file : String} {base : Declaration} (throughParent : u.throughParent = true)
    (declared : (file, base) ∈ p.declarations) (isParent : superclassName? decl = some base.name.text)
    (lacks : ∀ m ∈ base.methods, m.name.text ≠ Builtin.constructorName)
    (inherits : p.Inherits base.name.text u.owner.name)

/-- What is private is used in the body of a declaration that may use it. -/
def Guards (u : Typing.Access) : Prop :=
  u.isPrivate = true → ∃ d ∈ p.declarations, d.1 = u.file ∧ u.span ∈ d.2.bodySpans ∧ p.MayUse d.2 u

/-- The bounds of a program. -/
def bounds : Typing.Bounds where
  access := p.Guards
  fault := p.Places

variable {p}

theorem statement_of_declared {file : String} {decl : Declaration} (declared : (file, decl) ∈ p.declarations) :
    ∃ s ∈ p.statements, s.file = file ∧ s.statement = .declares decl := by
  obtain ⟨s, member, same⟩ := List.mem_filterMap.1 declared
  split at same
  · next written =>
    cases same
    exact ⟨s, member, rfl, written⟩
  · cases same

/-- A fault at a node of a declaration, in its file. -/
theorem places_of_declared {file : String} {decl : Declaration} (declared : (file, decl) ∈ p.declarations)
    {d : Diagnostic} (sameFile : d.file = file) (within : d.span ∈ decl.spans) : p.Places d := by
  obtain ⟨s, member, isFile, written⟩ := statement_of_declared declared
  refine ⟨s, member, ?_, .inl (isFile.trans sameFile.symm)⟩
  rw [written]
  exact within

end LinkedProgram

/-! ## Spans of a declaration -/

namespace Declaration

variable (d : Declaration)

theorem bodySpans_subset_spans : d.bodySpans ⊆ d.spans := by
  obtain ⟨m, annotations, heading, name, typeParams, fields, methods⟩ := d
  unfold bodySpans spans
  cases heading <;> rw [Stmt.spans] <;> exact List.subset_cons_of_subset _ (List.subset_append_right _ _)

theorem span_mem_spans : d.span ∈ d.spans := (Stmt.declares d).span_mem_spans

variable {d}

theorem class_spans {isOpen : Bool} {parent : Option TypeExpr} {interfaces : List TypeExpr}
    (heading : d.heading = .ofClass isOpen parent interfaces) :
    TypeExpr.spansOf? parent ⊆ d.spans ∧ TypeExpr.spansAll interfaces ⊆ d.spans := by
  obtain ⟨m, annotations, _, name, typeParams, fields, methods⟩ := d
  cases heading
  unfold spans
  rw [Stmt.spans]
  constructor <;> exact fun span inside => by simp [inside]

theorem interface_spans {parents : List TypeExpr} (heading : d.heading = .ofInterface parents) :
    TypeExpr.spansAll parents ⊆ d.spans := by
  obtain ⟨m, annotations, _, name, typeParams, fields, methods⟩ := d
  cases heading
  unfold spans
  rw [Stmt.spans]
  exact fun span inside => by simp [inside]

theorem field_spans {f : Field} (member : f ∈ d.fields) :
    TypeExpr.spansOf? f.type ⊆ d.bodySpans ∧ f.init.elim [] Expr.spans ⊆ d.bodySpans := by
  have inFields {fs : List Field} (member : f ∈ fs) :
      TypeExpr.spansOf? f.type ⊆ Field.spansAll fs ∧ f.init.elim [] Expr.spans ⊆ Field.spansAll fs := by
    induction fs with
    | nil => cases member
    | cons g fs ih =>
      obtain ⟨m, annotations, modifiers, name, type, init⟩ := g
      rcases List.mem_cons.1 member with rfl | member
      · cases init <;> simp [Field.spansAll]
      · obtain ⟨types, inits⟩ := ih member
        cases init <;> exact ⟨List.subset_append_of_subset_right _ types, List.subset_append_of_subset_right _ inits⟩
  obtain ⟨types, inits⟩ := inFields member
  exact ⟨List.subset_append_of_subset_left _ types, List.subset_append_of_subset_left _ inits⟩

theorem method_spans {m : Method} (member : m ∈ d.methods) :
    m.mark.span ∈ d.bodySpans ∧ Param.spansAll m.params ⊆ d.bodySpans ∧ TypeExpr.spansOf? m.result ⊆ d.bodySpans ∧
      m.body.elim [] Block.spans ⊆ d.bodySpans := by
  have inMethods {ms : List Method} (member : m ∈ ms) :
      m.mark.span ∈ Method.spansAll ms ∧ Param.spansAll m.params ⊆ Method.spansAll ms ∧
        TypeExpr.spansOf? m.result ⊆ Method.spansAll ms ∧ m.body.elim [] Block.spans ⊆ Method.spansAll ms := by
    induction ms with
    | nil => cases member
    | cons n ms ih =>
      have split : Method.spansAll (n :: ms) = (n.mark.span :: Param.spansAll n.params ++ TypeExpr.spansOf? n.result ++
          n.body.elim [] Block.spans) ++ Method.spansAll ms := by
        obtain ⟨_, _, _, _, _, _, _, _, body⟩ := n
        cases body <;> simp [Method.spansAll]
      rw [split]
      rcases List.mem_cons.1 member with rfl | member
      · refine ⟨by simp, ?_, ?_, ?_⟩ <;> exact fun span inside => by simp [inside]
      · obtain ⟨here, params, results, bodies⟩ := ih member
        exact ⟨List.mem_append_right _ here, List.subset_append_of_subset_right _ params,
          List.subset_append_of_subset_right _ results, List.subset_append_of_subset_right _ bodies⟩
  obtain ⟨here, params, results, bodies⟩ := inMethods member
  exact ⟨List.mem_append_right _ here, List.subset_append_of_subset_right _ params,
    List.subset_append_of_subset_right _ results, List.subset_append_of_subset_right _ bodies⟩

end Declaration

theorem Param.spans_subset {p : Param} {ps : List Param} (member : p ∈ ps) :
    p.fallback.elim [] Expr.spans ⊆ Param.spansAll ps := by
  induction ps with
  | nil => cases member
  | cons q ps ih =>
    rw [Param.spansAll_cons]
    rcases List.mem_cons.1 member with rfl | member
    · exact fun span inside => by simp [inside]
    · exact List.subset_append_of_subset_right _ (ih member)

/-! ## What is known once supertypes and members are there -/

namespace Registered

variable {declarations : List (String × Declaration)} {r : Registry} {d : DeclSymbol}

theorem mem (registered : Registered declarations r) (member : d ∈ r) : (d.file, d.decl) ∈ declarations := by
  rw [← registered.declared]
  exact List.mem_map_of_mem member

theorem name_eq (registered : Registered declarations r) (member : d ∈ r) : d.name = d.decl.name.text := by
  rw [DeclSymbol.name, registered.nominal d member]

end Registered

namespace Typing

variable {p : LinkedProgram} {r : Registry} {c : Context} {d e : DeclSymbol} {α : Type}

/-- The symbols have the supertypes and the members that were written. -/
structure Sound (p : LinkedProgram) (r : Registry) : Prop where
  registered : Registered p.declarations r
  headed : ∀ d ∈ r, Headed r d
  membered : ∀ d ∈ r, Membered d

/-- The superclass of a symbol is the one that its heading names. -/
theorem Sound.parent (sound : Sound p r) (member : d ∈ r) {n : Nominal} {args : List Ty}
    (isParent : d.parent = some (n, args)) : superclassName? d.decl = some n.name ∧ n = ⟨n.name, false⟩ := by
  have heading := (sound.headed d member).parent
  rw [isParent, Option.map_some, eq_comm] at heading
  obtain ⟨name, written, rfl⟩ := Option.map_eq_some_iff.1 heading
  exact ⟨written, rfl⟩

/-- The ancestors of a class are the class itself and those it inherits from. -/
theorem Sound.ancestorsFrom_inherit (sound : Sound p r) {fuel : Nat} {seen : List String} (member : d ∈ r)
    (above : e ∈ r.ancestorsFrom fuel seen d) :
    e ∈ r ∧ (e = d ∨ p.Inherits d.decl.name.text e.decl.name.text) := by
  induction fuel generalizing seen d with
  | zero => cases above
  | succ fuel ih =>
    unfold Registry.ancestorsFrom at above
    split at above
    · cases above
    · split at above
      · rw [List.mem_singleton.1 above]
        exact ⟨member, .inl rfl⟩
      · next q found =>
        obtain ⟨⟨n, args⟩, isParent, found⟩ := Option.bind_eq_some_iff.1 found
        have member' := Registry.mem_of_find? found
        have edge : p.Inherits d.decl.name.text q.decl.name.text := by
          refine .single ⟨(d.file, d.decl), sound.registered.mem member, rfl, ?_⟩
          rw [(sound.parent member isParent).1, ← Registry.find?_name found, sound.registered.name_eq member']
        rcases List.mem_cons.1 above with rfl | above
        · exact ⟨member, .inl rfl⟩
        · obtain ⟨within, rfl | path⟩ := ih member' above
          · exact ⟨within, .inr edge⟩
          · exact ⟨within, .inr (Relation.TransGen.trans edge path)⟩

theorem ancestors_eq_cons (r : Registry) (d : DeclSymbol) : ∃ above, r.ancestors d = d :: above := by
  unfold Registry.ancestors Registry.ancestorsFrom
  simp only [List.contains_nil, Bool.false_eq_true, if_false]
  split
  · exact ⟨[], rfl⟩
  · exact ⟨_, rfl⟩

/-- A method that is found on a class belongs to the class or to one that it inherits from. -/
theorem Sound.classMethod?_owner (sound : Sound p r) (member : d ∈ r) {name : String} {m : MethodSymbol}
    (found : r.classMethod? d name = some m) :
    ∃ e ∈ r, (e = d ∨ p.Inherits d.decl.name.text e.decl.name.text) ∧ m.decl ∈ e.decl.methods := by
  obtain ⟨e, above, own⟩ := List.exists_of_findSome?_eq_some found
  obtain ⟨within, inherits⟩ := sound.ancestorsFrom_inherit member above
  have isOwn := List.mem_of_find?_eq_some (Option.filter_eq_some_iff.1 own).1
  obtain ⟨written, isWritten, symbolizes⟩ := mem_of_forall₂_right (sound.membered e within).methods isOwn
  exact ⟨e, within, inherits, symbolizes.decl ▸ isWritten⟩

/-- A class without a constructor of its own has that of a class that it inherits from. -/
theorem Sound.constructor?_owner (sound : Sound p r) (member : d ∈ r) {m : MethodSymbol}
    (found : r.constructor? d = some m) :
    m.owner = d.nominal ∨
      (∀ written ∈ d.decl.methods, written.name.text ≠ Builtin.constructorName) ∧
        p.Inherits d.decl.name.text m.owner.name := by
  have owned {e : DeclSymbol} (within : e ∈ r) (own : e.method? Builtin.constructorName = some m) :
      m.owner = e.nominal := by
    obtain ⟨_, -, symbolizes⟩ :=
      mem_of_forall₂_right (sound.membered e within).methods (List.mem_of_find?_eq_some own)
    exact symbolizes.owner
  obtain ⟨above, line⟩ := ancestors_eq_cons r d
  cases own : d.method? Builtin.constructorName with
  | some m' =>
    rw [Registry.constructor?, line, List.findSome?_cons, own] at found
    cases found
    exact .inl (owned member own)
  | none =>
    obtain ⟨e, isAbove, has⟩ := List.exists_of_findSome?_eq_some found
    obtain ⟨within, rfl | inherits⟩ := sound.ancestorsFrom_inherit member isAbove
    · rw [own] at has
      cases has
    · refine .inr ⟨fun written isWritten isConstructor => ?_, ?_⟩
      · obtain ⟨symbol, isSymbol, symbolizes⟩ := mem_of_forall₂_left (sound.membered d member).methods isWritten
        have none := List.find?_eq_none.1 own symbol isSymbol
        exact none (by simp [symbolizes.name, isConstructor])
      · rw [owned within has]
        rwa [← sound.registered.name_eq within] at inherits

/-- What the code of a declaration is permitted to use, the declaration may use. -/
theorem Sound.mayUse (sound : Sound p r) (member : d ∈ r) {u : Access} (permitted : Permitted r (some d.nominal) u)
    (isPrivate : u.isPrivate = true) : p.MayUse d.decl u := by
  have only {d' : DeclSymbol} (isAround : (some d.nominal).bind (fun n => r.find? n.name) = some d') : d' = d :=
    Option.some.inj (isAround.symm.trans (Registry.find?_of_mem sound.registered.distinct member))
  cases permitted with
  | shown isShown =>
    rw [isShown] at isPrivate
    cases isPrivate
  | own isOwn =>
    refine .own ?_
    rw [← Option.some.inj isOwn, sound.registered.nominal d member]
  | parent isAround isParent =>
    obtain rfl := only isAround
    obtain ⟨written, isClass⟩ := sound.parent member isParent
    exact .parent written isClass
  | @through d' base n args m throughParent isAround isParent known isConstructor isOwner =>
    obtain rfl := only isAround
    obtain ⟨written, isClass⟩ := sound.parent member isParent
    have member' := Registry.mem_of_find? known
    rcases sound.constructor?_owner member' isConstructor with isBase | ⟨lacks, inherits⟩
    · refine .parent written ?_
      have isName : base.name = n.name := Registry.find?_name known
      have sameKind : base.nominal = n := by
        obtain ⟨e, within, same⟩ := List.mem_map.1 ((sound.headed d' member).known n (by simp [isParent]))
        have sameName : e.name = base.name := (congrArg Nominal.name same).trans isName.symm
        rw [← same, List.inj_on_of_nodup_map sound.registered.distinct within member' sameName]
      rw [← isOwner, isBase, sameKind, ← isClass]
    · refine .through throughParent (sound.registered.mem member') ?_ lacks (isOwner ▸ inherits)
      rw [written, ← Registry.find?_name known, sound.registered.name_eq member']

/-! ## From the bounds of code to those of the program -/

/-- Code outside of the bodies of declarations uses nothing that is private. -/
theorem stays_outside (spans : List Span) {x : Analysis α} (confined : Confined spans none c x)
    (places : ∀ d : Diagnostic, d.file = c.file → d.span ∈ spans → p.Places d) : Stays p.bounds c x := by
  refine confined.mono (fun u allowed isPrivate => ?_) fun d allowed => places d allowed.1 allowed.2
  obtain ⟨-, -, permitted⟩ := allowed
  cases permitted with
  | shown isShown =>
    rw [isShown] at isPrivate
    cases isPrivate
  | own isOwn => cases isOwn
  | parent isAround => cases isAround
  | through _ isAround => cases isAround

/-- Work on the heading of a declaration. -/
theorem stays_heading {x : Analysis α} (declared : (c.file, d.decl) ∈ p.declarations)
    (confined : Confined d.decl.spans none c x) : Stays p.bounds c x :=
  stays_outside d.decl.spans confined fun _ => LinkedProgram.places_of_declared declared

/-- Code in the body of a declaration. -/
theorem stays_body (sound : Sound p r) (member : d ∈ r) {x : Analysis α} (isKnown : c.registry = r)
    (inFile : c.file = d.file) (confined : Confined d.decl.bodySpans (some d.nominal) c x) : Stays p.bounds c x := by
  subst isKnown
  have declared := sound.registered.mem member
  refine confined.mono (fun u allowed isPrivate => ?_) fun fault allowed => ?_
  · exact ⟨_, declared, (allowed.1.trans inFile).symm, allowed.2.1, sound.mayUse member allowed.2.2 isPrivate⟩
  · exact LinkedProgram.places_of_declared declared (allowed.1.trans inFile)
      (d.decl.bodySpans_subset_spans allowed.2)

/-! ## Phases -/

theorem register_stays {file : String} {decl : Declaration} (declared : (file, decl) ∈ p.declarations) (r : Registry) :
    Stays p.bounds c (register r file decl) := by
  refine Stays.withReader ((Stays.require fun _ => ?_).bind fun _ _ => ?_)
  · exact LinkedProgram.places_of_declared declared rfl decl.span_mem_spans
  · exact (Stays.mapM fun _ _ => Stays.freshVar _).bind fun _ _ => .pure _

theorem replace_stays {f : DeclSymbol → Analysis DeclSymbol} {name : String}
    (each : ∀ d ∈ r, Stays p.bounds { c with registry := r } (f d)) : Stays p.bounds c (replace f r name) := by
  unfold replace
  split
  · exact .pure _
  · next d found => exact (Stays.withReader (each d (Registry.mem_of_find? found))).bind fun _ _ => .pure _

section Headings

variable {spans : List Span}

theorem writtenInterface_confined (t : TypeExpr) (fault : TypeFault) (within : t.spans ⊆ spans) :
    Confined spans none c (writtenInterface t fault) := by
  have here := within t.span_mem_spans
  refine (written_confined t within).bind fun type _ => ?_
  split
  · exact Stays.ite (fun _ => .pure _) fun _ => Confined.reject here
  · exact Confined.reject here

theorem writtenClass_confined (t : TypeExpr) (fault : TypeFault) (within : t.spans ⊆ spans) :
    Confined spans none c (writtenClass t fault) := by
  have here := within t.span_mem_spans
  refine (written_confined t within).bind fun type _ => ?_
  split
  · exact Stays.ite (fun _ => Confined.reject here) fun _ => .pure _
  · exact Confined.reject here

theorem writtenInterfaces_confined (types : List TypeExpr) (fault : TypeExpr → TypeFault)
    (within : TypeExpr.spansAll types ⊆ spans) :
    Confined spans none c (types.mapM fun t => writtenInterface t (fault t)) :=
  Stays.mapM fun t member =>
    writtenInterface_confined t _ (List.Subset.trans (TypeExpr.spans_subset_spansAll member) within)

theorem withSupers_stays (declared : (d.file, d.decl) ∈ p.declarations) : Stays p.bounds c (withSupers d) := by
  refine Stays.withReader (Stays.withReader (stays_heading declared ?_))
  split
  · next isOpen parent interfaces heading =>
    obtain ⟨parents, all⟩ := Declaration.class_spans heading
    have rest (found : Option (Nominal × List Ty)) {c : Context} : Confined d.decl.spans none c (do
        let interfaces ← interfaces.mapM fun t => writtenInterface t (.badInterface d.name t.text)
        return { d with parent := found, interfaces }) :=
      (writtenInterfaces_confined interfaces _ all).bind fun _ _ => .pure _
    cases parent with
    | none => exact Stays.bind (.pure none) fun found _ => rest found
    | some t => exact (writtenClass_confined t _ parents).map.bind fun found _ => rest found
  · next parents heading =>
    exact (writtenInterfaces_confined parents _ (Declaration.interface_spans heading)).bind fun _ _ => .pure _

end Headings

theorem requireAcyclic_stays (declared : (d.file, d.decl) ∈ p.declarations) :
    Stays p.bounds c (requireAcyclic r d) :=
  Stays.withReader (Stays.require fun _ => LinkedProgram.places_of_declared declared rfl d.decl.span_mem_spans)

/-! ### Members -/

section Members

variable {spans : List Span}

theorem fieldSymbol_confined (owner : Nominal) (f : Field) (within : TypeExpr.spansOf? f.type ⊆ spans) :
    Confined spans none c (fieldSymbol owner f) := by
  unfold fieldSymbol
  exact declared_confined f.type within fun _ => .pure _

theorem paramSymbols_confined (afterDefault : Bool) (ps : List Param) (within : Param.spansAll ps ⊆ spans) :
    Confined spans none c (paramSymbols afterDefault ps) := by
  induction ps generalizing afterDefault with
  | nil => exact .pure []
  | cons q ps ih =>
    simp only [Param.spansAll_cons, List.cons_append, List.cons_subset, List.append_subset] at within
    obtain ⟨here, ⟨types, -⟩, rest⟩ := within
    refine (Confined.require here).bind fun _ _ => (writtenOr_confined _ q.type types).bind fun _ _ => ?_
    exact (ih _ rest).bind fun _ _ => .pure _

theorem resultType_confined (m : Method) (within : TypeExpr.spansOf? m.result ⊆ spans) :
    Confined spans none c (resultType m) := by
  unfold resultType
  split
  · exact .pure _
  · next t written =>
    have within : t.spans ⊆ spans := by rw [written] at within; exact within
    exact (Confined.require (within t.span_mem_spans)).bind fun _ _ => written_confined t within

theorem methodSymbol_confined {m : Method} (member : m ∈ d.decl.methods) (within : d.decl.bodySpans ⊆ spans) :
    Confined spans none c (methodSymbol d m) := by
  obtain ⟨here, params, results, -⟩ := Declaration.method_spans member
  have here := within here
  refine (Confined.require here).bind fun _ _ => (Confined.require here).bind fun _ _ => ?_
  refine (Stays.mapM fun _ _ => Stays.freshVar _).bind fun typeParams _ => Confined.withReader ?_ rfl rfl
  refine (paramSymbols_confined false m.params (List.Subset.trans params within)).bind fun _ _ => ?_
  refine (resultType_confined m (List.Subset.trans results within)).bind fun _ _ => ?_
  exact (Confined.require here).bind fun _ _ => .pure _

theorem withMembers_stays (declared : (d.file, d.decl) ∈ p.declarations) : Stays p.bounds c (withMembers d) := by
  have within := d.decl.bodySpans_subset_spans
  refine Stays.withReader (Stays.withReader (stays_heading declared ?_))
  refine (Stays.mapM fun f member => ?_).bind fun _ _ => (Stays.mapM fun m member => ?_).bind fun _ _ => .pure _
  · exact fieldSymbol_confined _ f (List.Subset.trans (Declaration.field_spans member).1 within)
  · exact methodSymbol_confined member within

end Members

/-! ### Initial and default values -/

theorem initialType_confined {f : FieldSymbol} (member : f.decl ∈ d.decl.fields) :
    Confined d.decl.bodySpans (some d.nominal) c (initialType d f) := by
  obtain ⟨-, inits⟩ := Declaration.field_spans member
  unfold initialType
  split
  · exact .pure _
  · next e written =>
    rw [written] at inits
    refine Stays.ite (fun _ => .pure _) fun _ => ?_
    refine (infer_confined (memberScope .global d f.isStatic) none e inits).bind fun _ _ => ?_
    exact Stays.ite (fun _ => (Stays.fresh _).bind fun _ _ => .pure _) fun _ => .pure _

theorem settleFields_stays {name : String} {fields : List FieldSymbol} {r₀ : Registry}
    (headed : ∀ d ∈ r₀, Headed r₀ d) (before : Fills p.declarations r₀ r ∧ ∀ d ∈ r, Membered d)
    (own : ∀ f ∈ fields, ∀ d ∈ p.declarations, d.2.name.text = name → f.decl ∈ d.2.fields) :
    Stays p.bounds c (settleFields name fields r) := by
  induction fields generalizing r with
  | nil => exact .pure r
  | cons f fields ih =>
    have rest := fun f member => own f (List.mem_cons_of_mem _ member)
    unfold settleFields
    split
    · next d _ found =>
      have member := Registry.mem_of_find? found
      have sound : Sound p r := ⟨before.1.registered, before.1.headed headed, before.2⟩
      have isOwn : f.decl ∈ d.decl.fields := by
        refine own f List.mem_cons_self _ (sound.registered.mem member) ?_
        rw [← sound.registered.name_eq member, Registry.find?_name found]
      refine Stays.bind ?_ fun t gives => ?_
      · exact Stays.withReader (Stays.withReader (Stays.withReader
          (stays_body sound member rfl rfl (initialType_confined isOwn))))
      · exact ih (fills_settleField before name f.name t) rest
    · exact ih before rest

theorem settleMethod_confined {m : MethodSymbol} (params : Param.spansAll (m.params.map (·.decl)) ⊆ d.decl.bodySpans) :
    Confined d.decl.bodySpans (some d.nominal) c (settleMethod d m) := by
  refine Confined.withReader (Stays.bind (Stays.mapM fun q member => ?_) fun _ _ => .pure _) rfl rfl
  have within := List.Subset.trans (Param.spans_subset (List.mem_map_of_mem member)) params
  unfold settleParam
  split
  · exact .pure _
  · next e written =>
    rw [written] at within
    refine (infer_confined (memberScope .global d true) (some q.type) e within).bind fun _ _ => ?_
    exact (Confined.requireAccepts (within e.span_mem_spans)).bind fun _ _ => .pure _

/-- The fields of a declaration are found in the program under its name. -/
theorem Sound.field_own (sound : Sound p r) {name : String} (found : r.find? name = some d) {f : FieldSymbol}
    (member : f ∈ d.fields) : ∀ e ∈ p.declarations, e.2.name.text = name → f.decl ∈ e.2.fields := by
  intro e declared isNamed
  rw [← sound.registered.declared] at declared
  obtain ⟨d', within, rfl⟩ := List.mem_map.1 declared
  have sameName : d'.name = d.name := by
    rw [sound.registered.name_eq within, Registry.find?_name found]
    exact isNamed
  have isHere := Registry.mem_of_find? found
  obtain rfl := List.inj_on_of_nodup_map sound.registered.distinct within isHere sameName
  obtain ⟨written, isWritten, symbolizes⟩ := mem_of_forall₂_right (sound.membered d' isHere).fields member
  exact symbolizes.decl ▸ isWritten

theorem settle_stays {name : String} {r₀ : Registry} (headed : ∀ d ∈ r₀, Headed r₀ d)
    (before : Fills p.declarations r₀ r ∧ ∀ d ∈ r, Membered d) : Stays p.bounds c (settle r name) := by
  unfold settle
  split
  · exact .pure _
  · next d found =>
    have sound : Sound p r := ⟨before.1.registered, before.1.headed headed, before.2⟩
    refine (settleFields_stays headed before fun f member => sound.field_own found member).bind fun r' gives => ?_
    obtain ⟨fills, membered⟩ := fills_settleFields before gives
    split
    · exact .pure _
    · next d' found' =>
      have member := Registry.mem_of_find? found'
      have sound' : Sound p r' := ⟨fills.registered, fills.headed headed, membered⟩
      refine Stays.bind (Stays.withReader (Stays.withReader (Stays.withReader
        (stays_body sound' member rfl rfl (Stays.mapM fun m isMethod => settleMethod_confined ?_))))) fun _ _ => .pure _
      obtain ⟨written, isWritten, symbolizes⟩ := mem_of_forall₂_right (membered d' member).methods isMethod
      rw [symbolizes.params]
      exact (Declaration.method_spans isWritten).2.1

theorem declare_stays : Stays p.bounds c (declare p) := by
  refine (Stays.foldlM (I := fun _ => True) (fun r _ d member => register_stays member r) (fun _ _ _ _ _ => trivial)
    trivial).bind fun r₁ names => ?_
  have registered := registered_of_register names
  refine (Stays.foldlM (I := Registered p.declarations) (fun r registered name _ => ?_)
    (fun r name r' registered gives => ?_) registered).bind fun r₂ supers => ?_
  · exact replace_stays fun d member => withSupers_stays (registered.mem member)
  · have before : Registered p.declarations r ∧ ∀ d ∈ r, d.name ∈ [] → Headed r d := ⟨registered, by simp⟩
    exact (headed_step before gives).1
  obtain ⟨registered, headed⟩ := headed_of_withSupers registered supers
  refine (Stays.forM fun d member => requireAcyclic_stays (registered.mem member)).bind fun _ _ => ?_
  refine (Stays.foldlM (I := Fills p.declarations r₂) (fun r fills name _ => ?_) (fun r name r' fills gives => ?_)
    ⟨registered, rfl⟩).bind fun r₃ members => ?_
  · exact replace_stays fun d member => withMembers_stays (fills.registered.mem member)
  · have before : Fills p.declarations r₂ r ∧ ∀ d ∈ r, d.name ∈ [] → Membered d := ⟨fills, by simp⟩
    exact (membered_step before gives).1
  exact Stays.foldlM (fun r before name _ => settle_stays headed before)
    (fun r name r' before gives => fills_settle before gives) (membered_of_withMembers registered members)

/-! ### Conformance -/

/-- A demand on the methods of a class is about a method of the class or about one that it inherits. -/
theorem requireImplements_stays (sound : Sound p r) (member : d ∈ r) (inFile : c.file = d.file) (i : DeclSymbol)
    (x : Registry.Inherited) : Stays p.bounds c (requireImplements r d i x) := by
  have declared := sound.registered.mem member
  unfold requireImplements
  dsimp only
  split
  · exact Stays.require fun _ => LinkedProgram.places_of_declared declared inFile d.decl.span_mem_spans
  · next m found =>
    obtain ⟨e, within, inherits, isOwn⟩ := sound.classMethod?_owner member found
    have placed (fault : TypeFault) (isConformance : fault.code = "T006") :
        p.Places ⟨.typing, fault.code, fault.message, m.decl.mark.span, c.file⟩ := by
      have inBody := (Declaration.method_spans isOwn).1
      rcases inherits with rfl | inherits
      · exact LinkedProgram.places_of_declared declared inFile (e.decl.bodySpans_subset_spans inBody)
      · obtain ⟨s, isStatement, -, written⟩ := LinkedProgram.statement_of_declared (sound.registered.mem within)
        refine ⟨s, isStatement, ?_, .inr ⟨isConformance, e.decl, d.decl, written, ⟨m.decl, isOwn, rfl⟩, ?_, inherits⟩⟩
        · rw [written]
          exact e.decl.bodySpans_subset_spans inBody
        · rw [inFile]
          exact declared
    refine (Stays.require fun _ => placed _ rfl).bind fun _ _ => ?_
    exact (Stays.require fun _ => placed _ rfl).bind fun _ _ => Stays.requireAccepts (placed _ rfl)

theorem requireConforms_stays (sound : Sound p r) (member : d ∈ r) (isKnown : c.registry = r)
    (inFile : c.file = d.file) : Stays p.bounds c (requireConforms d) := by
  refine Stays.read (Stays.forM fun e _ => Stays.forM fun super _ => ?_)
  obtain ⟨n, args⟩ := super
  rw [isKnown]
  dsimp only
  split
  · next i _ =>
    refine (Stays.forM fun x _ => requireImplements_stays sound member inFile i x).bind fun _ _ => ?_
    refine Stays.forM fun f _ => Stays.require fun _ => ?_
    exact LinkedProgram.places_of_declared (sound.registered.mem member) inFile d.decl.span_mem_spans
  · exact .pure _

/-! ### Statements and bodies -/

theorem checkField_confined (scope : Scope) {f : FieldSymbol} (member : f.decl ∈ d.decl.fields) :
    Confined d.decl.bodySpans scope.owner c (checkField scope f) := by
  obtain ⟨-, inits⟩ := Declaration.field_spans member
  unfold checkField
  split
  · next want _ e _ _ written =>
    rw [written] at inits
    exact (infer_confined scope (some want) e inits).bind fun _ _ => Confined.requireAccepts (inits e.span_mem_spans)
  · exact .pure _

theorem checkMethod_confined (outer : Scope) {m : MethodSymbol} (member : m.decl ∈ d.decl.methods) :
    Confined d.decl.bodySpans outer.owner c (checkMethod outer m) := by
  obtain ⟨-, -, -, bodies⟩ := Declaration.method_spans member
  unfold checkMethod
  split
  · exact .pure _
  · next b written =>
    rw [written] at bodies
    refine Confined.withReader (Confined.withReader ?_ rfl rfl) rfl rfl
    let params := m.params.map fun p => (⟨p.name, p.type, false⟩ : Binding)
    exact checkBlock_confined { outer.enter params with inConstructor := m.isConstructor } b bodies

theorem checkDecl_stays (sound : Sound p r) (member : d ∈ r) (isKnown : c.registry = r) (globals : Scope) :
    Stays p.bounds c (checkDecl globals d) := by
  have membered := sound.membered d member
  have methods {c : Context} (isKnown : c.registry = r) (inFile : c.file = d.file) :
      Stays p.bounds c (d.methods.forM fun m => checkMethod (memberScope globals d m.isStatic) m) := by
    refine Stays.forM fun m isMethod => stays_body sound member isKnown inFile ?_
    obtain ⟨written, isWritten, symbolizes⟩ := mem_of_forall₂_right membered.methods isMethod
    exact checkMethod_confined (memberScope globals d m.isStatic) (symbolizes.decl ▸ isWritten)
  refine Stays.withReader (Stays.withReader ?_)
  cases isInterface : d.nominal.isInterface with
  | true => exact methods isKnown rfl
  | false =>
    refine Stays.bind (requireConforms_stays sound member isKnown (by rfl)) fun _ _ => ?_
    refine Stays.bind (Stays.forM fun f isField => stays_body sound member isKnown rfl ?_) fun _ _ =>
      methods isKnown rfl
    obtain ⟨written, isWritten, symbolizes⟩ := mem_of_forall₂_right membered.fields isField
    exact checkField_confined (memberScope globals d f.isStatic) (symbolizes.decl ▸ isWritten)

theorem checkActions_stays : Stays p.bounds c (checkActions p) := by
  refine (Stays.fresh _).bind fun _ _ => Stays.withReader ?_
  refine Stays.foldlM (I := fun scope => scope.owner = none) (fun scope isOutside a member => ?_)
    (fun scope a scope' isOutside gives => (check_owner _ _ _ (gives_inFile gives)).trans isOutside) rfl
  refine Stays.withReader (stays_outside a.statement.spans ?_ fun d isFile within => ?_)
  · rw [← isOutside]
    exact check_confined scope a.statement (List.Subset.refl _)
  · exact ⟨a, (List.mem_filter.1 member).1, within, .inl isFile.symm⟩

/-- Typing of a program stays within its bounds. -/
theorem checkProgram_stays : Stays p.bounds c (checkProgram p) := by
  refine declare_stays.bind fun r gives => ?_
  have describes := describes_of_declare gives
  have sound : Sound p r := ⟨describes.registered, describes.headed, describes.membered⟩
  have bodies {c : Context} (isKnown : c.registry = r) (globals : Scope) (choice : DeclSymbol → Bool) :
      Stays p.bounds c ((r.filter choice).forM (checkDecl globals)) :=
    Stays.forM fun d member => checkDecl_stays sound (List.mem_filter.1 member).1 isKnown globals
  refine Stays.bind (Stays.withReader ?_) fun _ _ => .pure _
  exact checkActions_stays.bind fun globals _ => (bodies rfl globals _).bind fun _ _ => bodies rfl globals _

end Typing

end ClassScript
