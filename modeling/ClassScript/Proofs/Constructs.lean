import ClassScript.Evaluation.Interpreter
import ClassScript.Proofs.Respects

/-!
Every construct of evaluation is related to its bare form under two evaluators that are related on what it asks of
them, for every relation that evaluation respects (`Respected`), and so are the two evaluators that tie the constructs
together (`evaluator_related`). What a relation says of the building of a class and of a probe for one is its own
matter.
-/

namespace ClassScript.Evaluation

/-- The iteration without tokens and spans. -/
def Iteration.bare (it : Iteration) : Iteration := { it with body := it.body.bare, span := Span.none }

/-- Two evaluators are related on code that mentions these names only, and on classes of these names. The second one
has the bare code. -/
structure Evaluator.Related (ok : String → Prop) (R : {α : Type} → Run α → Run α → Prop) (k k' : Evaluator) :
    Prop where
  eval {e : Expr} (scope : ScopeId) : Covers ok e.walk → R (k.eval e scope) (k'.eval e.bare scope)
  exec {s : Stmt} (scope : ScopeId) : Covers ok s.walk → R (k.exec s scope) (k'.exec s.bare scope)
  callValue (f : Value) (args : List Value) (span : Span) : R (k.callValue f args span) (k'.callValue f args Span.none)
  classOf {name : String} (span : Span) : ok name → R (k.classOf name span) (k'.classOf name Span.none)
  iterate {it : Iteration} : Covers ok it.body.walk → R (k.iterate it) (k'.iterate it.bare)
  probe {v : Value} {name : String} :
    boxedName? v = some name → R (probing (k.classOf name Span.none)) (probing (k'.classOf name Span.none))

variable {ok : String → Prop} {w w' : World} {R : {α : Type} → Run α → Run α → Prop} {k k' : Evaluator}

/-! ## Classes -/

theorem buildInterface_related (rel : Respected ok w w' R) {fuel fuel' : Nat} (le : fuel ≤ fuel') {name : String}
    (allowed : ok name) (span : Span) : R (buildInterface fuel name span) (buildInterface fuel' name Span.none) := by
  induction fuel generalizing fuel' name span with
  | zero => exact rel.endless _
  | succ fuel ih =>
    obtain ⟨fuel', rfl⟩ : ∃ more, fuel' = more + 1 := ⟨fuel' - 1, by omega⟩
    unfold buildInterface
    refine rel.get_bind fun s _ => ?_
    rw [State.interface?_bare, Option.isSome_map]
    split
    · exact rel.pure ()
    · refine rel.read_bind ?_
      rw [rel.further.interface? allowed]
      cases declared : w.interface? name with
      | none => exact related_fail rel _ _
      | some decl =>
        have within := rel.further.interface?_within declared
        have known : R (modify fun s => { s with interfaces := ⟨name, decl, []⟩ :: s.interfaces } : Run PUnit)
            (modify fun s => { s with interfaces := ⟨name, decl.bare, []⟩ :: s.interfaces }) := by
          refine related_modifyInterfaces rel (fun known before i member => ?_) fun _ => rfl
          rcases List.mem_cons.1 member with rfl | member
          · exact within
          · exact before i member
        refine rel.bind known fun _ => ?_
        have supers (t : TypeExpr) : t ∈ decl.heading.supers → ok (headName t) := within.supers
        dsimp only
        rw [Declaration.heading_bare]
        cases heading : decl.heading with
        | ofClass _ _ _ => exact rel.pure ()
        | ofInterface parents =>
          rw [heading] at supers
          dsimp only [Heading.bare]
          rw [TypeExpr.bareAll_eq]
          refine related_forM_map rel fun p member => ?_
          rw [headName_bare, TypeExpr.span_bare]
          refine rel.bind (ih (by omega) (supers p member) _) fun _ => ?_
          refine related_modifyInterfaces rel (fun known before i member => ?_) fun known => ?_
          · obtain ⟨j, written, rfl⟩ := List.mem_map.1 member
            split
            · exact before j written
            · exact before j written
          · rw [List.map_map, List.map_map]
            refine List.map_congr_left fun i _ => ?_
            by_cases named : i.name = name <;> simp [InterfaceDef.bare, named]

theorem evalField_related (rel : Respected ok w w' R) (both : k.Related ok R k') (cls : Nat) (self : Option Value)
    {e : Expr} (covered : Covers ok e.walk) : R (evalField k cls self e) (evalField k' cls self e.bare) := by
  refine related_heap_bind rel fun s _ => rel.bind (related_noteInitial rel) fun _ => ?_
  rw [Heap.cls_bare]
  exact related_inContext rel _ _ (rel.bind (related_openScope rel _) fun scope => both.eval scope covered)

theorem addSupers_related (rel : Respected ok w w' R) (both : k.Related ok R k') (cls : Nat)
    {parent : Option TypeExpr} {interfaces : List TypeExpr}
    (allowed : ∀ t ∈ parent.toList ++ interfaces, ok (headName t)) :
    R (addSupers k cls parent interfaces)
      (addSupers k' cls (parent.map TypeExpr.bare) (TypeExpr.bareAll interfaces)) := by
  have rest : R
      (interfaces.forM fun t => do
        buildInterface ((← read).program.statements.length + 1) (headName t) t.span
        modifyClass cls fun c => { c with interfaces := c.interfaces ++ [headName t] })
      ((TypeExpr.bareAll interfaces).forM fun t => do
        buildInterface ((← read).program.statements.length + 1) (headName t) t.span
        modifyClass cls fun c => { c with interfaces := c.interfaces ++ [headName t] }) := by
    rw [TypeExpr.bareAll_eq]
    refine related_forM_map rel fun t member => rel.read_bind ?_
    rw [headName_bare, TypeExpr.span_bare]
    refine rel.bind ?_ fun _ => related_modifyClass rel _ (fun _ => rfl) fun _ => rfl
    exact buildInterface_related rel (Nat.succ_le_succ rel.further.levels)
      (allowed t (List.mem_append_right _ member)) _
  unfold addSupers
  cases parent with
  | none => exact rest
  | some type =>
    dsimp only [Option.map_some]
    rw [headName_bare, TypeExpr.span_bare]
    split
    · refine rel.bind (both.classOf _ (allowed type List.mem_cons_self)) fun p => ?_
      exact rel.bind (related_modifyClass rel _ (by intro _; rfl) (by intro _; rfl)) fun _ => rest
    · exact rest

theorem addMembers_related (rel : Respected ok w w' R) (cls : Nat) (decl : Declaration) :
    R (addMembers cls decl) (addMembers cls decl.bare) := by
  unfold addMembers
  rw [Declaration.isNative_bare, Declaration.text_bare, Declaration.span_bare]
  refine rel.bind (related_modifyClass rel _ (fun _ => rfl) fun _ => rfl) fun _ => ?_
  split
  · split
    · exact related_modifyClass rel _ (fun _ => rfl) fun _ => rfl
    · exact related_fail rel _ _
  · exact rel.pure ()

theorem initStatics_related (rel : Respected ok w w' R) (both : k.Related ok R k') (cls : Nat) {fields : List Field}
    (covered : ∀ f ∈ fields, ∀ e, f.init = some e → Covers ok e.walk) :
    R (initStatics k cls fields) (initStatics k' cls (Field.bareAll fields)) := by
  induction fields with
  | nil => exact rel.pure ()
  | cons f fields ih =>
    have later := ih fun g member => covered g (List.mem_cons_of_mem f member)
    have rest (v : Value) : R
        (do
          modifyClass cls fun c => c.setStatic f.name.text v
          initStatics k cls fields)
        (do
          modifyClass cls fun c => c.setStatic f.name.text v
          initStatics k' cls (Field.bareAll fields)) :=
      rel.bind (related_modifyClass rel _ (fun _ => rfl) fun _ => rfl) fun _ => later
    unfold Field.bareAll initStatics
    dsimp only
    rw [Field.modifiers_bare, Field.init_bare, Field.text_bare]
    split
    · cases held : f.init with
      | some e => exact rel.bind (evalField_related rel both cls none (covered f List.mem_cons_self e held)) rest
      | none => exact rel.bind (rel.pure _) rest
    · exact later

/-- A new class that is known under a name. -/
def registering (name : String) (c : ClassDef) : Run Nat :=
  modifyGet fun s =>
    (s.heap.classes.size,
      { s with
        classes := (name, s.heap.classes.size) :: s.classes,
        heap := { s.heap with classes := s.heap.classes.push c } })

/-- A new class gets its supertypes, members and host class. -/
def equipping (k : Evaluator) (cls : Nat) (decl : Declaration) : Run Unit := do
  match decl.heading with
  | .ofClass _ parent interfaces => addSupers k cls parent interfaces
  | .ofInterface _ => addSupers k cls none []
  addMembers cls decl

/-- A new class that is known and equipped, but whose static fields have no values yet. If it cannot be equipped, it
is forgotten. -/
def preparing (k : Evaluator) (name file : String) (decl : Declaration) : Run Nat := do
  let cls ← registering name ⟨name, file, decl, none, [], false, none, []⟩
  orForget name (equipping k cls decl)
  return cls

/-- A class is prepared, and then its static fields get their values. -/
def building (k : Evaluator) (name file : String) (decl : Declaration) : Run Nat := do
  let cls ← preparing k name file decl
  initStatics k cls decl.fields
  return cls

/-- A class that is not known is built from its declaration. -/
theorem classOf_eq (k : Evaluator) (name : String) (span : Span) :
    classOf k name span = (do
      match (← get).classes.lookup name with
      | some id => return id
      | none =>
        match (← read).class? name with
        | none => fail span (.unknownClass name)
        | some (file, decl) => building k name file decl) := by
  refine bind_congr fun s => ?_
  cases s.classes.lookup name with
  | some id => rfl
  | none =>
    refine bind_congr fun w => ?_
    cases w.class? name with
    | none => rfl
    | some d =>
      obtain ⟨file, decl⟩ := d
      dsimp only
      cases heading : decl.heading with
      | ofClass _ parent interfaces => simp only [building, preparing, equipping, heading, bind_assoc, pure_bind]; rfl
      | ofInterface _ => simp only [building, preparing, equipping, heading, bind_assoc, pure_bind]; rfl

theorem equipping_related (rel : Respected ok w w' R) (both : k.Related ok R k') (cls : Nat) {decl : Declaration}
    (within : decl.Within ok) : R (equipping k cls decl) (equipping k' cls decl.bare) := by
  have supers (t : TypeExpr) : t ∈ decl.heading.supers → ok (headName t) := within.supers
  have members := addMembers_related rel cls decl
  unfold equipping
  dsimp only
  rw [Declaration.heading_bare]
  cases heading : decl.heading with
  | ofClass _ parent interfaces =>
    rw [heading] at supers
    exact rel.bind (addSupers_related rel both cls supers) fun _ => members
  | ofInterface _ =>
    have supers : R (addSupers k cls none []) (addSupers k' cls none []) :=
      addSupers_related rel both cls fun t member => absurd member List.not_mem_nil
    exact rel.bind supers fun _ => members

/-- Two evaluators are related on classes if the relation respects that a class becomes known, and is forgotten. -/
theorem classOf_related (rel : Respected ok w w' R) (both : k.Related ok R k')
    (registered : ∀ name c, c.decl.Within ok → R (registering name c) (registering name c.bare))
    (forgetting : ∀ {x y : Run Unit} (name : String), R x y → R (orForget name x) (orForget name y)) {name : String}
    (allowed : ok name) (span : Span) : R (classOf k name span) (classOf k' name Span.none) := by
  rw [classOf_eq, classOf_eq]
  refine rel.get_bind fun s _ => ?_
  dsimp only [State.bare]
  cases s.classes.lookup name with
  | some id => exact rel.pure id
  | none =>
    refine rel.read_bind ?_
    rw [rel.further.class? allowed]
    cases declared : w.class? name with
    | none => exact related_fail rel _ _
    | some d =>
      have within := rel.further.class?_within declared
      have prepared : R (preparing k name d.1 d.2) (preparing k' name d.1 d.2.bare) :=
        rel.bind (registered name _ within) fun cls =>
          rel.bind (forgetting name (equipping_related rel both cls within)) fun _ => rel.pure cls
      refine rel.bind prepared fun cls => rel.bind ?_ fun _ => rel.pure cls
      rw [Declaration.fields_bare]
      exact initStatics_related rel both cls fun f member e => within.fields member

/-! ## Methods of the host -/

/-- A host method works alike under both evaluators; it may call functions back. -/
def HostMethod.Relates (m : HostMethod) (R : {α : Type} → Run α → Run α → Prop) (k k' : Evaluator) : Prop :=
  ∀ (span : Span) (args : List HostArg), R (m.call k span args) (m.call k' Span.none args)

theorem hostMethod?_related (rel : Respected ok w w' R) (both : k.Related ok R k') {h : Host} {name : String}
    {m : HostMethod} (found : Standard.method? h name = some m) : m.Relates R k k' := fun span _ =>
  rel.hostRelated.method (fun f item => both.callValue f [item] span) found

theorem classMethod?_related (rel : Respected ok w w' R) {c : HostClass} {name : String} {m : HostMethod}
    (found : Standard.classMethod? c name = some m) : m.Relates R k k' := fun _ _ =>
  rel.hostRelated.classMethod found

theorem boxedMethod?_related (rel : Respected ok w w' R) {c : HostClass} {v : Value} {name : String} {m : HostMethod}
    (found : Standard.boxedMethod? c v name = some m) : m.Relates R k k' := fun _ _ =>
  rel.hostRelated.boxedMethod found

/-! ## Calls -/

theorem checkCount_related (rel : Respected ok w w' R) (name : String) (params : List Param) (count : Nat)
    (span : Span) : R (checkCount name params count span) (checkCount name (Param.bareAll params) count Span.none) := by
  unfold checkCount
  dsimp only
  rw [Param.requiredCount_bareAll, Param.length_bareAll]
  split
  · exact rel.pure ()
  · split
    · exact related_fail rel _ _
    · exact related_fail rel _ _

theorem bindParams_related (rel : Respected ok w w' R) (both : k.Related ok R k') (scope : ScopeId)
    {params : List Param} (covered : Covers ok (Param.walkAll params)) (args : List Value) :
    R (bindParams k scope params args) (bindParams k' scope (Param.bareAll params) args) := by
  induction params generalizing args with
  | nil => exact rel.pure ()
  | cons p params ih =>
    obtain ⟨own, others⟩ := Param.covers_cons.1 covered
    have rest (v : Value) : R
        (do
          define scope p.name.text (coerce p.type v)
          bindParams k scope params args.tail)
        (do
          define scope p.name.text (coerce p.type v)
          bindParams k' scope (Param.bareAll params) args.tail) :=
      rel.bind (related_define rel _ _ _) fun _ => ih others args.tail
    unfold Param.bareAll bindParams
    rw [Param.text_bare, Param.type_bare, Param.fallback_bare]
    simp only [coerce_bare]
    cases args with
    | cons a args => exact rel.bind (rel.pure _) rest
    | nil =>
      cases held : p.fallback with
      | some e => exact rel.bind (both.eval scope (own e held)) rest
      | none => exact related_fail_bind rel _ _ _ _

theorem withDefaults_related (rel : Respected ok w w' R) (both : k.Related ok R k') {m : FoundMethod}
    (covered : Covers ok (Param.walkAll m.decl.params)) (args : List Value) (span : Span) :
    R (withDefaults k m args span) (withDefaults k' m.bare args Span.none) := by
  have params : m.bare.decl.params = Param.bareAll m.decl.params := m.decl.params_bare
  unfold withDefaults
  rw [params, FoundMethod.name_bare]
  dsimp only
  rw [Param.length_bareAll]
  refine rel.bind (checkCount_related rel _ _ _ _) fun _ => ?_
  split
  · exact rel.pure _
  · refine rel.bind (related_noteTurn rel) fun _ => related_releasing rel (rel.bind (related_openScope rel _) fun scope => ?_)
    refine rel.bind (bindParams_related rel both scope covered args) fun _ => ?_
    rw [Param.bareAll_eq]
    refine related_mapM_map rel fun p => ?_
    rw [Param.text_bare]
    exact rel.bind (related_binding? rel _ _) fun _ => rel.pure _

theorem execAll_related (rel : Respected ok w w' R) (both : k.Related ok R k') (scope : ScopeId)
    {statements : List Stmt} (covered : Covers ok (Stmt.walkAll statements)) :
    R (execAll k scope statements) (execAll k' scope (Stmt.bareAll statements)) := by
  induction statements with
  | nil => exact rel.pure _
  | cons s statements ih =>
    obtain ⟨own, others⟩ := covers_append.1 covered
    refine rel.bind (both.exec scope own) fun outcome => ?_
    cases outcome with
    | returned v => exact rel.pure _
    | normal => exact ih others

theorem execBlock_related (rel : Respected ok w w' R) (both : k.Related ok R k') {b : Block}
    (covered : Covers ok b.walk) (outer : ScopeId) : R (execBlock k b outer) (execBlock k' b.bare outer) := by
  obtain ⟨mark, statements⟩ := b
  refine related_releasing rel (rel.bind (related_openScope rel _) fun scope => ?_)
  exact execAll_related rel both scope covered

theorem invoke_related (rel : Respected ok w w' R) (both : k.Related ok R k') {m : FoundMethod}
    (within : m.decl.Within ok) (from_ : Option Nat) (self : Option Value) (args : List Value) (span : Span) :
    R (invoke k m from_ self args span) (invoke k' m.bare from_ self args Span.none) := by
  have params : m.bare.decl.params = Param.bareAll m.decl.params := m.decl.params_bare
  have body : m.bare.decl.body = m.decl.body.map Block.bare := m.decl.body_bare
  have result : m.bare.decl.result = m.decl.result.map TypeExpr.bare := m.decl.result_bare
  have isConstructor : m.bare.decl.isConstructor = m.decl.isConstructor := m.decl.isConstructor_bare
  have owner : m.bare.owner = m.owner := rfl
  unfold invoke
  rw [params, body, isConstructor, owner, result, FoundMethod.name_bare]
  simp only [coerce_bare]
  refine rel.bind (checkCount_related rel _ _ _ _) fun _ => rel.bind (related_checkDepth rel _) fun _ => ?_
  refine related_heap_bind rel fun s _ => ?_
  have file (c : Nat) : (s.heap.bare.cls c).file = (s.heap.cls c).file := by
    rw [Heap.cls_bare]
    rfl
  simp only [file]
  refine related_inContext rel _ _ (rel.bind (related_openScope rel _) fun scope => ?_)
  refine rel.bind (bindParams_related rel both scope within.params args) fun _ => ?_
  cases held : m.decl.body with
  | none => exact rel.pure _
  | some body =>
    refine rel.bind (execBlock_related rel both (within.body held) scope) fun outcome => ?_
    cases outcome with
    | normal => exact rel.pure _
    | returned v => exact rel.pure _

theorem callLambda_related (rel : Respected ok w w' R) (both : k.Related ok R k') {c : Closure} (within : c.Within ok)
    (args : List Value) (span : Span) : R (callLambda k c args span) (callLambda k' c.bare args Span.none) := by
  obtain ⟨params, result, body, frame, context⟩ := c
  unfold callLambda
  dsimp only [Closure.bare]
  simp only [coerce_bare]
  refine rel.bind (checkCount_related rel _ _ _ _) fun _ => rel.bind (related_checkDepth rel _) fun _ => ?_
  refine related_inContext rel _ _ (rel.bind (related_openFrame rel _) fun scope => ?_)
  refine rel.bind (bindParams_related rel both scope within.params args) fun _ => ?_
  cases body with
  | value e => exact rel.bind (both.eval scope (within.value rfl)) fun _ => rel.pure _
  | block b =>
    refine rel.bind (execBlock_related rel both (within.block rfl) scope) fun outcome => ?_
    cases outcome with
    | normal => exact rel.pure _
    | returned v => exact rel.pure _

theorem toValue_related (rel : Respected ok w w' R) (both : k.Related ok R k') (v : Value) (span : Span) :
    R (toValue k v span) (toValue k' v Span.none) := by
  unfold toValue
  split
  · refine rel.bind (both.classOf _ (rel.further.host _)) fun cls => ?_
    exact rel.bind (related_newObject rel _ _) fun _ => rel.pure _
  · exact rel.pure _

theorem passAll_related (rel : Respected ok w w' R) (name : String) (span : Span) (position : Nat)
    (params : List ParamKind) (args : List Value) :
    R (passAll name span position params args) (passAll name Span.none position params args) := by
  induction params generalizing position args with
  | nil => exact rel.pure _
  | cons p params ih =>
    cases args with
    | nil => exact rel.pure _
    | cons v args =>
      refine related_heap_bind rel fun s _ => ?_
      rw [pass_bare]
      split
      · exact related_fail rel _ _
      · exact rel.bind (ih _ _) fun _ => rel.pure _

theorem callHost_related (rel : Respected ok w w' R) (both : k.Related ok R k') {m : HostMethod}
    (host : m.Relates R k k') (name : String) (args : List Value) (span : Span) :
    R (callHost k m name args span) (callHost k' m name args Span.none) := by
  unfold callHost
  dsimp only
  split
  · exact related_fail_bind rel _ _ _ _
  · refine rel.bind (passAll_related rel _ _ _ _ _) fun passed => rel.bind (related_noteTurn rel) fun _ => ?_
    refine rel.bind (host span passed) fun r => ?_
    split
    · exact toValue_related rel both _ _
    · exact related_fail rel _ _
    · exact related_fail rel _ _

theorem callDeclared_related (rel : Respected ok w w' R) (both : k.Related ok R k') {m : HostMethod}
    (host : m.Relates R k k') {declared : Option FoundMethod} (within : ∀ d ∈ declared, d.decl.Within ok)
    (name : String) (args : List Value) (span : Span) :
    R (callDeclared k m declared name args span)
      (callDeclared k' m (declared.map FoundMethod.bare) name args Span.none) := by
  unfold callDeclared
  cases declared with
  | none => exact rel.bind (rel.pure _) fun _ => callHost_related rel both host _ _ _
  | some d =>
    refine rel.bind (withDefaults_related rel both (within d rfl).params args span) fun _ => ?_
    exact callHost_related rel both host _ _ _

theorem callObject_related (rel : Respected ok w w' R) (both : k.Related ok R k') (id : Nat) (name : String)
    (args : List Value) (span : Span) : R (callObject k id name args span) (callObject k' id name args Span.none) := by
  refine related_heap_bind rel fun s _ => related_heap_bind rel fun s' _ => ?_
  have cls : (s'.heap.bare.cls (s.heap.bare.object id).cls).name = (s'.heap.cls (s.heap.object id).cls).name := by
    rw [Heap.cls_bare]
    rfl
  rw [cls]
  refine related_method?_bind rel _ _ fun found within => ?_
  have instance_ : ∀ d ∈ found.filter fun m => !m.isStatic, d.decl.Within ok := fun d member =>
    within d (Option.filter_eq_some_iff.1 member).1
  dsimp only
  rw [FoundMethod.filter_bare (by simp), FoundMethod.filter_bare FoundMethod.hasBody_bare, Heap.object_bare]
  cases own : (found.filter fun m => !m.isStatic).filter FoundMethod.hasBody with
  | some m => exact invoke_related rel both (instance_ m (Option.filter_eq_some_iff.1 own).1) _ _ _ _
  | none =>
    dsimp only [Option.map_none]
    rw [Option.isSome_map]
    split
    · next m hosted =>
      obtain ⟨thing, -, method⟩ := Option.bind_eq_some_iff.mp hosted
      exact callDeclared_related rel both (hostMethod?_related rel both method) instance_ _ _ _
    · split
      · exact related_fail rel _ _
      · exact related_fail rel _ _

theorem callStatic_related (rel : Respected ok w w' R) (both : k.Related ok R k') (id : Nat) (name : String)
    (args : List Value) (span : Span) : R (callStatic k id name args span) (callStatic k' id name args Span.none) := by
  refine related_heap_bind rel fun s _ => ?_
  have cls : (s.heap.bare.cls id).name = (s.heap.cls id).name := by
    rw [Heap.cls_bare]
    rfl
  rw [cls]
  refine related_method?_bind rel _ _ fun found within => ?_
  rw [FoundMethod.filter_bare FoundMethod.isStatic_bare]
  cases static : found.filter FoundMethod.isStatic with
  | none => exact related_fail rel _ _
  | some m =>
    have own := within m (Option.filter_eq_some_iff.1 static).1
    dsimp only [Option.map_some]
    rw [FoundMethod.hasBody_bare]
    split
    · exact invoke_related rel both own _ _ _ _
    · refine related_heap_bind rel fun s' _ => ?_
      have hosts : ((s'.heap.bare.lineage id).findSome? fun c => c.host.bind fun h => Standard.classMethod? h name) =
          (s'.heap.lineage id).findSome? fun c => c.host.bind fun h => Standard.classMethod? h name := by
        rw [Heap.lineage_bare, List.findSome?_map]
        rfl
      rw [hosts]
      split
      · next hm hosted =>
        obtain ⟨cls, -, bound⟩ := List.exists_of_findSome?_eq_some hosted
        obtain ⟨host, -, method⟩ := Option.bind_eq_some_iff.mp bound
        refine callDeclared_related rel both (classMethod?_related rel method) (fun d same => ?_) _ _ _
        cases same
        exact own
      · exact related_fail rel _ _

theorem callBoxed_related (rel : Respected ok w w' R) (both : k.Related ok R k') {boxed : String}
    (allowed : ok boxed) (v : Value) (name : String) (args : List Value) (span : Span) :
    R (callBoxed k boxed v name args span) (callBoxed k' boxed v name args Span.none) := by
  refine rel.bind (both.classOf _ allowed) fun id => related_method?_bind rel _ _ fun declared within => ?_
  rw [FoundMethod.filter_bare (by simp)]
  cases own : declared.filter fun m => m.hasBody && !m.isStatic with
  | some m => exact invoke_related rel both (within m (Option.filter_eq_some_iff.1 own).1) _ _ _ _
  | none =>
    refine related_heap_bind rel fun s _ => ?_
    rw [Heap.cls_bare]
    dsimp only [ClassDef.bare]
    split
    · exact related_failNamed rel _ _ v
    · split
      · next m method => exact callDeclared_related rel both (boxedMethod?_related rel method) within _ _ _
      · rw [Option.isSome_map]
        split
        · exact related_fail rel _ _
        · exact related_failNamed rel _ _ v

theorem callMethod_related (rel : Respected ok w w' R) (both : k.Related ok R k') (receiver : Value) (name : String)
    (args : List Value) (span : Span) :
    R (callMethod k receiver name args span) (callMethod k' receiver name args Span.none) := by
  unfold callMethod
  split
  · exact related_fail rel _ _
  · exact callObject_related rel both _ _ _ _
  · exact callStatic_related rel both _ _ _ _
  · split
    · next boxed => exact callBoxed_related rel both (rel.further.boxed boxed) _ _ _ _
    · exact related_failNamed rel _ _ _

/-- Whether a primitive value has a method, which the class `boxed` gives. -/
def hasBoxed (k : Evaluator) (boxed : String) (v : Value) (name : String) : Run Bool := do
  match ← probing (k.classOf boxed Span.none) with
  | none => return false
  | some id =>
    if (← method? id name).isSome then return true
    else
      let host := ((← heap).cls id).host
      return (host.bind fun h => Standard.boxedMethod? h v name).isSome

theorem hasMethod_eq (k : Evaluator) {v : Value} {boxed : String} (found : boxedName? v = some boxed) (name : String) :
    hasMethod k v name = hasBoxed k boxed v name := by
  have probed (f : Option Nat → Run Bool) :
      probing (k.classOf boxed Span.none) >>= f = attempt (k.classOf boxed Span.none) >>= fun r => f r.toOption := by
    unfold probing
    rw [bind_assoc]
    refine bind_congr fun r => ?_
    cases r <;> rfl
  unfold hasBoxed
  rw [probed]
  cases v <;> cases found <;>
    · refine bind_congr fun r => ?_
      cases r <;> rfl

theorem hasBoxed_related (rel : Respected ok w w' R) (both : k.Related ok R k') {v : Value} {boxed : String}
    (found : boxedName? v = some boxed) (name : String) :
    R (hasBoxed k boxed v name) (hasBoxed k' boxed v name) := by
  refine rel.bind (both.probe found) fun r => ?_
  cases r with
  | none => exact rel.pure _
  | some id =>
    refine related_method?_bind rel _ _ fun found _ => ?_
    rw [Option.isSome_map]
    split
    · exact rel.pure _
    · refine related_heap_bind rel fun s _ => ?_
      rw [Heap.cls_bare]
      exact rel.pure _

theorem hasMethod_related (rel : Respected ok w w' R) (both : k.Related ok R k') (v : Value) (name : String) :
    R (hasMethod k v name) (hasMethod k' v name) := by
  cases boxed : boxedName? v with
  | some boxed' =>
    rw [hasMethod_eq k boxed, hasMethod_eq k' boxed]
    exact hasBoxed_related rel both boxed name
  | none =>
    unfold hasMethod
    cases v with
    | object id =>
      refine related_heap_bind rel fun s _ => related_method?_bind rel _ _ fun found _ => ?_
      rw [Option.any_map]
      simp only [FoundMethod.isStatic_bare]
      split
      · exact rel.pure _
      · exact rel.pure _
    | classRef c n =>
      refine related_method?_bind rel _ _ fun found _ => ?_
      rw [Option.any_map]
      simp only [FoundMethod.isStatic_bare]
      exact rel.pure _
    | number _ => cases boxed
    | string _ => cases boxed
    | boolean _ => cases boxed
    | _ => exact rel.pure _

theorem callValue_related (rel : Respected ok w w' R) (both : k.Related ok R k') (f : Value) (args : List Value)
    (span : Span) : R (callValue k f args span) (callValue k' f args Span.none) := by
  unfold callValue
  split
  · refine related_heap_bind rel fun s held => ?_
    rw [Heap.closure_bare]
    exact callLambda_related rel both (held.closure _) _ _
  · exact related_heap_bind rel fun s _ => callMethod_related rel both _ _ _ _
  · exact related_fail rel _ _
  · exact related_failNamed rel _ _ _

theorem callParentConstructor_related (rel : Respected ok w w' R) (both : k.Related ok R k') (args : List Value)
    (span : Span) : R (callParentConstructor k args span) (callParentConstructor k' args Span.none) := by
  refine rel.get_bind fun s _ => ?_
  rw [State.parentContext?_bare]
  split
  · exact related_fail rel _ _
  · next parent self _ =>
    refine rel.get_bind fun s' held => ?_
    rw [State.constructor?_bare]
    cases found : s'.constructor? parent with
    | none =>
      dsimp only [Option.map_none]
      split
      · exact rel.pure _
      · refine related_heap_bind rel fun s'' _ => ?_
        rw [Heap.cls_bare]
        exact related_fail rel _ _
    | some ctor =>
      dsimp only [Option.map_some]
      rw [FoundMethod.hasBody_bare]
      split
      · exact rel.bind (invoke_related rel both (held.constructor? found) _ _ _ _) fun _ => rel.pure _
      · exact rel.pure _

theorem callParentMethod_related (rel : Respected ok w w' R) (both : k.Related ok R k') (property : Name)
    (args : List Value) (span : Span) :
    R (callParentMethod k property args span) (callParentMethod k' property.bare args Span.none) := by
  refine rel.get_bind fun s _ => ?_
  rw [State.parentContext?_bare]
  split
  · exact related_fail rel _ _
  · next parent self _ =>
    refine related_heap_bind rel fun s' _ => ?_
    have cls : (s'.heap.bare.cls parent).name = (s'.heap.cls parent).name := by
      rw [Heap.cls_bare]
      rfl
    rw [cls]
    refine related_method?_bind rel _ _ fun declared within => ?_
    rw [FoundMethod.filter_bare (by simp)]
    cases own : declared.filter fun m => m.hasBody && !m.isStatic with
    | some m => exact invoke_related rel both (within m (Option.filter_eq_some_iff.1 own).1) _ _ _ _
    | none =>
      refine related_heap_bind rel fun s'' _ => ?_
      have text : property.bare.text = property.text := rfl
      dsimp only
      simp only [text, Heap.object_bare]
      split
      · next m hosted =>
        obtain ⟨thing, -, method⟩ := Option.bind_eq_some_iff.mp hosted
        exact callDeclared_related rel both (hostMethod?_related rel both method) within _ _ _
      · exact related_fail rel _ _

theorem createHost_related (rel : Respected ok w w' R) (both : k.Related ok R k') (cls : Nat)
    {ctor : Option FoundMethod} (within : ∀ c ∈ ctor, c.decl.Within ok) (args : List Value) (span : Span) :
    R (createHost k cls ctor args span) (createHost k' cls (ctor.map FoundMethod.bare) args Span.none) := by
  refine rel.get_bind fun s _ => ?_
  rw [State.hostAncestor?_bare]
  split
  · exact rel.pure _
  · next h _ =>
    have rest (passed : List Value) : R
        (do
          if passed.isEmpty then return some (← newArray (.fitting []))
          else
            fail span (.hostFailed ("new " ++ h.name) (HostFault.constructorCount passed.length).message))
        (do
          if passed.isEmpty then return some (← newArray (.fitting []))
          else
            fail Span.none (.hostFailed ("new " ++ h.name) (HostFault.constructorCount passed.length).message)) := by
      split
      · exact rel.bind (related_newArray rel _) fun _ => rel.pure _
      · exact related_fail rel _ _
    split
    · exact related_fail rel _ _
    · cases ctor with
      | none => exact rel.bind (rel.pure _) rest
      | some c =>
        dsimp only [Option.map_some]
        rw [FoundMethod.hasBody_bare]
        split
        · exact rel.bind (rel.pure _) rest
        · exact rel.bind (withDefaults_related rel both (within _ rfl).params _ _) rest

theorem initFields_related (rel : Respected ok w w' R) (both : k.Related ok R k') (cls object : Nat)
    {fields : List Field} (covered : ∀ f ∈ fields, ∀ e, f.init = some e → Covers ok e.walk) :
    R (initFields k cls object fields) (initFields k' cls object (fields.map Field.bare)) := by
  induction fields with
  | nil => exact rel.pure ()
  | cons f fields ih =>
    have later := ih fun g member => covered g (List.mem_cons_of_mem f member)
    have rest (v : Value) : R
        (do
          setField object f.name.text (coerce f.type v)
          initFields k cls object fields)
        (do
          setField object f.name.text (coerce f.type v)
          initFields k' cls object (fields.map Field.bare)) :=
      rel.bind (related_setField rel _ _ _) fun _ => later
    rw [List.map_cons]
    unfold initFields
    dsimp only
    rw [Field.init_bare, Field.text_bare, Field.type_bare]
    simp only [coerce_bare]
    cases held : f.init with
    | some e => exact rel.bind (evalField_related rel both _ _ (covered f List.mem_cons_self e held)) rest
    | none => exact rel.bind (rel.pure _) rest

theorem instantiate_related (rel : Respected ok w w' R) (both : k.Related ok R k') (cls : Nat) (args : List Value)
    (span : Span) : R (instantiate k cls args span) (instantiate k' cls args Span.none) := by
  refine rel.get_bind fun s held => ?_
  have within : ∀ c ∈ s.constructor? cls, c.decl.Within ok := fun c found => held.constructor? found
  rw [State.constructor?_bare]
  refine rel.bind (createHost_related rel both _ within _ _) fun host => ?_
  refine rel.bind (related_newObject rel _ _) fun id => related_heap_bind rel fun s' _ => ?_
  rw [Heap.chain_bare]
  refine rel.bind (related_forM rel fun c _ => ?_) fun _ => ?_
  · refine related_heap_bind rel fun s held => ?_
    rw [Heap.cls_bare, ClassDef.instanceFields_bare]
    exact initFields_related rel both _ _ fun f member e init => held.instanceFields member init
  · dsimp only
    cases found : s.constructor? cls with
    | some c =>
      dsimp only [Option.map_some]
      rw [FoundMethod.hasBody_bare]
      split
      · exact rel.bind (invoke_related rel both (within c found) _ _ _ _) fun _ => rel.pure id
      · exact rel.pure id
    | none =>
      dsimp only [Option.map_none]
      split
      · refine related_heap_bind rel fun s'' _ => ?_
        rw [Heap.cls_bare]
        exact related_fail_bind rel _ _ _ _
      · exact rel.pure id

/-! ## Markup -/

theorem evalAttributes_related (rel : Respected ok w w' R) (both : k.Related ok R k') (scope : ScopeId)
    {attributes : List Attribute} (covered : Covers ok (Attribute.walkAll attributes)) :
    R (evalAttributes k scope attributes) (evalAttributes k' scope (Attribute.bareAll attributes)) := by
  induction attributes with
  | nil => exact rel.pure _
  | cons a attributes ih =>
    obtain ⟨own, others⟩ := Attribute.covers_cons.1 covered
    obtain ⟨mark, name, value⟩ := a
    refine rel.bind (both.eval scope own) fun _ => ?_
    exact rel.bind (ih others) fun _ => rel.pure _

theorem renderComponent_related (rel : Respected ok w w' R) (both : k.Related ok R k') {tag : String}
    (allowed : ok tag) (attrs : List (String × Value)) (span : Span) :
    R (renderComponent k tag attrs span) (renderComponent k' tag attrs Span.none) := by
  refine rel.bind (both.classOf _ allowed) fun cls => related_method?_bind rel _ _ fun found _ => ?_
  rw [Option.isNone_map]
  dsimp only
  split
  · exact related_fail_bind rel _ _ _ _
  · refine rel.bind (instantiate_related rel both _ _ _) fun id => ?_
    refine rel.bind (related_forM rel fun a _ => related_setField rel _ _ _) fun _ => ?_
    exact callMethod_related rel both _ _ _ _

/-- What a component renders is covered if it fails. -/
theorem component?_eq (k : Evaluator) (tag : String) (attrs : List (String × Value)) (span : Span) :
    component? k tag attrs span = (do
      if ((← read).class? tag).isNone then return none else covering (renderComponent k tag attrs span)) := by
  refine bind_congr fun w => ?_
  split
  · rfl
  · refine bind_congr fun r => ?_
    cases r <;> rfl

theorem component?_related (rel : Respected ok w w' R) (both : k.Related ok R k') {tag : String} (allowed : ok tag)
    (attrs : List (String × Value)) (span : Span) :
    R (component? k tag attrs span) (component? k' tag attrs Span.none) := by
  rw [component?_eq, component?_eq]
  refine rel.read_bind ?_
  rw [rel.further.isNone_class? allowed]
  split
  · exact rel.pure _
  · exact rel.covering (renderComponent_related rel both allowed attrs span)

theorem toProperty_related (rel : Respected ok w w' R) (v : Value) : R (toProperty v) (toProperty v) := by
  unfold toProperty
  split
  · exact rel.pure _
  · exact rel.pure _
  · exact rel.pure _
  · exact rel.pure _
  · exact rel.bind (related_text rel _) fun _ => rel.pure _

theorem addProps_related (rel : Respected ok w w' R) (n : Markup.Node) (props : List (String × Value)) :
    R (addProps n props) (addProps n props) := by
  induction props generalizing n with
  | nil => exact rel.pure n
  | cons p props ih => exact rel.bind (toProperty_related rel p.2) fun _ => ih _

theorem addValue_related (rel : Respected ok w w' R) (n : Markup.Node) (v : Value) :
    R (addValue n v) (addValue n v) := by
  refine related_heap_bind rel fun s _ => ?_
  have nesting : s.heap.bare.nesting = s.heap.nesting := rfl
  rw [nesting, Heap.addValue_bare]
  split
  · exact rel.pure _
  · exact rel.endless _

theorem addChildren_related (rel : Respected ok w w' R) (both : k.Related ok R k') (scope : ScopeId)
    (n : Markup.Node) {children : List Child} (covered : Covers ok (Child.walkAll children)) :
    R (addChildren k scope n children) (addChildren k' scope n (Child.bareAll children)) := by
  induction children generalizing n with
  | nil => exact rel.pure n
  | cons c children ih =>
    cases c with
    | text m t => exact rel.bind (rel.pure _) fun n => ih n covered
    | element e =>
      obtain ⟨own, others⟩ := Child.covers_element.1 covered
      refine rel.bind (both.eval scope own) fun v => ?_
      exact rel.bind (addValue_related rel n v) fun n => ih n others
    | hole m e =>
      obtain ⟨own, others⟩ := covers_append.1 covered
      refine rel.bind (both.eval scope own) fun v => ?_
      exact rel.bind (addValue_related rel n v) fun n => ih n others

theorem wrapNode_related (rel : Respected ok w w' R) (both : k.Related ok R k') (n : Markup.Node) (span : Span) :
    R (wrapNode k n span) (wrapNode k' n Span.none) := by
  have allowed : ok Builtin.nodeClass := rel.further.host .node
  refine rel.bind (related_newNode rel n) fun h => rel.read_bind ?_
  rw [rel.further.isNone_class? allowed]
  split
  · exact rel.pure _
  · refine rel.bind (both.classOf _ allowed) fun cls => ?_
    exact rel.bind (related_newObject rel _ _) fun _ => rel.pure _

theorem evalElement_related (rel : Respected ok w w' R) (both : k.Related ok R k') {e : Element}
    (covered : Covers ok (Expr.markup e).walk) (scope : ScopeId) :
    R (evalElement k e scope) (evalElement k' e.bare scope) := by
  obtain ⟨mark, tag, attributes, children, selfClosing⟩ := e
  obtain ⟨own, inner⟩ := covers_cons.1 covered
  obtain ⟨attributes, children⟩ := covers_append.1 inner
  refine rel.bind (evalAttributes_related rel both scope attributes) fun attrs => ?_
  refine rel.bind (component?_related rel both (own tag List.mem_cons_self) _ _) fun rendered => ?_
  cases rendered with
  | some v => exact rel.pure _
  | none =>
    refine rel.bind (addProps_related rel _ _) fun n => ?_
    refine rel.bind (addChildren_related rel both scope n children) fun n => ?_
    exact wrapNode_related rel both n _

/-! ## Expressions -/

theorem evalName_related (rel : Respected ok w w' R) (both : k.Related ok R k') {id : Name} (allowed : ok id.text)
    (scope : ScopeId) : R (evalName k id scope) (evalName k' id.bare scope) := by
  refine rel.bind (related_binding? rel _ _) fun found => ?_
  cases found with
  | some v => exact rel.pure _
  | none =>
    refine rel.read_bind ?_
    have known : (w'.class? id.bare.text).isSome = (w.class? id.text).isSome := by
      rw [Name.bare, rel.further.class? allowed, Option.isSome_map]
    rw [known]
    split
    · exact rel.bind (both.classOf _ allowed) fun cls => related_newClassRef rel cls
    · exact related_fail rel _ _

theorem evalAll_related (rel : Respected ok w w' R) (both : k.Related ok R k') (scope : ScopeId) {es : List Expr}
    (covered : Covers ok (Expr.walkAll es)) : R (evalAll k scope es) (evalAll k' scope (Expr.bareAll es)) := by
  induction es with
  | nil => exact rel.pure _
  | cons e es ih =>
    obtain ⟨own, others⟩ := covers_append.1 covered
    refine rel.bind (both.eval scope own) fun _ => ?_
    exact rel.bind (ih others) fun _ => rel.pure _

theorem applyUnary_related (rel : Respected ok w w' R) (op : UnaryOp) (v : Value) (span : Span) :
    R (applyUnary op v span) (applyUnary op v Span.none) := by
  unfold applyUnary
  split
  · exact rel.pure _
  · exact rel.pure _
  · exact related_failNamed rel _ _ _

theorem numeric_related (rel : Respected ok w w' R) (op : BinaryOp) (left right : Value) (span : Span) :
    let numeric (span : Span) : Run Value := do
      match left, right with
      | .number x, .number y =>
        match numericResult? op x y with
        | some v => return v
        | none => fail span .divisionByZero
      | _, _ => fail span (.badBinary op.spelling (← typeName left) (← typeName right))
    R (numeric span) (numeric Span.none) := by
  dsimp only
  split
  · split
    · exact rel.pure _
    · exact related_fail rel _ _
  · exact rel.bind (related_typeName rel _) fun _ => related_failNamed rel _ _ _

theorem applyBinary_related (rel : Respected ok w w' R) (op : BinaryOp) (left right : Value) (span : Span) :
    R (applyBinary op left right span) (applyBinary op left right Span.none) := by
  unfold applyBinary
  dsimp only
  split
  · refine related_heap_bind rel fun s _ => ?_
    rw [Heap.equal_bare]
    exact rel.pure _
  · refine related_heap_bind rel fun s _ => ?_
    rw [Heap.equal_bare]
    exact rel.pure _
  · split
    · exact rel.bind (related_text rel _) fun _ => rel.bind (related_text rel _) fun _ => rel.pure _
    · exact numeric_related rel .add left right span
  · exact numeric_related rel op left right span

theorem logicOperand_related (rel : Respected ok w w' R) (op : BinaryOp) (e : Expr) (v : Value) :
    R (logicOperand op e v) (logicOperand op e.bare v) := by
  unfold logicOperand
  rw [Expr.span_bare]
  split
  · exact rel.pure _
  · exact related_failNamed rel _ _ _

theorem evalLogic_related (rel : Respected ok w w' R) (both : k.Related ok R k') (op : BinaryOp) (decisive : Bool)
    {left right : Expr} (first : Covers ok left.walk) (second : Covers ok right.walk) (scope : ScopeId) :
    R (evalLogic k op decisive left right scope) (evalLogic k' op decisive left.bare right.bare scope) := by
  refine rel.bind (both.eval scope first) fun l => rel.bind (logicOperand_related rel _ _ _) fun b => ?_
  split
  · exact rel.pure _
  · refine rel.bind (both.eval scope second) fun r => ?_
    exact rel.bind (logicOperand_related rel _ _ _) fun _ => rel.pure _

theorem evalReceiver_related (rel : Respected ok w w' R) (both : k.Related ok R k') {object : Expr}
    (covered : Covers ok object.walk) (scope : ScopeId) :
    R (evalReceiver k object scope) (evalReceiver k' object.bare scope) := by
  cases object with
  | parent m =>
    refine rel.bind (related_current rel) fun frame => ?_
    cases frame.bind (·.self) with
    | some self => exact rel.pure _
    | none => exact related_fail rel _ _
  | _ => exact both.eval _ covered

theorem setMember_related (rel : Respected ok w w' R) (object : Value) (property : Name) (v : Value) :
    R (setMember object property v) (setMember object property.bare v) := by
  cases object with
  | null => exact related_fail rel _ _
  | object id =>
    refine rel.get_bind fun s _ => related_heap_bind rel fun s' _ => ?_
    have type : (s.bare.instanceField? (s'.heap.object id).cls property.text).bind (·.type) =
        ((s.instanceField? (s'.heap.object id).cls property.text).bind (·.type)).map TypeExpr.bare := by
      rw [State.instanceField?_bare]
      cases s.instanceField? (s'.heap.object id).cls property.text with
      | none => rfl
      | some f => exact f.type_bare
    change R _ (setField id property.text
      (coerce ((s.bare.instanceField? (s'.heap.object id).cls property.text).bind (·.type)) v))
    rw [type, coerce_bare]
    exact related_setField rel _ _ _
  | classRef c n =>
    refine rel.get_bind fun s _ => ?_
    have text : property.bare.text = property.text := rfl
    rw [State.static?_bare, text]
    cases s.static? c property.text with
    | some held => exact related_modifyClass rel _ (by intro _; rfl) (by intro _; rfl)
    | none =>
      refine related_heap_bind rel fun s' _ => ?_
      rw [Heap.cls_bare]
      exact related_fail rel _ _
  | _ => exact related_failNamed rel _ _ _

theorem field?_related (rel : Respected ok w w' R) (object : Value) (name : String) :
    R (field? object name) (field? object name) := by
  cases object with
  | object id =>
    refine related_heap_bind rel fun s _ => ?_
    rw [Heap.object_bare]
    dsimp only
    split
    · exact rel.pure _
    · refine rel.get_bind fun s' _ => ?_
      rw [State.instanceField?_bare, Option.map_map]
      exact rel.pure _
  | classRef c n =>
    refine rel.get_bind fun s _ => ?_
    rw [State.static?_bare]
    exact rel.pure _
  | _ => exact rel.pure _

theorem getMember_related (rel : Respected ok w w' R) (both : k.Related ok R k') (object : Value) (property : Name) :
    R (getMember k object property) (getMember k' object property.bare) := by
  have text : property.bare.text = property.text := rfl
  unfold getMember
  dsimp only
  rw [text]
  split
  · exact related_fail rel _ _
  · refine rel.bind (field?_related rel _ _) fun found => ?_
    cases found with
    | some v => exact rel.pure _
    | none =>
      refine rel.bind (hasMethod_related rel both _ _) fun has => ?_
      split
      · exact related_newMethod rel _ _
      · exact related_failNamed rel _ _ _

theorem calledField?_related (rel : Respected ok w w' R) (object : Value) (name : String) :
    R (calledField? object name) (calledField? object name) := by
  cases object with
  | object id => exact related_heap_bind rel fun _ _ => rel.pure _
  | classRef c n =>
    refine rel.get_bind fun s _ => ?_
    rw [State.static?_bare]
    exact rel.pure _
  | _ => exact rel.pure _

theorem evalCall_related (rel : Respected ok w w' R) (both : k.Related ok R k') {callee : Expr} {args : List Expr}
    (covered : Covers ok callee.walk) (passed : Covers ok (Expr.walkAll args)) (span : Span) (scope : ScopeId) :
    R (evalCall k callee args span scope) (evalCall k' callee.bare (Expr.bareAll args) Span.none scope) := by
  have values := evalAll_related rel both scope passed
  have called : R (do let f ← k.eval callee scope; callValue k f (← evalAll k scope args) span)
      (do let f ← k'.eval callee.bare scope; callValue k' f (← evalAll k' scope (Expr.bareAll args)) Span.none) := by
    refine rel.bind (both.eval scope covered) fun f => rel.bind values fun vs => ?_
    exact callValue_related rel both _ _ _
  cases callee with
  | parent m => exact rel.bind values fun vs => callParentConstructor_related rel both _ _
  | member m object property =>
    have member : R
        (do
          let o ← k.eval object scope
          let vs ← evalAll k scope args
          match ← calledField? o property.text with
          | some f => callValue k f vs span
          | none => callMethod k o property.text vs property.span)
        (do
          let o ← k'.eval object.bare scope
          let vs ← evalAll k' scope (Expr.bareAll args)
          match ← calledField? o property.text with
          | some f => callValue k' f vs Span.none
          | none => callMethod k' o property.text vs Span.none) := by
      refine rel.bind (both.eval scope (covers_cons.1 covered).2) fun o => rel.bind values fun vs => ?_
      refine rel.bind (calledField?_related rel _ _) fun found => ?_
      cases found with
      | some f => exact callValue_related rel both _ _ _
      | none => exact callMethod_related rel both _ _ _ _
    cases object with
    | parent m => exact rel.bind values fun vs => callParentMethod_related rel both _ _ _
    | _ => exact member
  | _ => exact called

theorem evalAssign_related (rel : Respected ok w w' R) (both : k.Related ok R k') {target value : Expr}
    (covered : Covers ok target.walk) (assigned : Covers ok value.walk) (span : Span) (scope : ScopeId) :
    R (evalAssign k target value span scope) (evalAssign k' target.bare value.bare Span.none scope) := by
  have given := both.eval scope assigned
  cases target with
  | name id =>
    refine rel.bind given fun v => rel.bind (related_assign rel _ _ _) fun done => ?_
    split
    · exact rel.pure _
    · exact related_fail rel _ _
  | member m object property =>
    obtain ⟨-, object⟩ := covers_cons.1 covered
    refine rel.bind (evalReceiver_related rel both object scope) fun o => rel.bind given fun v => ?_
    exact rel.bind (setMember_related rel _ _ _) fun _ => rel.pure _
  | index m object position =>
    obtain ⟨-, inner⟩ := covers_cons.1 covered
    obtain ⟨object, position⟩ := covers_append.1 inner
    refine rel.bind (both.eval scope object) fun o => rel.bind (both.eval scope position) fun i => ?_
    exact rel.bind given fun v => rel.bind (callMethod_related rel both _ _ _ _) fun _ => rel.pure _
  | markup element =>
    obtain ⟨mark, tag, attributes, children, selfClosing⟩ := element
    exact related_fail rel _ _
  | _ => exact related_fail rel _ _

theorem evalArray_related (rel : Respected ok w w' R) (both : k.Related ok R k') {elements : List Expr}
    (covered : Covers ok (Expr.walkAll elements)) (span : Span) (scope : ScopeId) :
    R (evalArray k elements span scope) (evalArray k' (Expr.bareAll elements) Span.none scope) := by
  refine rel.bind (evalAll_related rel both scope covered) fun items => ?_
  refine rel.bind (both.classOf _ (rel.further.host .array)) fun cls => ?_
  exact rel.bind (related_newArray rel _) fun h => rel.bind (related_newObject rel _ _) fun _ => rel.pure _

theorem eval_related (rel : Respected ok w w' R) (both : k.Related ok R k') {e : Expr} (covered : Covers ok e.walk)
    (scope : ScopeId) : R (eval k e scope) (eval k' e.bare scope) := by
  cases e with
  | name id => exact evalName_related rel both ((covers_cons.1 covered).1 _ List.mem_cons_self) scope
  | number m digits => exact rel.pure _
  | string q => exact rel.pure _
  | boolean m b => exact rel.pure _
  | null m => exact rel.pure _
  | self m =>
    refine rel.bind (related_current rel) fun frame => ?_
    cases frame.bind (·.self) with
    | some self => exact rel.pure _
    | none => exact related_fail rel _ _
  | parent m => exact related_fail rel _ _
  | unary m op operand =>
    exact rel.bind (both.eval scope (covers_cons.1 covered).2) fun v => applyUnary_related rel _ _ _
  | binary m op left right =>
    obtain ⟨-, inner⟩ := covers_cons.1 covered
    obtain ⟨first, second⟩ := covers_append.1 inner
    have applied : R (do let l ← k.eval left scope; let r ← k.eval right scope; applyBinary op l r m.span)
        (do let l ← k'.eval left.bare scope; let r ← k'.eval right.bare scope; applyBinary op l r Span.none) := by
      refine rel.bind (both.eval scope first) fun l => ?_
      exact rel.bind (both.eval scope second) fun r => applyBinary_related rel _ _ _ _
    cases op with
    | and => exact evalLogic_related rel both _ _ first second scope
    | or => exact evalLogic_related rel both _ _ first second scope
    | _ => exact applied
  | assign m target value =>
    obtain ⟨-, inner⟩ := covers_cons.1 covered
    obtain ⟨target, value⟩ := covers_append.1 inner
    exact evalAssign_related rel both target value _ scope
  | member m object property =>
    refine rel.bind (evalReceiver_related rel both (covers_cons.1 covered).2 scope) fun o => ?_
    exact getMember_related rel both _ _
  | index m object position =>
    obtain ⟨-, inner⟩ := covers_cons.1 covered
    obtain ⟨object, position⟩ := covers_append.1 inner
    refine rel.bind (both.eval scope object) fun o => rel.bind (both.eval scope position) fun i => ?_
    exact callMethod_related rel both _ _ _ _
  | call m callee args =>
    obtain ⟨-, inner⟩ := covers_cons.1 covered
    obtain ⟨callee, args⟩ := covers_append.1 inner
    exact evalCall_related rel both callee args _ scope
  | create m type args =>
    obtain ⟨own, args⟩ := covers_cons.1 covered
    have built : R (k.classOf (headName type) type.span) (k'.classOf (headName type.bare) type.bare.span) := by
      rw [headName_bare, TypeExpr.span_bare]
      exact both.classOf _ (own _ List.mem_cons_self)
    refine rel.bind built fun cls => rel.bind (evalAll_related rel both scope args) fun vs => ?_
    exact rel.bind (instantiate_related rel both _ _ _) fun _ => rel.pure _
  | array m elements => exact evalArray_related rel both (covers_cons.1 covered).2 _ scope
  | lambda m params result body =>
    refine rel.bind (related_frameOf rel _) fun frame => rel.bind (related_current rel) fun context => ?_
    exact related_newClosure rel (Closure.within_lambda covered frame context)
  | markup element => exact evalElement_related rel both covered scope

/-! ## Statements -/

theorem callProtocol_related (rel : Respected ok w w' R) (both : k.Related ok R k') (v : Value) (name : String)
    (span : Span) : R (callProtocol k v name span) (callProtocol k' v name Span.none) := by
  refine rel.bind (hasMethod_related rel both _ _) fun has => ?_
  split
  · exact callMethod_related rel both _ _ _ _
  · exact related_failNamed rel _ _ _

theorem execArms_related (rel : Respected ok w w' R) (both : k.Related ok R k') (subject : Value) (scope : ScopeId)
    {arms : List Arm} (covered : Covers ok (Arm.walkAll arms)) :
    R (execArms k subject scope arms) (execArms k' subject scope (Arm.bareAll arms)) := by
  induction arms with
  | nil => exact rel.pure _
  | cons a arms ih =>
    obtain ⟨value, body, others⟩ := Arm.covers_cons.1 covered
    obtain ⟨mark, condition, block⟩ := a
    refine rel.bind (both.eval scope value) fun v => related_heap_bind rel fun s _ => ?_
    rw [Heap.equal_bare]
    split
    · exact rel.bind (execBlock_related rel both body scope) fun _ => rel.pure _
    · exact ih others

theorem iterate_related (rel : Respected ok w w' R) (both : k.Related ok R k') {it : Iteration}
    (covered : Covers ok it.body.walk) : R (iterate k it) (iterate k' it.bare) := by
  refine rel.bind (callProtocol_related rel both _ _ _) fun more => ?_
  split
  · exact rel.pure _
  · refine rel.bind (callProtocol_related rel both _ _ _) fun item => ?_
    refine rel.bind (related_releasing rel (rel.bind (related_openScope rel _) fun scope => ?_)) fun outcome => ?_
    · exact rel.bind (related_define rel _ _ _) fun _ => execBlock_related rel both covered scope
    · cases outcome with
      | returned v => exact rel.pure _
      | normal =>
        refine rel.bind (callProtocol_related rel both _ _ _) fun _ => ?_
        exact rel.bind (related_noteTurn rel) fun _ => both.iterate covered
  · exact related_failNamed rel _ _ _

theorem execEach_related (rel : Respected ok w w' R) (both : k.Related ok R k') (item : Name) {iterable : Expr}
    {body : Block} (source : Covers ok iterable.walk) (repeated : Covers ok body.walk) (scope : ScopeId) :
    R (execEach k item iterable body scope) (execEach k' item.bare iterable.bare body.bare scope) := by
  unfold execEach
  rw [Expr.span_bare]
  refine rel.bind (both.eval scope source) fun v => ?_
  dsimp only
  split
  · exact related_fail_bind rel _ _ _ _
  · refine rel.bind (callProtocol_related rel both _ _ _) fun it => ?_
    split
    · exact related_fail_bind rel _ _ _ _
    · refine rel.bind (callProtocol_related rel both _ _ _) fun _ => ?_
      have covered : Covers ok (⟨it, item.text, body, scope, iterable.span⟩ : Iteration).body.walk := repeated
      exact both.iterate covered

theorem evalCondition_related (rel : Respected ok w w' R) (both : k.Related ok R k') {e : Expr}
    (covered : Covers ok e.walk) (scope : ScopeId) : R (evalCondition k e scope) (evalCondition k' e.bare scope) := by
  unfold evalCondition
  rw [Expr.span_bare]
  refine rel.bind (both.eval scope covered) fun v => ?_
  split
  · exact rel.pure _
  · exact related_failNamed rel _ _ _

theorem exec_related (rel : Respected ok w w' R) (both : k.Related ok R k') {s : Stmt} (covered : Covers ok s.walk)
    (scope : ScopeId) : R (exec k s scope) (exec k' s.bare scope) := by
  unfold exec
  rw [Stmt.span_bare]
  refine rel.bind (rel.checkCancelled _) fun _ => ?_
  cases s with
  | does m e => exact rel.bind (both.eval scope covered) fun _ => rel.pure _
  | binds m name type value =>
    have defined (v : Value) : R
        (do
          define scope name.text v
          return Outcome.normal)
        (do
          define scope name.text v
          return Outcome.normal) := rel.bind (related_define rel _ _ _) fun _ => rel.pure _
    cases value with
    | some e =>
      refine rel.bind (both.eval scope covered) fun v => ?_
      rw [coerce_bare]
      exact rel.bind (rel.pure _) defined
    | none => exact rel.bind (rel.pure _) defined
  | block b => exact execBlock_related rel both covered scope
  | branch m condition yes no =>
    cases no with
    | some s =>
      obtain ⟨first, other⟩ := covers_append.1 covered
      obtain ⟨condition, yes⟩ := covers_append.1 first
      refine rel.bind (evalCondition_related rel both condition scope) fun b => ?_
      split
      · exact execBlock_related rel both yes scope
      · exact both.exec scope other
    | none =>
      obtain ⟨condition, yes⟩ := covers_append.1 covered
      refine rel.bind (evalCondition_related rel both condition scope) fun b => ?_
      split
      · exact execBlock_related rel both yes scope
      · exact rel.pure _
  | select m subject arms fallback =>
    cases fallback with
    | some b =>
      obtain ⟨first, other⟩ := covers_append.1 covered
      obtain ⟨subject, arms⟩ := covers_append.1 first
      refine rel.bind (both.eval scope subject) fun v => ?_
      refine rel.bind (execArms_related rel both v scope arms) fun outcome => ?_
      cases outcome with
      | some outcome => exact rel.pure _
      | none => exact execBlock_related rel both other scope
    | none =>
      obtain ⟨subject, arms⟩ := covers_append.1 covered
      refine rel.bind (both.eval scope subject) fun v => ?_
      refine rel.bind (execArms_related rel both v scope arms) fun outcome => ?_
      cases outcome with
      | some outcome => exact rel.pure _
      | none => exact rel.pure _
  | each m item iterable body =>
    obtain ⟨iterable, body⟩ := covers_append.1 covered
    exact execEach_related rel both _ iterable body scope
  | returns m value =>
    cases value with
    | some e => exact rel.bind (both.eval scope covered) fun _ => rel.pure _
    | none => exact rel.pure _
  | declares d => exact rel.pure _
  | uses m names path => exact rel.pure _

/-! ## The evaluator -/

/-- Two evaluators are related if the second one has at least as many nested steps, and if the relation respects how
classes are built and looked for. -/
theorem evaluator_related (rel : Respected ok w w' R)
    (built : ∀ {k k' : Evaluator}, k.Related ok R k' → ∀ {name : String} (span : Span), ok name →
      R (classOf k name span) (classOf k' name Span.none))
    (probed : ∀ {k k' : Evaluator}, k.Related ok R k' → ∀ {v : Value} {name : String}, boxedName? v = some name →
      R (probing (classOf k name Span.none)) (probing (classOf k' name Span.none)))
    {n n' : Nat} (le : n ≤ n') : (evaluator n).Related ok R (evaluator n') := by
  induction n generalizing n' with
  | zero =>
    exact ⟨fun _ _ => rel.endless _, fun _ _ => rel.endless _, fun _ _ _ => rel.endless _, fun _ _ => rel.endless _,
      fun _ => rel.endless _, fun _ => rel.endless _⟩
  | succ n ih =>
    obtain ⟨n', rfl⟩ : ∃ more, n' = more + 1 := ⟨n' - 1, by omega⟩
    have both : (evaluator n).Related ok R (evaluator n') := ih (by omega)
    exact ⟨fun scope covered => eval_related rel both covered scope,
      fun scope covered => exec_related rel both covered scope, fun f args span => callValue_related rel both f args span,
      fun span allowed => built both span allowed, fun covered => iterate_related rel both covered,
      fun boxed => probed both boxed⟩

/-- An evaluator has a property that evaluation respects. -/
theorem evaluator_satisfies {P : {α : Type} → Run α → Prop} (rel : Respected ok w w' fun x _ => P x)
    (built : ∀ {k : Evaluator}, k.Related ok (fun x _ => P x) k → ∀ {name : String} (span : Span), ok name →
      P (classOf k name span))
    (probed : ∀ {k : Evaluator}, k.Related ok (fun x _ => P x) k → ∀ {v : Value} {name : String},
      boxedName? v = some name → P (probing (classOf k name Span.none)))
    (n : Nat) : (evaluator n).Related ok (fun x _ => P x) (evaluator n) :=
  evaluator_related rel
    (fun both => built ⟨both.eval, both.exec, both.callValue, both.classOf, both.iterate, both.probe⟩)
    (fun both => probed ⟨both.eval, both.exec, both.callValue, both.classOf, both.iterate, both.probe⟩) (Nat.le_refl n)

/-- Statements of the top level are related, one by one. -/
theorem runAll_related (rel : Respected ok w w' R) (both : k.Related ok R k') {actions : List Placed}
    (covered : ∀ p ∈ actions, Covers ok p.statement.walk) : R (runAll k actions) (runAll k' (actions.map Placed.bare)) := by
  induction actions with
  | nil => exact rel.pure _
  | cons p actions ih =>
    refine rel.bind (related_modify rel (fun _ => minor_of_eq rfl rfl rfl rfl rfl rfl rfl) fun _ => rfl) fun _ => ?_
    refine rel.bind (both.exec _ (covered p List.mem_cons_self)) fun outcome => ?_
    cases outcome with
    | returned v => exact rel.pure v
    | normal => exact ih fun q member => covered q (List.mem_cons_of_mem p member)

theorem invokeNamed_related (rel : Respected ok w w' R) (both : k.Related ok R k') {cls : String} (allowed : ok cls)
    (name : String) (args : List Value) : R (invokeNamed k cls name args) (invokeNamed k' cls name args) := by
  refine rel.bind (both.classOf _ allowed) fun id => related_heap_bind rel fun s _ => ?_
  have span : (s.heap.bare.cls id).decl.span = Span.none := by
    rw [Heap.cls_bare]
    exact Declaration.span_bare _
  rw [span]
  refine related_method?_bind rel _ _ fun found _ => ?_
  cases found with
  | none => exact related_fail rel _ _
  | some m =>
    dsimp only [Option.map_some]
    have isStatic : m.bare.isStatic = m.isStatic := m.isStatic_bare
    rw [isStatic]
    split
    · refine rel.bind (related_newClassRef rel id) fun c => ?_
      exact callMethod_related rel both _ _ _ _
    · refine rel.bind (instantiate_related rel both _ _ _) fun object => ?_
      exact callMethod_related rel both _ _ _ _

end ClassScript.Evaluation
