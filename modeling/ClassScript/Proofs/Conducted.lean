import Mathlib.Logic.Relation
import ClassScript.Evaluation.Interpreter
import ClassScript.Proofs.Building

/-!
Every construct conducts itself as long as the evaluator it calls for nested steps does, so by induction on
their number every evaluation does (`evaluator_conducted`). Methods are found with the class that owns
them, whose file their code runs in (`Entitled`); code of interfaces has no such file.
-/

namespace ClassScript.Evaluation

variable {w : World} {s₀ s : State} {file : String} {k : Evaluator} {span : Span}

/-! ## Code of methods -/

private theorem methodSites_cons (m : Method) (ms : List Method) :
    Method.sitesAll (m :: ms) = Method.sitesAll [m] ++ Method.sitesAll ms := by
  obtain ⟨mark, annotations, modifiers, name, isConstructor, typeParams, params, result, body⟩ := m
  cases body <;> simp [Method.sitesAll]

theorem methodSites_subset {m : Method} {ms : List Method} (member : m ∈ ms) :
    Method.sitesAll [m] ⊆ Method.sitesAll ms := by
  induction ms with
  | nil => cases member
  | cons m' ms ih =>
    rw [methodSites_cons m' ms]
    rcases List.mem_cons.1 member with rfl | member
    · exact List.subset_append_left _ _
    · exact List.subset_append_of_subset_right _ (ih member)

private theorem sanctions_body {m : Method} {b : Block} (sanctioned : w.program.Sanctions file (Method.sitesAll [m]))
    (body : m.body = some b) : w.program.Sanctions file b.sites := by
  obtain ⟨mark, annotations, modifiers, name, isConstructor, typeParams, params, result, body⟩ := m
  subst body
  simp only [Method.sitesAll, List.append_nil, LinkedProgram.sanctions_append] at sanctioned
  exact sanctioned.2

/-- Default values that are looked at before the host is called may run in any file. -/
private theorem sanctions_carried {m : Method} (sanctioned : w.program.Sanctions file (Method.sitesAll [m]))
    (carried : m.body.isSome = false ∨ m.modifiers.isStatic = true) (f : String) :
    w.program.Sanctions f (Param.sitesAll m.params) := by
  obtain ⟨mark, annotations, modifiers, name, isConstructor, typeParams, params, result, body⟩ := m
  cases body with
  | none =>
    simp only [Method.sitesAll, List.append_nil, LinkedProgram.sanctions_carry] at sanctioned
    exact sanctioned f
  | some b =>
    have isStatic : modifiers.isStatic = true := by simpa using carried
    simp only [Method.sitesAll, List.append_nil, LinkedProgram.sanctions_append, isStatic, if_true,
      LinkedProgram.sanctions_carry] at sanctioned
    exact sanctioned.1 f

private theorem sanctions_params {m : Method} (sanctioned : w.program.Sanctions file (Method.sitesAll [m])) :
    w.program.Sanctions file (Param.sitesAll m.params) := by
  by_cases carried : m.body.isSome = false ∨ m.modifiers.isStatic = true
  · exact sanctions_carried sanctioned carried file
  · obtain ⟨mark, annotations, modifiers, name, isConstructor, typeParams, params, result, body⟩ := m
    simp only [not_or, Bool.not_eq_false, Bool.not_eq_true] at carried
    obtain ⟨b, rfl⟩ := Option.isSome_iff_exists.1 carried.1
    simp only [Method.sitesAll, List.append_nil, LinkedProgram.sanctions_append, carried.2, Bool.false_eq_true,
      if_false] at sanctioned
    exact sanctioned.1

/-- The code of a method may run in the file of the class that owns it, or anywhere if it has no owner. -/
structure Entitled (w : World) (s : State) (m : FoundMethod) : Prop where
  owned {c : Nat} : m.owner = some c →
    ∃ d, s.heap.classes[c]? = some d ∧ w.program.Sanctions d.file (Method.sitesAll [m.decl])
  free : m.owner = none → ∀ file, w.program.Sanctions file (Method.sitesAll [m.decl])

theorem Entitled.mono {m : FoundMethod} (entitled : Entitled w s₀ m) (later : Later s₀ s) : Entitled w s m where
  owned owner := by
    obtain ⟨d, found, sanctioned⟩ := entitled.owned owner
    obtain ⟨d', found', same⟩ := later.classes found
    exact ⟨d', found', (ClassDef.core_inj same).2.1 ▸ sanctioned⟩
  free := entitled.free

/-- The default values of a method that the host implements may run anywhere. -/
theorem Entitled.carried {m : FoundMethod} (entitled : Entitled w s m)
    (hosted : m.hasBody = false ∨ m.isStatic = true) (f : String) :
    w.program.Sanctions f (Param.sitesAll m.decl.params) := by
  cases owner : m.owner with
  | none => exact sanctions_carried (entitled.free owner f) hosted f
  | some c =>
    obtain ⟨d, -, sanctioned⟩ := entitled.owned owner
    exact sanctions_carried sanctioned hosted f

theorem classes_of_hasMembers {id : Nat} (members : (s.heap.cls id).hasMembers = true) :
    s.heap.classes[id]? = some (s.heap.cls id) := by
  unfold Heap.cls at members ⊢
  cases found : s.heap.classes[id]? with
  | none =>
    rw [found] at members
    cases members
  | some c => rfl

theorem entitled_own (linked : w.Linked) (orderly : Orderly w s) {c : Nat} {name : String} {m : Method}
    (found : (s.heap.cls c).method? name = some m) : Entitled w s ⟨m, some c⟩ := by
  unfold ClassDef.method? at found
  split at found
  · next members =>
    have held := classes_of_hasMembers members
    have code := sanctions_class linked (orderly.classes held).declared
    refine ⟨fun {c'} owner => ?_, fun owner => by cases owner⟩
    cases owner
    have own := List.mem_of_find?_eq_some found
    exact ⟨_, held, (LinkedProgram.sanctions_append.1 code).2.subset (methodSites_subset own)⟩
  · cases found

/-- One step of the search for a default method: the next parent is searched unless one was found. -/
def searchStep (s : State) (method : String) (fuel : Nat) (r : List String × Option Method) (parent : String) :
    List String × Option Method :=
  match r.2 with
  | some m => (r.1, some m)
  | none => s.searchDefault method fuel r.1 parent

/-- The search goes on with the parents of an interface that has no such method itself. -/
theorem searchDefault_parents {s : State} {method name : String} {i : InterfaceDef} {seen : List String} (fuel : Nat)
    (unseen : name ∉ seen) (known : s.interface? name = some i)
    (lacks : (i.decl.methods.find? fun m => m.name.text == method && m.body.isSome) = none) :
    s.searchDefault method (fuel + 1) seen name = i.parents.foldl (searchStep s method fuel) (name :: seen, none) := by
  simp only [State.searchDefault, List.contains_eq_mem, unseen, decide_false, Bool.false_eq_true, if_false, known, lacks]
  rfl

/-- One interface extends another in a state. -/
def ParentOf (s : State) (name parent : String) : Prop := ∃ i, s.interface? name = some i ∧ parent ∈ i.parents

/-- A default method of that name stands in an interface, or in one that it extends in any number of steps. -/
def HasDefault (s : State) (method interface : String) (m : Method) : Prop :=
  ∃ holder i, Relation.ReflTransGen (ParentOf s) interface holder ∧ s.interface? holder = some i ∧
    m ∈ i.decl.methods ∧ m.name.text = method ∧ m.body.isSome = true

/-- A default method that is found stands in an interface that the search has come to. -/
theorem searchDefault_found (s : State) (method : String) (fuel : Nat) (seen : List String) (name : String)
    {m : Method} (found : (s.searchDefault method fuel seen name).2 = some m) : HasDefault s method name m := by
  induction fuel generalizing seen name m with
  | zero => cases found
  | succ fuel ih =>
    by_cases unseen : name ∈ seen
    · simp [State.searchDefault, unseen] at found
    · cases known : s.interface? name with
      | none => simp [State.searchDefault, unseen, known] at found
      | some i =>
        cases own : i.decl.methods.find? fun m => m.name.text == method && m.body.isSome with
        | some m' =>
          have same : m' = m := by simpa [State.searchDefault, unseen, known, own] using found
          subst same
          have suits : m'.name.text = method ∧ m'.body.isSome = true := by simpa using List.find?_some own
          exact ⟨name, i, .refl, known, List.mem_of_find?_eq_some own, suits⟩
        | none =>
          rw [searchDefault_parents fuel unseen known own] at found
          -- what is found along the parents is found by one of the searches
          have folded (parents seen : List String) (r : Option Method) (within : parents ⊆ i.parents)
              (reached : ∀ m, r = some m → HasDefault s method name m)
              (found : (parents.foldl (searchStep s method fuel) (seen, r)).2 = some m) :
              HasDefault s method name m := by
            induction parents generalizing seen r with
            | nil => exact reached m found
            | cons parent parents next =>
              rw [List.foldl_cons] at found
              have rest := List.subset_of_cons_subset within
              cases r with
              | some m' => exact next seen (some m') rest reached found
              | none =>
                refine next _ _ rest (fun m' same => ?_) found
                obtain ⟨holder, j, path, held⟩ := ih _ _ same
                exact ⟨holder, j, path.head ⟨i, known, within List.mem_cons_self⟩, held⟩
          exact folded _ _ none (List.Subset.refl _) (fun _ none => by cases none) found

theorem entitled_default (linked : w.Linked) (orderly : Orderly w s) {interface name : String} {m : Method}
    (found : s.defaultMethod? interface name = some m) : Entitled w s ⟨m, none⟩ := by
  obtain ⟨n, i, -, known, member, -⟩ := searchDefault_found s _ _ _ _ found
  have code := sanctions_interface linked (orderly.interfaces known).declared
  refine ⟨fun {c} owner => (by cases owner), fun _ file => ?_⟩
  exact (LinkedProgram.sanctions_append.1 (code file)).2.subset (methodSites_subset member)

/-- A method that is found is one of a class in the line, or else a default method of an interface of one. -/
theorem method?_eq_some {cls : Nat} {name : String} {m : FoundMethod} (found : s.method? cls name = some m) :
    (∃ c own, (s.heap.cls c).method? name = some own ∧ m = ⟨own, some c⟩) ∨
      ∃ c ∈ s.heap.chain cls, ∃ i ∈ (s.heap.cls c).interfaces, ∃ inherited,
        s.defaultMethod? i name = some inherited ∧ m = ⟨inherited, none⟩ := by
  simp only [State.method?, Option.orElse_eq_orElse, Option.orElse_eq_or, Option.or_eq_some_iff] at found
  rcases found with own | ⟨-, inherited⟩
  · obtain ⟨c, -, own⟩ := List.exists_of_findSome?_eq_some own
    obtain ⟨m', held, same⟩ := Option.bind_eq_some_iff.1 own
    split at same
    · cases same
    · cases same
      exact .inl ⟨c, m', held, rfl⟩
  · obtain ⟨c, inChain, inherited⟩ := List.exists_of_findSome?_eq_some inherited
    obtain ⟨i, implemented, inherited⟩ := List.exists_of_findSome?_eq_some inherited
    obtain ⟨m', found, rfl⟩ := Option.map_eq_some_iff.1 inherited
    exact .inr ⟨c, inChain, i, implemented, m', found, rfl⟩

theorem entitled_method? (linked : w.Linked) (orderly : Orderly w s) {cls : Nat} {name : String} {m : FoundMethod}
    (found : s.method? cls name = some m) : Entitled w s m := by
  rcases method?_eq_some found with ⟨c, own, held, rfl⟩ | ⟨c, -, i, -, inherited, held, rfl⟩
  · exact entitled_own linked orderly held
  · exact entitled_default linked orderly held

theorem entitled_constructor? (linked : w.Linked) (orderly : Orderly w s) {cls : Nat} {m : FoundMethod}
    (found : s.constructor? cls = some m) : Entitled w s m := by
  obtain ⟨c, -, own⟩ := List.exists_of_findSome?_eq_some found
  obtain ⟨m', held, rfl⟩ := Option.map_eq_some_iff.1 own
  exact entitled_own linked orderly held

theorem conducts_method? (linked : w.Linked) (cls : Nat) (name : String) :
    Conducts w s₀ file (method? cls name) fun s found => ∀ m, found = some m → Entitled w s m := by
  refine conducts_bind conducts_get ?_
  rintro s _ - ⟨rfl, orderly⟩
  exact conducts_pure fun t later _ m found => (entitled_method? linked orderly found).mono later

/-! ## Calls -/

theorem checkCount_conducts (excused : w.program.Excuses file span) (name : String) (params : List Param)
    (count : Nat) : Conducts w s₀ file (checkCount name params count span) Anything := by
  unfold checkCount
  dsimp only
  split
  · exact conducts_return ()
  · split
    · exact conducts_fail excused
    · exact conducts_fail excused

theorem bindParams_conducts (conducted : k.Conducted w) (scope : ScopeId) {params : List Param}
    (sanctioned : w.program.Sanctions file (Param.sitesAll params)) (args : List Value) :
    Conducts w s₀ file (bindParams k scope params args) Anything := by
  induction params generalizing args with
  | nil => exact conducts_return ()
  | cons p params ih =>
    obtain ⟨mark, name, type, fallback⟩ := p
    have rest (later : w.program.Sanctions file (Param.sitesAll params)) (v : Value) : Conducts w s₀ file (do
        define scope name.text (coerce type v)
        bindParams k scope params args.tail) Anything :=
      conducts_seq (conducts_define _ _ _) fun _ => ih later args.tail
    unfold bindParams
    cases fallback with
    | none =>
      rw [Param.sitesAll] at sanctioned
      cases args with
      | nil => exact conducts_fail_bind (.inl rfl)
      | cons a args => exact conducts_seq (conducts_return a) (rest sanctioned)
    | some e =>
      rw [Param.sitesAll, LinkedProgram.sanctions_append] at sanctioned
      cases args with
      | nil => exact conducts_seq (conducted.eval sanctioned.1) (rest sanctioned.2)
      | cons a args => exact conducts_seq (conducts_return a) (rest sanctioned.2)

theorem withDefaults_conducts (conducted : k.Conducted w) {m : FoundMethod}
    (sanctioned : w.program.Sanctions file (Param.sitesAll m.decl.params)) (excused : w.program.Excuses file span)
    (args : List Value) : Conducts w s₀ file (withDefaults k m args span) Anything := by
  refine conducts_seq (checkCount_conducts excused _ _ _) fun _ => ?_
  split
  · exact conducts_return _
  · refine conducts_seq conducts_noteTurn fun _ => conducts_releasing (conducts_seq (conducts_openScope _) fun scope => ?_)
    refine conducts_seq (bindParams_conducts conducted scope sanctioned args) fun _ => conducts_mapM fun p _ => ?_
    exact conducts_seq (conducts_binding? _ _) fun _ => conducts_return _

theorem execAll_conducts (conducted : k.Conducted w) (scope : ScopeId) {statements : List Stmt}
    (sanctioned : w.program.Sanctions file (Stmt.sitesAll statements)) :
    Conducts w s₀ file (execAll k scope statements) Anything := by
  induction statements with
  | nil => exact conducts_return _
  | cons s statements ih =>
    rw [Stmt.sitesAll, LinkedProgram.sanctions_append] at sanctioned
    refine conducts_seq (conducted.exec sanctioned.1) fun outcome => ?_
    cases outcome with
    | returned v => exact conducts_return _
    | normal => exact ih sanctioned.2

theorem execBlock_conducts (conducted : k.Conducted w) {b : Block} (sanctioned : w.program.Sanctions file b.sites)
    (outer : ScopeId) : Conducts w s₀ file (execBlock k b outer) Anything := by
  obtain ⟨mark, statements⟩ := b
  rw [Block.sites] at sanctioned
  refine conducts_releasing (conducts_seq (conducts_openScope _) fun scope => ?_)
  exact execAll_conducts conducted scope sanctioned

theorem checkDepth_conducts (excused : w.program.Excuses file span) :
    Conducts w s₀ file (checkDepth span) Anything := by
  refine conducts_seq conducts_get fun s => ?_
  split
  · exact conducts_fail excused
  · exact conducts_return ()

/-- A method runs in the file of its class. -/
theorem invoke_conducts (conducted : k.Conducted w) {m : FoundMethod} (entitled : Entitled w s₀ m)
    (excused : w.program.Excuses file span) (from_ : Option Nat) (self : Option Value) (args : List Value) :
    Conducts w s₀ file (invoke k m from_ self args span) Anything := by
  refine conducts_seq (checkCount_conducts excused _ _ _) fun _ => ?_
  refine conducts_seq (checkDepth_conducts excused) fun _ => conducts_bind conducts_heap ?_
  rintro s h later ⟨rfl, -⟩
  have sanctioned : w.program.Sanctions
      (((m.owner <|> from_).map fun c => (s.heap.cls c).file).getD file) (Method.sitesAll [m.decl]) := by
    cases owner : m.owner with
    | none => exact entitled.free owner _
    | some c =>
      obtain ⟨d, found, sanctioned⟩ := entitled.owned owner
      have same := (ClassDef.core_inj (later.cls found)).2.1
      show w.program.Sanctions (s.heap.cls c).file _
      rw [same]
      exact sanctioned
  refine conducts_inContext _ _ (conducts_seq (conducts_openScope _) fun scope => ?_)
  refine conducts_seq (bindParams_conducts conducted scope (sanctions_params sanctioned) args) fun _ => ?_
  split
  · exact conducts_return _
  · next body held =>
    refine conducts_seq (execBlock_conducts conducted (sanctions_body sanctioned held) scope) fun outcome => ?_
    cases outcome with
    | normal => exact conducts_return _
    | returned v => exact conducts_return _

/-- A lambda runs in the file it is called from. -/
theorem callLambda_conducts (conducted : k.Conducted w) {c : Closure}
    (sanctioned : w.program.Sanctions file (closureSites c)) (excused : w.program.Excuses file span)
    (args : List Value) : Conducts w s₀ file (callLambda k c args span) Anything := by
  obtain ⟨params, result, body, frame, context⟩ := c
  rw [closureSites, LinkedProgram.sanctions_append] at sanctioned
  refine conducts_seq (checkCount_conducts excused _ _ _) fun _ => ?_
  refine conducts_seq (checkDepth_conducts excused) fun _ => conducts_inContext _ _ ?_
  refine conducts_seq (conducts_openFrame _) fun scope => ?_
  refine conducts_seq (bindParams_conducts conducted scope sanctioned.1 args) fun _ => ?_
  cases body with
  | value e =>
    rw [LambdaBody.sites] at sanctioned
    exact conducts_seq (conducted.eval sanctioned.2) fun _ => conducts_return _
  | block b =>
    rw [LambdaBody.sites] at sanctioned
    refine conducts_seq (execBlock_conducts conducted sanctioned.2 scope) fun outcome => ?_
    cases outcome with
    | normal => exact conducts_return _
    | returned v => exact conducts_return _

/-- The closure of any number holds code that may run in every file. -/
theorem sanctions_closure (orderly : Orderly w s) (id : Nat) (f : String) :
    w.program.Sanctions f (closureSites (s.heap.closure id)) := by
  unfold Heap.closure
  cases found : s.heap.closures[id]? with
  | some c => exact orderly.closures found f
  | none => exact LinkedProgram.sanctions_nil

/-! ## The host -/

theorem toValue_conducts (conducted : k.Conducted w) (excused : w.program.Excuses file span) (v : Value) :
    Conducts w s₀ file (toValue k v span) Anything := by
  unfold toValue
  split
  · refine conducts_seq (conducted.classOf (.inr excused)) fun cls => ?_
    exact conducts_seq (conducts_newObject _ _) fun _ => conducts_return _
  · exact conducts_return _

theorem passAll_conducts (name : String) (position : Nat) (params : List ParamKind) (args : List Value) :
    Conducts w s₀ file (passAll name span position params args) Anything := by
  induction params generalizing position args with
  | nil => exact conducts_return _
  | cons p params ih =>
    cases args with
    | nil => exact conducts_return _
    | cons v args =>
      refine conducts_seq conducts_heap fun h => ?_
      split
      · exact conducts_failNative (ne_of_beq_false rfl)
      · exact conducts_seq (ih _ _) fun _ => conducts_return _

/-- A method of the host ends as it should at a span that may fail. -/
def HostMethod.Conducted (w : World) (k : Evaluator) (m : HostMethod) : Prop :=
  ∀ (s₀ : State) (file : String) (span : Span) (args : List HostArg), w.program.Excuses file span →
    Conducts w s₀ file (m.call k span args) Anything

theorem method?_conducted (conducted : k.Conducted w) {h : Host} {name : String} {m : HostMethod}
    (found : Standard.method? h name = some m) : m.Conducted w k :=
  fun _ _ _ _ excused => conducts_hostClosed.method (fun _ _ => conducted.callValue excused) found

theorem classMethod?_conducted {c : HostClass} {name : String} {m : HostMethod}
    (found : Standard.classMethod? c name = some m) : m.Conducted w k :=
  fun _ _ _ _ _ => conducts_hostClosed.classMethod found

theorem boxedMethod?_conducted {c : HostClass} {v : Value} {name : String} {m : HostMethod}
    (found : Standard.boxedMethod? c v name = some m) : m.Conducted w k :=
  fun _ _ _ _ _ => conducts_hostClosed.boxedMethod found

theorem callHost_conducts (conducted : k.Conducted w) {m : HostMethod} (host : m.Conducted w k)
    (excused : w.program.Excuses file span) (name : String) (args : List Value) :
    Conducts w s₀ file (callHost k m name args span) Anything := by
  unfold callHost
  dsimp only
  split
  · exact conducts_fail_bind excused
  · refine conducts_seq (passAll_conducts _ _ _ _) fun passed => conducts_seq conducts_noteTurn fun _ => ?_
    refine conducts_seq (host _ _ _ _ excused) fun r => ?_
    split
    · exact toValue_conducts conducted excused _
    · exact conducts_fail excused
    · exact conducts_fail excused

theorem callDeclared_conducts (conducted : k.Conducted w) {m : HostMethod} (host : m.Conducted w k)
    {declared : Option FoundMethod}
    (sanctioned : ∀ d, declared = some d → w.program.Sanctions file (Param.sitesAll d.decl.params))
    (excused : w.program.Excuses file span) (name : String) (args : List Value) :
    Conducts w s₀ file (callDeclared k m declared name args span) Anything := by
  unfold callDeclared
  cases declared with
  | none => exact conducts_seq (conducts_return _) fun _ => callHost_conducts conducted host excused _ _
  | some d =>
    refine conducts_seq (withDefaults_conducts conducted (sanctioned d rfl) excused args) fun _ => ?_
    exact callHost_conducts conducted host excused _ _

/-! ## Methods -/

theorem callObject_conducts (linked : w.Linked) (conducted : k.Conducted w) (excused : w.program.Excuses file span)
    (id : Nat) (name : String) (args : List Value) : Conducts w s₀ file (callObject k id name args span) Anything := by
  refine conducts_seq conducts_heap fun h => conducts_seq conducts_heap fun h' => ?_
  refine conducts_bind (conducts_method? linked _ _) fun s found later entitled => ?_
  dsimp only
  split
  · next m own =>
    have held := (Option.filter_eq_some_iff.1 (Option.filter_eq_some_iff.1 own).1).1
    exact invoke_conducts conducted (entitled m held) excused _ _ _
  · next bodiless =>
    split
    · next m hosted =>
      obtain ⟨thing, -, method⟩ := Option.bind_eq_some_iff.1 hosted
      refine callDeclared_conducts conducted (method?_conducted conducted method) (fun d declared => ?_) excused _ _
      have held := (Option.filter_eq_some_iff.1 declared).1
      refine (entitled d held).carried (.inl ?_) file
      rw [declared] at bodiless
      simpa using bodiless
    · split
      · exact conducts_fail excused
      · exact conducts_fail excused

theorem callStatic_conducts (linked : w.Linked) (conducted : k.Conducted w) (excused : w.program.Excuses file span)
    (id : Nat) (name : String) (args : List Value) : Conducts w s₀ file (callStatic k id name args span) Anything := by
  refine conducts_seq conducts_heap fun h => ?_
  refine conducts_bind (conducts_method? linked _ _) fun s found later entitled => ?_
  split
  · exact conducts_fail excused
  · next m declared =>
    have held := (Option.filter_eq_some_iff.1 declared).1
    split
    · exact invoke_conducts conducted (entitled m held) excused _ _ _
    · next bodiless =>
      refine conducts_seq conducts_heap fun h' => ?_
      dsimp only
      split
      · next hm hosted =>
        obtain ⟨cls, -, bound⟩ := List.exists_of_findSome?_eq_some hosted
        obtain ⟨host, -, method⟩ := Option.bind_eq_some_iff.1 bound
        refine callDeclared_conducts conducted (classMethod?_conducted method) (fun d same => ?_) excused _ _
        cases same
        exact (entitled m held).carried (.inl (by simpa using bodiless)) file
      · exact conducts_fail excused

/-- A method that is looked up for a value but not called on it is static or has no body. -/
private theorem hosted_of_filter {declared : Option FoundMethod} {d : FoundMethod}
    (skipped : (declared.filter fun m => m.hasBody && !m.isStatic) = none) (same : declared = some d) :
    d.hasBody = false ∨ d.isStatic = true := by
  rw [same] at skipped
  have := Option.filter_eq_none_iff.1 skipped d rfl
  cases body : d.hasBody <;> cases isStatic : d.isStatic <;> simp_all

theorem callBoxed_conducts (linked : w.Linked) (conducted : k.Conducted w) (excused : w.program.Excuses file span)
    (boxed : String) (v : Value) (name : String) (args : List Value) :
    Conducts w s₀ file (callBoxed k boxed v name args span) Anything := by
  refine conducts_seq (conducted.classOf (.inr excused)) fun id => ?_
  refine conducts_bind (conducts_method? linked _ _) fun s declared later entitled => ?_
  split
  · next m own =>
    exact invoke_conducts conducted (entitled m (Option.filter_eq_some_iff.1 own).1) excused _ _ _
  · next skipped =>
    refine conducts_seq conducts_heap fun h => ?_
    split
    · exact conducts_failNamed excused
    · split
      · next hm method =>
        refine callDeclared_conducts conducted (boxedMethod?_conducted method) (fun d same => ?_) excused _ _
        exact (entitled d same).carried (hosted_of_filter skipped same) file
      · split
        · exact conducts_fail excused
        · exact conducts_failNamed excused

theorem callMethod_conducts (linked : w.Linked) (conducted : k.Conducted w) (excused : w.program.Excuses file span)
    (receiver : Value) (name : String) (args : List Value) :
    Conducts w s₀ file (callMethod k receiver name args span) Anything := by
  unfold callMethod
  split
  · exact conducts_fail excused
  · exact callObject_conducts linked conducted excused _ _ _
  · exact callStatic_conducts linked conducted excused _ _ _
  · split
    · exact callBoxed_conducts linked conducted excused _ _ _ _
    · exact conducts_failNamed excused

/-- A class that cannot be built counts as one without the method. The failure is covered up, so what
follows must fail too. -/
theorem conducts_ifHas {α : Type} {Q : State → α → Prop} (linked : w.Linked) (conducted : k.Conducted w)
    (excused : w.program.Excuses file span) {v : Value} {name : String} {yes : Run α} {fault : String → RunFault}
    (has : Conducts w s₀ file yes Q) :
    Conducts w s₀ file (do
      if ← hasMethod k v name then yes else fail span (fault (← typeName v))) Q := by
  have rest (b : Bool) : Conducts w s₀ file (do
      if b then yes else fail span (fault (← typeName v))) Q := by
    cases b with
    | true => exact has
    | false => exact conducts_failNamed excused
  unfold hasMethod
  split
  · refine conducts_seq (Q := Anything) (conducts_seq conducts_heap fun h => ?_) rest
    refine conducts_seq (conducts_method? linked _ _) fun found => ?_
    split
    · exact conducts_return _
    · exact conducts_return _
  · exact conducts_seq (conducts_seq (conducts_method? linked _ _) fun _ => conducts_return _) rest
  · split
    · exact conducts_seq (conducts_return _) rest
    · rw [bind_assoc]
      refine conducts_attempt (conducted.classOf (.inr (.inl rfl))) (fun s id later _ => ?_) ?_
      · refine conducts_seq (Q := Anything) (conducts_seq (conducts_method? linked _ _) fun found => ?_)
          fun b => (rest b).mono later
        split
        · exact conducts_return _
        · exact conducts_seq conducts_heap fun _ => conducts_return _
      · intro d _ s later orderly same
        have failed : Conducts w s file (do fail span (fault (← typeName v)) : Run α) Q := conducts_failNamed excused
        exact ⟨failed s (Later.refl s) orderly same, fun _ b s' => by intro ran; cases ran⟩

theorem callValue_conducts (linked : w.Linked) (conducted : k.Conducted w) (excused : w.program.Excuses file span)
    (f : Value) (args : List Value) : Conducts w s₀ file (callValue k f args span) Anything := by
  unfold callValue
  split
  · refine conducts_bind conducts_heap ?_
    rintro s h - ⟨rfl, orderly⟩
    exact callLambda_conducts conducted (sanctions_closure orderly _ _) excused _
  · exact conducts_seq conducts_heap fun _ => callMethod_conducts linked conducted excused _ _ _
  · exact conducts_fail excused
  · exact conducts_failNamed excused

/-! ## Superclasses and construction -/

theorem callParentConstructor_conducts (linked : w.Linked) (conducted : k.Conducted w)
    (excused : w.program.Excuses file span) (args : List Value) :
    Conducts w s₀ file (callParentConstructor k args span) Anything := by
  refine conducts_seq conducts_get fun s => ?_
  split
  · exact conducts_fail excused
  · refine conducts_bind conducts_get ?_
    rintro s' _ - ⟨rfl, orderly⟩
    split
    · split
      · exact conducts_return _
      · exact conducts_seq conducts_heap fun _ => conducts_fail excused
    · next ctor found =>
      split
      · refine conducts_seq (invoke_conducts conducted ?_ excused _ _ _) fun _ => conducts_return _
        exact entitled_constructor? linked orderly found
      · exact conducts_return _

theorem callParentMethod_conducts (linked : w.Linked) (conducted : k.Conducted w) {property : Name}
    (excused : w.program.Excuses file span) (named : w.program.Excuses file property.span) (args : List Value) :
    Conducts w s₀ file (callParentMethod k property args span) Anything := by
  refine conducts_seq conducts_get fun s => ?_
  split
  · exact conducts_fail excused
  · refine conducts_seq conducts_heap fun h => ?_
    refine conducts_bind (conducts_method? linked _ _) fun s' declared later entitled => ?_
    split
    · next m own =>
      exact invoke_conducts conducted (entitled m (Option.filter_eq_some_iff.1 own).1) excused _ _ _
    · next skipped =>
      refine conducts_seq conducts_heap fun h' => ?_
      dsimp only
      split
      · next hm hosted =>
        obtain ⟨thing, -, method⟩ := Option.bind_eq_some_iff.1 hosted
        refine callDeclared_conducts conducted (method?_conducted conducted method) (fun d same => ?_) excused _ _
        exact (entitled d same).carried (hosted_of_filter skipped same) file
      · exact conducts_fail named

theorem createHost_conducts (conducted : k.Conducted w) {ctor : Option FoundMethod}
    (entitled : ∀ c, ctor = some c → Entitled w s₀ c) (excused : w.program.Excuses file span) (cls : Nat)
    (args : List Value) : Conducts w s₀ file (createHost k cls ctor args span) Anything := by
  refine conducts_seq conducts_get fun s => ?_
  split
  · exact conducts_return _
  · next h _ =>
    have rest (passed : List Value) : Conducts w s₀ file (do
        if passed.isEmpty then return some (← newArray (.fitting []))
        else
          fail span (.hostFailed ("new " ++ h.name) (HostFault.constructorCount passed.length).message)) Anything := by
      split
      · exact conducts_seq (conducts_newArray _) fun _ => conducts_return _
      · exact conducts_fail excused
    split
    · exact conducts_fail excused
    · dsimp only
      split
      · next c =>
        split
        · exact conducts_seq (conducts_return _) rest
        · next bodiless =>
          have carried := (entitled c rfl).carried (.inl (by simpa using bodiless)) file
          exact conducts_seq (withDefaults_conducts conducted carried excused args) rest
      · exact conducts_seq (conducts_return _) rest

theorem initFields_conducts (conducted : k.Conducted w) {cls : Nat} {c : ClassDef}
    (found : s₀.heap.classes[cls]? = some c) (object : Nat) {fields : List Field}
    (sanctioned : w.program.Sanctions c.file (Field.sitesAll fields)) :
    Conducts w s₀ file (initFields k cls object fields) Anything := by
  induction fields with
  | nil => exact conducts_return ()
  | cons f fields ih =>
    obtain ⟨mark, annotations, modifiers, name, type, init⟩ := f
    have rest (later : w.program.Sanctions c.file (Field.sitesAll fields)) (v : Value) : Conducts w s₀ file (do
        setField object name.text (coerce type v)
        initFields k cls object fields) Anything :=
      conducts_seq (conducts_setField _ _ _) fun _ => ih later
    unfold initFields
    cases init with
    | none =>
      rw [Field.sitesAll] at sanctioned
      exact conducts_seq (conducts_return _) (rest sanctioned)
    | some e =>
      rw [Field.sitesAll, LinkedProgram.sanctions_append] at sanctioned
      exact conducts_seq (evalField_conducts conducted found _ sanctioned.1) (rest sanctioned.2)

private theorem fieldSites_filter_subset (p : Field → Bool) (fields : List Field) :
    Field.sitesAll (fields.filter p) ⊆ Field.sitesAll fields := by
  induction fields with
  | nil => exact List.Subset.refl _
  | cons f fields ih =>
    have here : Field.sitesAll (f :: fields) = Field.sitesAll [f] ++ Field.sitesAll fields := by
      obtain ⟨mark, annotations, modifiers, name, type, init⟩ := f
      cases init <;> simp [Field.sitesAll]
    have there : Field.sitesAll (f :: fields.filter p) = Field.sitesAll [f] ++ Field.sitesAll (fields.filter p) := by
      obtain ⟨mark, annotations, modifiers, name, type, init⟩ := f
      cases init <;> simp [Field.sitesAll]
    rw [here, List.filter_cons]
    split
    · rw [there]
      exact List.append_subset.2 ⟨List.subset_append_left _ _, List.subset_append_of_subset_right _ ih⟩
    · exact List.subset_append_of_subset_right _ ih

/-- The fields of a class get their initial values in its file. -/
theorem initInstance_conducts (linked : w.Linked) (conducted : k.Conducted w) (object c : Nat) :
    Conducts w s₀ file (do initFields k c object ((← heap).cls c).instanceFields) Anything := by
  refine conducts_bind conducts_heap ?_
  rintro s h - ⟨rfl, orderly⟩
  by_cases members : (s.heap.cls c).hasMembers = true
  · have found := classes_of_hasMembers members
    have code := (LinkedProgram.sanctions_append.1 (sanctions_class linked (orderly.classes found).declared)).1
    refine initFields_conducts conducted found object (code.subset ?_)
    rw [ClassDef.instanceFields, ClassDef.fields, if_pos members]
    exact fieldSites_filter_subset _ _
  · rw [ClassDef.instanceFields, ClassDef.fields, if_neg members]
    exact conducts_return ()

theorem instantiate_conducts (linked : w.Linked) (conducted : k.Conducted w) (excused : w.program.Excuses file span)
    (cls : Nat) (args : List Value) : Conducts w s₀ file (instantiate k cls args span) Anything := by
  refine conducts_bind conducts_get ?_
  rintro _ s - ⟨rfl, orderly⟩
  have entitled (c : FoundMethod) (found : s.constructor? cls = some c) : Entitled w s c :=
    entitled_constructor? linked orderly found
  refine conducts_seq (createHost_conducts conducted entitled excused _ _) fun host => ?_
  refine conducts_seq (conducts_newObject _ _) fun id => conducts_seq conducts_heap fun h => ?_
  refine conducts_seq (conducts_forM fun c _ => initInstance_conducts linked conducted id c) fun _ => ?_
  dsimp only
  split
  · next c found =>
    split
    · exact conducts_seq (invoke_conducts conducted (entitled c found) excused _ _ _) fun _ => conducts_return id
    · exact conducts_return id
  · split
    · exact conducts_seq conducts_heap fun _ => conducts_fail_bind excused
    · exact conducts_return id

/-! ## Markup -/

theorem evalAttributes_conducts (conducted : k.Conducted w) (scope : ScopeId) {attributes : List Attribute}
    (sanctioned : w.program.Sanctions file (Attribute.sitesAll attributes)) :
    Conducts w s₀ file (evalAttributes k scope attributes) Anything := by
  induction attributes with
  | nil => exact conducts_return _
  | cons a attributes ih =>
    obtain ⟨mark, name, value⟩ := a
    rw [Attribute.sitesAll, LinkedProgram.sanctions_append] at sanctioned
    refine conducts_seq (conducted.eval sanctioned.1) fun _ => conducts_seq (ih sanctioned.2) fun _ => ?_
    exact conducts_return _

theorem renderComponent_conducts (linked : w.Linked) (conducted : k.Conducted w)
    (excused : w.program.Excuses file span) (tag : String) (attrs : List (String × Value)) :
    Conducts w s₀ file (renderComponent k tag attrs span) Anything := by
  refine conducts_seq (conducted.classOf (.inr excused)) fun cls => ?_
  refine conducts_seq (conducts_method? linked _ _) fun found => ?_
  dsimp only
  split
  · exact conducts_fail_bind excused
  · refine conducts_seq (instantiate_conducts linked conducted excused _ _) fun id => ?_
    refine conducts_seq (conducts_forM fun a _ => conducts_setField _ _ _) fun _ => ?_
    exact callMethod_conducts linked conducted excused _ _ _

/-- Rendering a component covers up its failures, so the element must be one that the program has. -/
theorem component?_conducts (linked : w.Linked) (conducted : k.Conducted w) {e : Element}
    (answers : w.program.AnswersFor file (.expr (.markup e))) (attrs : List (String × Value)) :
    Conducts w s₀ file (component? k e.tag attrs e.mark.span) Anything := by
  refine conducts_bind conducts_read ?_
  rintro s _ - rfl
  split
  · exact conducts_return _
  · next isClass =>
    refine conducts_attempt (renderComponent_conducts linked conducted answers.excuses e.tag attrs) (fun t v later _ => conducts_return _) ?_
    intro d excused t later orderly same
    dsimp only
    split
    · exact ⟨ends_failed orderly excused, fun _ b s' => by intro ran; cases ran⟩
    · exact ⟨conducts_return none t later orderly same, fun plain => absurd (plain file e answers) isClass⟩

theorem toProperty_conducts (v : Value) : Conducts w s₀ file (toProperty v) Anything := by
  unfold toProperty
  split
  · exact conducts_return _
  · exact conducts_return _
  · exact conducts_return _
  · exact conducts_return _
  · exact conducts_seq (conducts_text _) fun _ => conducts_return _

theorem addProps_conducts (n : Markup.Node) (props : List (String × Value)) :
    Conducts w s₀ file (addProps n props) Anything := by
  induction props generalizing n with
  | nil => exact conducts_return n
  | cons p props ih => exact conducts_seq (toProperty_conducts p.2) fun _ => ih _

theorem addValue_conducts (n : Markup.Node) (v : Value) : Conducts w s₀ file (addValue n v) Anything := by
  refine conducts_seq conducts_heap fun h => ?_
  split
  · exact conducts_return _
  · exact conducts_endless

theorem addChildren_conducts (conducted : k.Conducted w) (scope : ScopeId) {children : List Child}
    (sanctioned : w.program.Sanctions file (Child.sitesAll children)) (n : Markup.Node) :
    Conducts w s₀ file (addChildren k scope n children) Anything := by
  induction children generalizing n with
  | nil => exact conducts_return n
  | cons c children ih =>
    unfold addChildren
    cases c with
    | text m t =>
      rw [Child.sitesAll] at sanctioned
      exact conducts_seq (conducts_return _) (ih sanctioned)
    | element e =>
      obtain ⟨mark, tag, attributes, inner, closing⟩ := e
      rw [Child.sitesAll, LinkedProgram.sanctions_append] at sanctioned
      have whole : w.program.Sanctions file (Expr.markup ⟨mark, tag, attributes, inner, closing⟩).sites := by
        rw [Expr.sites]
        exact sanctioned.1
      refine conducts_seq (conducted.eval whole) fun v => ?_
      exact conducts_seq (addValue_conducts n v) (ih sanctioned.2)
    | hole m e =>
      rw [Child.sitesAll, LinkedProgram.sanctions_append] at sanctioned
      refine conducts_seq (conducted.eval sanctioned.1) fun v => ?_
      exact conducts_seq (addValue_conducts n v) (ih sanctioned.2)

theorem wrapNode_conducts (conducted : k.Conducted w) (excused : w.program.Excuses file span) (n : Markup.Node) :
    Conducts w s₀ file (wrapNode k n span) Anything := by
  refine conducts_seq (conducts_newNode n) fun h => conducts_seq conducts_read fun w' => ?_
  split
  · exact conducts_return _
  · refine conducts_seq (conducted.classOf (.inr excused)) fun cls => ?_
    exact conducts_seq (conducts_newObject _ _) fun _ => conducts_return _

theorem evalElement_conducts (linked : w.Linked) (conducted : k.Conducted w) {e : Element}
    (sanctioned : w.program.Sanctions file (Expr.markup e).sites) (scope : ScopeId) :
    Conducts w s₀ file (evalElement k e scope) Anything := by
  obtain ⟨mark, tag, attributes, children, closing⟩ := e
  rw [Expr.sites] at sanctioned
  simp only [LinkedProgram.sanctions_home, LinkedProgram.sanctions_append] at sanctioned
  obtain ⟨answers, attributed, filled⟩ := sanctioned
  refine conducts_seq (evalAttributes_conducts conducted scope attributed) fun attrs => ?_
  refine conducts_seq (component?_conducts linked conducted answers attrs) fun rendered => ?_
  split
  · exact conducts_return _
  · refine conducts_seq (addProps_conducts _ _) fun n => ?_
    refine conducts_seq (addChildren_conducts conducted scope filled n) fun n => ?_
    exact wrapNode_conducts conducted answers.excuses n

/-! ## Expressions -/

theorem evalName_conducts (conducted : k.Conducted w) {id : Name} (excused : w.program.Excuses file id.span)
    (scope : ScopeId) : Conducts w s₀ file (evalName k id scope) Anything := by
  refine conducts_seq (conducts_binding? _ _) fun found => ?_
  split
  · exact conducts_return _
  · refine conducts_seq conducts_read fun w' => ?_
    split
    · exact conducts_seq (conducted.classOf (.inr excused)) fun cls => conducts_newClassRef cls
    · exact conducts_fail excused

theorem evalAll_conducts (conducted : k.Conducted w) (scope : ScopeId) {es : List Expr}
    (sanctioned : w.program.Sanctions file (Expr.sitesAll es)) : Conducts w s₀ file (evalAll k scope es) Anything := by
  induction es with
  | nil => exact conducts_return _
  | cons e es ih =>
    rw [Expr.sitesAll, LinkedProgram.sanctions_append] at sanctioned
    refine conducts_seq (conducted.eval sanctioned.1) fun _ => conducts_seq (ih sanctioned.2) fun _ => ?_
    exact conducts_return _

theorem applyUnary_conducts (excused : w.program.Excuses file span) (op : UnaryOp) (v : Value) :
    Conducts w s₀ file (applyUnary op v span) Anything := by
  unfold applyUnary
  split
  · exact conducts_return _
  · exact conducts_return _
  · exact conducts_failNamed excused

theorem numeric_conducts (excused : w.program.Excuses file span) (op : BinaryOp) (left right : Value) :
    Conducts w s₀ file (do
      match left, right with
      | .number x, .number y =>
        match numericResult? op x y with
        | some v => return v
        | none => fail span .divisionByZero
      | _, _ => fail span (.badBinary op.spelling (← typeName left) (← typeName right)) : Run Value) Anything := by
  split
  · split
    · exact conducts_return _
    · exact conducts_fail excused
  · exact conducts_seq (conducts_typeName _) fun _ => conducts_failNamed excused

theorem applyBinary_conducts (excused : w.program.Excuses file span) (op : BinaryOp) (left right : Value) :
    Conducts w s₀ file (applyBinary op left right span) Anything := by
  unfold applyBinary
  dsimp only
  split
  · exact conducts_seq conducts_heap fun _ => conducts_return _
  · exact conducts_seq conducts_heap fun _ => conducts_return _
  · split
    · exact conducts_seq (conducts_text _) fun _ => conducts_seq (conducts_text _) fun _ => conducts_return _
    · exact numeric_conducts excused .add left right
  · exact numeric_conducts excused op left right

theorem logicOperand_conducts {e : Expr} (excused : w.program.Excuses file e.span) (op : BinaryOp) (v : Value) :
    Conducts w s₀ file (logicOperand op e v) Anything := by
  unfold logicOperand
  split
  · exact conducts_return _
  · exact conducts_failNamed excused

/-- A file answers for the expression whose sites it answers for. -/
theorem answers_expr {e : Expr} (sanctioned : w.program.Sanctions file e.sites) :
    w.program.AnswersFor file (.expr e) := by
  unfold Expr.sites at sanctioned
  exact (LinkedProgram.sanctions_home.1 sanctioned).1

theorem evalLogic_conducts (conducted : k.Conducted w) {left right : Expr}
    (leftSites : w.program.Sanctions file left.sites) (rightSites : w.program.Sanctions file right.sites)
    (op : BinaryOp) (decisive : Bool) (scope : ScopeId) :
    Conducts w s₀ file (evalLogic k op decisive left right scope) Anything := by
  refine conducts_seq (conducted.eval leftSites) fun l => ?_
  refine conducts_seq (logicOperand_conducts (answers_expr leftSites).excuses _ _) fun b => ?_
  split
  · exact conducts_return _
  · refine conducts_seq (conducted.eval rightSites) fun r => ?_
    exact conducts_seq (logicOperand_conducts (answers_expr rightSites).excuses _ _) fun _ => conducts_return _

theorem evalReceiver_conducts (conducted : k.Conducted w) {object : Expr}
    (sanctioned : w.program.Sanctions file object.sites) (scope : ScopeId) :
    Conducts w s₀ file (evalReceiver k object scope) Anything := by
  unfold evalReceiver
  split
  · refine conducts_seq conducts_current fun frame => ?_
    split
    · exact conducts_return _
    · exact conducts_fail (answers_expr sanctioned).excuses
  · exact conducted.eval sanctioned

theorem setMember_conducts {property : Name} (excused : w.program.Excuses file property.span) (object v : Value) :
    Conducts w s₀ file (setMember object property v) Anything := by
  unfold setMember
  dsimp only
  split
  · exact conducts_fail excused
  · exact conducts_seq conducts_get fun _ => conducts_seq conducts_heap fun _ => conducts_setField _ _ _
  · refine conducts_seq conducts_get fun s => ?_
    split
    · exact conducts_setStatic _ _ _
    · exact conducts_seq conducts_heap fun _ => conducts_fail excused
  · exact conducts_failNamed excused

theorem field?_conducts (object : Value) (name : String) : Conducts w s₀ file (field? object name) Anything := by
  unfold field?
  split
  · refine conducts_seq conducts_heap fun h => ?_
    dsimp only
    split
    · exact conducts_return _
    · exact conducts_seq conducts_get fun _ => conducts_return _
  · exact conducts_seq conducts_get fun _ => conducts_return _
  · exact conducts_return _

theorem getMember_conducts (linked : w.Linked) (conducted : k.Conducted w) {property : Name}
    (excused : w.program.Excuses file property.span) (object : Value) :
    Conducts w s₀ file (getMember k object property) Anything := by
  unfold getMember
  dsimp only
  split
  · exact conducts_fail excused
  · refine conducts_seq (field?_conducts _ _) fun found => ?_
    split
    · exact conducts_return _
    · exact conducts_ifHas linked conducted excused (conducts_newMethod _ _)

theorem calledField?_conducts (object : Value) (name : String) :
    Conducts w s₀ file (calledField? object name) Anything := by
  unfold calledField?
  split
  · exact conducts_seq conducts_heap fun _ => conducts_return _
  · exact conducts_seq conducts_get fun _ => conducts_return _
  · exact conducts_return _

theorem evalCall_conducts (linked : w.Linked) (conducted : k.Conducted w) {callee : Expr} {args : List Expr}
    (calleeSites : w.program.Sanctions file callee.sites) (argSites : w.program.Sanctions file (Expr.sitesAll args))
    (excused : w.program.Excuses file span) (scope : ScopeId) :
    Conducts w s₀ file (evalCall k callee args span scope) Anything := by
  unfold evalCall
  split
  · refine conducts_seq (evalAll_conducts conducted scope argSites) fun vs => ?_
    exact callParentConstructor_conducts linked conducted excused _
  · rw [Expr.sites] at calleeSites
    simp only [LinkedProgram.sanctions_home] at calleeSites
    refine conducts_seq (evalAll_conducts conducted scope argSites) fun vs => ?_
    exact callParentMethod_conducts linked conducted excused calleeSites.2.1.excuses _
  · rw [Expr.sites] at calleeSites
    simp only [LinkedProgram.sanctions_home] at calleeSites
    refine conducts_seq (conducted.eval calleeSites.2.2) fun o => ?_
    refine conducts_seq (evalAll_conducts conducted scope argSites) fun vs => ?_
    refine conducts_seq (calledField?_conducts _ _) fun found => ?_
    split
    · exact callValue_conducts linked conducted excused _ _
    · exact callMethod_conducts linked conducted calleeSites.2.1.excuses _ _ _
  · refine conducts_seq (conducted.eval calleeSites) fun f => ?_
    refine conducts_seq (evalAll_conducts conducted scope argSites) fun vs => ?_
    exact callValue_conducts linked conducted excused _ _

theorem evalAssign_conducts (linked : w.Linked) (conducted : k.Conducted w) {target value : Expr}
    (targetSites : w.program.Sanctions file target.sites) (valueSites : w.program.Sanctions file value.sites)
    (excused : w.program.Excuses file span) (scope : ScopeId) :
    Conducts w s₀ file (evalAssign k target value span scope) Anything := by
  unfold evalAssign
  split
  · refine conducts_seq (conducted.eval valueSites) fun v => conducts_seq (conducts_assign _ _ _) fun done => ?_
    split
    · exact conducts_return _
    · exact conducts_fail (answers_expr targetSites).excuses
  · rw [Expr.sites] at targetSites
    simp only [LinkedProgram.sanctions_home] at targetSites
    refine conducts_seq (evalReceiver_conducts conducted targetSites.2.2 scope) fun o => ?_
    refine conducts_seq (conducted.eval valueSites) fun v => ?_
    exact conducts_seq (setMember_conducts targetSites.2.1.excuses _ _) fun _ => conducts_return _
  · rw [Expr.sites] at targetSites
    simp only [LinkedProgram.sanctions_home, LinkedProgram.sanctions_append] at targetSites
    refine conducts_seq (conducted.eval targetSites.2.1) fun o => ?_
    refine conducts_seq (conducted.eval targetSites.2.2) fun i => conducts_seq (conducted.eval valueSites) fun v => ?_
    exact conducts_seq (callMethod_conducts linked conducted excused _ _ _) fun _ => conducts_return _
  · exact conducts_fail (answers_expr targetSites).excuses

theorem evalArray_conducts (conducted : k.Conducted w) {elements : List Expr}
    (sanctioned : w.program.Sanctions file (Expr.sitesAll elements)) (excused : w.program.Excuses file span)
    (scope : ScopeId) : Conducts w s₀ file (evalArray k elements span scope) Anything := by
  refine conducts_seq (evalAll_conducts conducted scope sanctioned) fun items => ?_
  refine conducts_seq (conducted.classOf (.inr excused)) fun cls => conducts_seq (conducts_newArray _) fun h => ?_
  exact conducts_seq (conducts_newObject _ _) fun _ => conducts_return _

theorem eval_conducts (linked : w.Linked) (conducted : k.Conducted w) {e : Expr}
    (sanctioned : w.program.Sanctions file e.sites) (scope : ScopeId) :
    Conducts w s₀ file (eval k e scope) Anything := by
  have excused : w.program.Excuses file e.span := (answers_expr sanctioned).excuses
  cases e with
  | name id => exact evalName_conducts conducted excused scope
  | number m digits => exact conducts_return _
  | string q => exact conducts_return _
  | boolean m b => exact conducts_return _
  | null m => exact conducts_return _
  | self m =>
    refine conducts_seq conducts_current fun frame => ?_
    split
    · exact conducts_return _
    · exact conducts_fail excused
  | parent m => exact conducts_fail excused
  | unary m op operand =>
    rw [Expr.sites, LinkedProgram.sanctions_home] at sanctioned
    exact conducts_seq (conducted.eval sanctioned.2) fun v => applyUnary_conducts excused _ _
  | binary m op left right =>
    rw [Expr.sites, LinkedProgram.sanctions_home, LinkedProgram.sanctions_append] at sanctioned
    obtain ⟨-, leftSites, rightSites⟩ := sanctioned
    unfold eval
    dsimp only
    split
    · exact evalLogic_conducts conducted leftSites rightSites _ _ scope
    · exact evalLogic_conducts conducted leftSites rightSites _ _ scope
    · refine conducts_seq (conducted.eval leftSites) fun l => ?_
      exact conducts_seq (conducted.eval rightSites) fun r => applyBinary_conducts excused _ _ _
  | assign m target value =>
    rw [Expr.sites, LinkedProgram.sanctions_home, LinkedProgram.sanctions_append] at sanctioned
    exact evalAssign_conducts linked conducted sanctioned.2.1 sanctioned.2.2 excused scope
  | member m object property =>
    rw [Expr.sites, LinkedProgram.sanctions_home, LinkedProgram.sanctions_home] at sanctioned
    refine conducts_seq (evalReceiver_conducts conducted sanctioned.2.2 scope) fun o => ?_
    exact getMember_conducts linked conducted sanctioned.2.1.excuses _
  | index m object position =>
    rw [Expr.sites, LinkedProgram.sanctions_home, LinkedProgram.sanctions_append] at sanctioned
    refine conducts_seq (conducted.eval sanctioned.2.1) fun o => ?_
    refine conducts_seq (conducted.eval sanctioned.2.2) fun i => ?_
    exact callMethod_conducts linked conducted excused _ _ _
  | call m callee args =>
    rw [Expr.sites, LinkedProgram.sanctions_home, LinkedProgram.sanctions_append] at sanctioned
    exact evalCall_conducts linked conducted sanctioned.2.1 sanctioned.2.2 excused scope
  | create m type args =>
    rw [Expr.sites, LinkedProgram.sanctions_home, LinkedProgram.sanctions_home] at sanctioned
    refine conducts_seq (conducted.classOf (.inr sanctioned.2.1.excuses)) fun cls => ?_
    refine conducts_seq (evalAll_conducts conducted scope sanctioned.2.2) fun vs => ?_
    exact conducts_seq (instantiate_conducts linked conducted excused _ _) fun _ => conducts_return _
  | array m elements =>
    rw [Expr.sites, LinkedProgram.sanctions_home] at sanctioned
    exact evalArray_conducts conducted sanctioned.2 excused scope
  | lambda m params result body =>
    rw [Expr.sites, LinkedProgram.sanctions_home, LinkedProgram.sanctions_carry] at sanctioned
    refine conducts_seq (conducts_frameOf _) fun frame => conducts_seq conducts_current fun context => ?_
    exact conducts_newClosure sanctioned.2
  | markup element => exact evalElement_conducts linked conducted sanctioned scope

/-! ## Statements -/

theorem callProtocol_conducts (linked : w.Linked) (conducted : k.Conducted w) (excused : w.program.Excuses file span)
    (v : Value) (name : String) : Conducts w s₀ file (callProtocol k v name span) Anything :=
  conducts_ifHas linked conducted excused (callMethod_conducts linked conducted excused _ _ _)

theorem execArms_conducts (conducted : k.Conducted w) (subject : Value) (scope : ScopeId) {arms : List Arm}
    (sanctioned : w.program.Sanctions file (Arm.sitesAll arms)) :
    Conducts w s₀ file (execArms k subject scope arms) Anything := by
  induction arms with
  | nil => exact conducts_return _
  | cons a arms ih =>
    obtain ⟨mark, value, body⟩ := a
    rw [Arm.sitesAll, LinkedProgram.sanctions_append, LinkedProgram.sanctions_append] at sanctioned
    obtain ⟨⟨valueSites, bodySites⟩, rest⟩ := sanctioned
    refine conducts_seq (conducted.eval valueSites) fun v => conducts_seq conducts_heap fun h => ?_
    split
    · exact conducts_seq (execBlock_conducts conducted bodySites scope) fun _ => conducts_return _
    · exact ih rest

theorem iterate_conducts (linked : w.Linked) (conducted : k.Conducted w) {it : Iteration}
    (sanctioned : w.program.Sanctions file it.body.sites) (excused : w.program.Excuses file it.span) :
    Conducts w s₀ file (iterate k it) Anything := by
  refine conducts_seq (callProtocol_conducts linked conducted excused _ _) fun more => ?_
  split
  · exact conducts_return _
  · refine conducts_seq (callProtocol_conducts linked conducted excused _ _) fun item => ?_
    refine conducts_seq (Q := Anything) (conducts_releasing (conducts_seq (conducts_openScope _) fun scope => ?_))
      fun outcome => ?_
    · exact conducts_seq (conducts_define _ _ _) fun _ => execBlock_conducts conducted sanctioned _
    · split
      · exact conducts_return _
      · refine conducts_seq (callProtocol_conducts linked conducted excused _ _) fun _ => ?_
        exact conducts_seq conducts_noteTurn fun _ => conducted.iterate sanctioned excused
  · exact conducts_failNamed excused

theorem execEach_conducts (linked : w.Linked) (conducted : k.Conducted w) (item : Name) {iterable : Expr} {body : Block}
    (iterableSites : w.program.Sanctions file iterable.sites) (bodySites : w.program.Sanctions file body.sites)
    (scope : ScopeId) : Conducts w s₀ file (execEach k item iterable body scope) Anything := by
  have excused : w.program.Excuses file iterable.span := (answers_expr iterableSites).excuses
  refine conducts_seq (conducted.eval iterableSites) fun v => ?_
  dsimp only
  split
  · exact conducts_fail_bind excused
  · refine conducts_seq (callProtocol_conducts linked conducted excused _ _) fun it => ?_
    split
    · exact conducts_fail_bind excused
    · refine conducts_seq (callProtocol_conducts linked conducted excused _ _) fun _ => ?_
      exact conducted.iterate bodySites excused

theorem evalCondition_conducts (conducted : k.Conducted w) {e : Expr} (sanctioned : w.program.Sanctions file e.sites)
    (scope : ScopeId) : Conducts w s₀ file (evalCondition k e scope) Anything := by
  refine conducts_seq (conducted.eval sanctioned) fun v => ?_
  split
  · exact conducts_return _
  · exact conducts_failNamed (answers_expr sanctioned).excuses

theorem exec_conducts (linked : w.Linked) (conducted : k.Conducted w) {s : Stmt}
    (sanctioned : w.program.Sanctions file s.sites) (scope : ScopeId) :
    Conducts w s₀ file (exec k s scope) Anything := by
  unfold Stmt.sites at sanctioned
  obtain ⟨answers, sanctioned⟩ := LinkedProgram.sanctions_home.1 sanctioned
  refine conducts_seq (conducts_checkCancelled answers.excuses) fun _ => ?_
  cases s with
  | does m e => exact conducts_seq (conducted.eval sanctioned) fun _ => conducts_return _
  | binds m name type value =>
    have defined (v : Value) : Conducts w s₀ file (do
        define scope name.text v
        return Outcome.normal) Anything := conducts_seq (conducts_define _ _ _) fun _ => conducts_return _
    cases value with
    | some e => exact conducts_seq (conducted.eval sanctioned) fun v => conducts_seq (conducts_return _) defined
    | none => exact conducts_seq (conducts_return _) defined
  | block b => exact execBlock_conducts conducted sanctioned scope
  | branch m condition yes no =>
    cases no with
    | some no =>
      simp only [LinkedProgram.sanctions_append] at sanctioned
      obtain ⟨⟨conditionSites, yesSites⟩, noSites⟩ := sanctioned
      refine conducts_seq (evalCondition_conducts conducted conditionSites scope) fun b => ?_
      split
      · exact execBlock_conducts conducted yesSites scope
      · exact conducted.exec noSites
    | none =>
      simp only [LinkedProgram.sanctions_append] at sanctioned
      refine conducts_seq (evalCondition_conducts conducted sanctioned.1 scope) fun b => ?_
      split
      · exact execBlock_conducts conducted sanctioned.2 scope
      · exact conducts_return _
  | select m subject arms fallback =>
    cases fallback with
    | some b =>
      simp only [LinkedProgram.sanctions_append] at sanctioned
      obtain ⟨⟨subjectSites, armSites⟩, otherSites⟩ := sanctioned
      refine conducts_seq (conducted.eval subjectSites) fun v => ?_
      refine conducts_seq (execArms_conducts conducted v scope armSites) fun outcome => ?_
      cases outcome with
      | some outcome => exact conducts_return _
      | none => exact execBlock_conducts conducted otherSites scope
    | none =>
      simp only [LinkedProgram.sanctions_append] at sanctioned
      refine conducts_seq (conducted.eval sanctioned.1) fun v => ?_
      refine conducts_seq (execArms_conducts conducted v scope sanctioned.2) fun outcome => ?_
      cases outcome with
      | some outcome => exact conducts_return _
      | none => exact conducts_return _
  | each m item iterable body =>
    simp only [LinkedProgram.sanctions_append] at sanctioned
    exact execEach_conducts linked conducted _ sanctioned.1 sanctioned.2 scope
  | returns m value =>
    cases value with
    | some e => exact conducts_seq (conducted.eval sanctioned) fun _ => conducts_return _
    | none => exact conducts_return _
  | declares d => exact conducts_return _
  | uses m names path => exact conducts_return _

/-! ## All nested steps -/

/-- Every evaluation conducts itself, whatever number of nested steps it may take. -/
theorem evaluator_conducted (linked : w.Linked) (fuel : Nat) : (evaluator fuel).Conducted w := by
  induction fuel with
  | zero =>
    constructor
    · intro s₀ file e scope _
      exact conducts_endless
    · intro s₀ file s scope _
      exact conducts_endless
    · intro s₀ file f args span _
      exact conducts_endless
    · intro s₀ file name span _
      exact conducts_endless
    · intro s₀ file it _ _
      exact conducts_endless
  | succ fuel ih =>
    constructor
    · intro s₀ file e scope sanctioned
      exact eval_conducts linked ih sanctioned scope
    · intro s₀ file s scope sanctioned
      exact exec_conducts linked ih sanctioned scope
    · intro s₀ file f args span excused
      exact callValue_conducts linked ih excused f args
    · intro s₀ file name span there
      exact classOf_conducts linked ih there
    · intro s₀ file it sanctioned excused
      exact iterate_conducts linked ih sanctioned excused

end ClassScript.Evaluation
