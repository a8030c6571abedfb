import ClassScript.Evaluation.Interpreter
import ClassScript.Proofs.HostWork
import ClassScript.Proofs.Steady

/-!
The stack discipline of evaluation. Every construct is steady as long as the evaluator it calls for
nested steps is (`Evaluator.Disciplined`), so by induction on their number every evaluation is
(`evaluator_disciplined`): it leaves the scopes, the running calls and the file as it found them,
however it ends.
-/

namespace ClassScript.Evaluation

variable {slots : Array Nat} {k : Evaluator}

/-- An evaluator leaves the stack as it was, as long as the scopes handed to it are live. -/
structure Evaluator.Disciplined (k : Evaluator) : Prop where
  eval : ∀ (slots : Array Nat) (e : Expr) (scope : ScopeId), scope < slots.size → Steady slots (k.eval e scope)
  exec : ∀ (slots : Array Nat) (s : Stmt) (scope : ScopeId), scope < slots.size → Steady slots (k.exec s scope)
  callValue : ∀ (slots : Array Nat) (f : Value) (args : List Value) (span : Span), 0 < slots.size →
    Steady slots (k.callValue f args span)
  classOf : ∀ (slots : Array Nat) (name : String) (span : Span), 0 < slots.size → Steady slots (k.classOf name span)
  iterate : ∀ (slots : Array Nat) (it : Iteration), it.scope < slots.size → Steady slots (k.iterate it)

/-! ## Classes -/

theorem steady_modifyClass (id : Nat) (f : ClassDef → ClassDef) : Steady slots (modifyClass id f) :=
  steady_modifyHeap _

theorem steady_setField (id : Nat) (name : String) (v : Value) : Steady slots (setField id name v) :=
  steady_modifyHeap _

theorem steady_newObject (cls : Nat) (host : Option Host) : Steady slots (newObject cls host) :=
  steady_modifyGet fun _ => ⟨rfl, rfl, rfl⟩

theorem steady_newArray (storage : Storage) : Steady slots (newArray storage) :=
  steady_modifyGet fun _ => ⟨rfl, rfl, rfl⟩

theorem steady_newClassRef (cls : Nat) : Steady slots (newClassRef cls) :=
  steady_modifyGet fun _ => ⟨rfl, rfl, rfl⟩

theorem steady_method? (cls : Nat) (name : String) : Steady slots (method? cls name) :=
  steady_bind steady_get fun _ => steady_pure _

theorem buildInterface_steady (fuel : Nat) (name : String) (span : Span) :
    Steady slots (buildInterface fuel name span) := by
  induction fuel generalizing name span with
  | zero => exact steady_endless
  | succ fuel ih =>
    unfold buildInterface
    refine steady_bind steady_get fun s => ?_
    split
    · exact steady_pure ()
    · refine steady_bind steady_read fun w => ?_
      cases w.interface? name with
      | none => exact steady_fail _ _
      | some decl =>
        refine steady_bind (steady_modify fun _ => ⟨rfl, rfl, rfl⟩) fun _ => steady_forM fun p => ?_
        exact steady_bind (ih _ _) fun _ => steady_modify fun _ => ⟨rfl, rfl, rfl⟩

theorem evalField_steady (disciplined : k.Disciplined) (nonempty : 0 < slots.size) (cls : Nat) (self : Option Value)
    (e : Expr) : Steady slots (evalField k cls self e) := by
  refine steady_bind steady_heap fun h => steady_bind steady_noteInitial fun _ => ?_
  refine steady_inContext _ _ nonempty (opens_openScope nonempty fun id => ?_)
  exact disciplined.eval _ e _ (by simp)

theorem addSupers_steady (disciplined : k.Disciplined) (nonempty : 0 < slots.size) (cls : Nat)
    (parent : Option TypeExpr) (interfaces : List TypeExpr) : Steady slots (addSupers k cls parent interfaces) := by
  have rest : Steady slots (interfaces.forM fun t => do
      buildInterface ((← read).program.statements.length + 1) (headName t) t.span
      modifyClass cls fun c => { c with interfaces := c.interfaces ++ [headName t] }) := by
    refine steady_forM fun t => steady_bind steady_read fun w => ?_
    exact steady_bind (buildInterface_steady _ _ _) fun _ => steady_modifyClass _ _
  unfold addSupers
  cases parent with
  | none => exact rest
  | some t =>
    dsimp only
    split
    · exact steady_bind (disciplined.classOf _ _ _ nonempty) fun _ => steady_bind (steady_modifyClass _ _) fun _ => rest
    · exact rest

theorem addMembers_steady (cls : Nat) (decl : Declaration) : Steady slots (addMembers cls decl) := by
  refine steady_bind (steady_modifyClass _ _) fun _ => ?_
  split
  · split
    · exact steady_modifyClass _ _
    · exact steady_fail _ _
  · exact steady_pure ()

theorem initStatics_steady (disciplined : k.Disciplined) (nonempty : 0 < slots.size) (cls : Nat) (fields : List Field) :
    Steady slots (initStatics k cls fields) := by
  induction fields with
  | nil => exact steady_pure ()
  | cons f fields ih =>
    unfold initStatics
    dsimp only
    split
    · cases f.init with
      | some e =>
        refine steady_bind (evalField_steady disciplined nonempty cls none e) fun v => ?_
        exact steady_bind (steady_modifyClass _ _) fun _ => ih
      | none => exact steady_bind (steady_pure _) fun v => steady_bind (steady_modifyClass _ _) fun _ => ih
    · exact ih

theorem orForget_steady {α : Type} (name : String) {x : Run α} (steady : Steady slots x) :
    Steady slots (orForget name x) := by
  refine steady_bind (steady_attempt steady) fun r => ?_
  cases r with
  | ok a => exact steady_pure a
  | error d => exact steady_bind (steady_modify fun _ => ⟨rfl, rfl, rfl⟩) fun _ => steady_failed d

theorem classOf_steady (disciplined : k.Disciplined) (nonempty : 0 < slots.size) (name : String) (span : Span) :
    Steady slots (classOf k name span) := by
  refine steady_bind steady_get fun s => ?_
  cases s.classes.lookup name with
  | some id => exact steady_pure id
  | none =>
    refine steady_bind steady_read fun w => ?_
    rcases w.class? name with _ | ⟨file, decl⟩
    · exact steady_fail _ _
    · refine steady_bind (steady_modifyGet fun _ => ⟨rfl, rfl, rfl⟩) fun cls => ?_
      have built (parent : Option TypeExpr) (interfaces : List TypeExpr) :
          Steady slots (do
            orForget name do
              addSupers k cls parent interfaces
              addMembers cls decl
            initStatics k cls decl.fields
            return cls) := by
        refine steady_bind (orForget_steady name ?_) fun _ => ?_
        · exact steady_bind (addSupers_steady disciplined nonempty cls parent interfaces) fun _ =>
            addMembers_steady cls decl
        · exact steady_bind (initStatics_steady disciplined nonempty cls decl.fields) fun _ => steady_pure cls
      cases decl.heading with
      | ofClass _ parent interfaces => exact built parent interfaces
      | ofInterface _ => exact built none []

/-! ## Methods of the host -/

/-- The work of the host is steady. -/
theorem steady_hostClosed : HostClosed fun {_} x => Steady slots x where
  pure := steady_pure
  bind := steady_bind
  read := steady_read
  heap := steady_heap
  text := steady_text
  print := steady_print
  modifyArrays _ := steady_modifyHeap _
  modifyCursor _ _ := steady_modifyHeap _
  newArray := steady_newArray
  newCursor _ := steady_modifyGet fun _ => ⟨rfl, rfl, rfl⟩

/-- A host method is steady on live slots; it may call functions back through the evaluator. -/
def HostMethod.Disciplined (m : HostMethod) (k : Evaluator) (slots : Array Nat) : Prop :=
  ∀ (span : Span) (args : List HostArg), Steady slots (m.call k span args)

theorem hostMethod?_disciplined (disciplined : k.Disciplined) (nonempty : 0 < slots.size) {h : Host} {name : String}
    {m : HostMethod} (found : Standard.method? h name = some m) : m.Disciplined k slots := fun span _ =>
  steady_hostClosed.method (fun f item => disciplined.callValue slots f [item] span nonempty) found

theorem classMethod?_disciplined {c : HostClass} {name : String} {m : HostMethod}
    (found : Standard.classMethod? c name = some m) : m.Disciplined k slots := fun _ _ =>
  steady_hostClosed.classMethod found

theorem boxedMethod?_disciplined {c : HostClass} {v : Value} {name : String} {m : HostMethod}
    (found : Standard.boxedMethod? c v name = some m) : m.Disciplined k slots := fun _ _ =>
  steady_hostClosed.boxedMethod found

/-! ## Calls -/

theorem checkCount_steady (name : String) (params : List Param) (count : Nat) (span : Span) :
    Steady slots (checkCount name params count span) := by
  unfold checkCount
  dsimp only
  split
  · exact steady_pure ()
  · split
    · exact steady_fail _ _
    · exact steady_fail _ _

theorem bindParams_steady (disciplined : k.Disciplined) {scope : ScopeId} (live : scope < slots.size)
    (params : List Param) (args : List Value) : Steady slots (bindParams k scope params args) := by
  induction params generalizing args with
  | nil => exact steady_pure ()
  | cons p params ih =>
    have rest (v : Value) : Steady slots (do
        define scope p.name.text (coerce p.type v)
        bindParams k scope params args.tail) :=
      steady_bind (steady_define live _ _) fun _ => ih args.tail
    unfold bindParams
    dsimp only
    split
    · exact steady_bind (steady_pure _) rest
    · exact steady_bind (disciplined.eval _ _ _ live) rest
    · exact steady_fail_bind _ _ _

theorem withDefaults_steady (disciplined : k.Disciplined) (nonempty : 0 < slots.size) (m : FoundMethod)
    (args : List Value) (span : Span) : Steady slots (withDefaults k m args span) := by
  refine steady_bind (checkCount_steady _ _ _ _) fun _ => ?_
  split
  · exact steady_pure _
  · refine steady_bind steady_noteTurn fun _ => steady_releasing nonempty (opens_openScope nonempty fun id => ?_)
    have live : slots.size < (slots.push id).size := by simp
    refine steady_bind (bindParams_steady disciplined live _ _) fun _ => steady_mapM fun p => ?_
    exact steady_bind (steady_binding? live _) fun _ => steady_pure _

theorem execAll_steady (disciplined : k.Disciplined) {scope : ScopeId} (live : scope < slots.size)
    (statements : List Stmt) : Steady slots (execAll k scope statements) := by
  induction statements with
  | nil => exact steady_pure _
  | cons s statements ih =>
    refine steady_bind (disciplined.exec _ s _ live) fun outcome => ?_
    cases outcome with
    | returned v => exact steady_pure _
    | normal => exact ih

theorem execBlock_steady (disciplined : k.Disciplined) (b : Block) {outer : ScopeId} (live : outer < slots.size) :
    Steady slots (execBlock k b outer) := by
  have nonempty : 0 < slots.size := Nat.zero_lt_of_lt live
  refine steady_releasing nonempty (opens_openScope live fun id => ?_)
  exact execAll_steady disciplined (by simp) b.statements

theorem checkDepth_steady (span : Span) : Steady slots (checkDepth span) := by
  refine steady_bind steady_get fun s => ?_
  split
  · exact steady_fail _ _
  · exact steady_pure ()

theorem invoke_steady (disciplined : k.Disciplined) (nonempty : 0 < slots.size) (m : FoundMethod) (from_ : Option Nat)
    (self : Option Value) (args : List Value) (span : Span) : Steady slots (invoke k m from_ self args span) := by
  refine steady_bind (checkCount_steady _ _ _ _) fun _ => steady_bind (checkDepth_steady _) fun _ => ?_
  refine steady_bind steady_heap fun h => steady_inContext _ _ nonempty (opens_openScope nonempty fun id => ?_)
  have live : slots.size < (slots.push id).size := by simp
  refine steady_bind (bindParams_steady disciplined live _ _) fun _ => ?_
  split
  · exact steady_pure _
  · refine steady_bind (execBlock_steady disciplined _ live) fun outcome => ?_
    cases outcome with
    | normal => exact steady_pure _
    | returned v => exact steady_pure _

theorem callLambda_steady (disciplined : k.Disciplined) (nonempty : 0 < slots.size) (c : Closure) (args : List Value)
    (span : Span) : Steady slots (callLambda k c args span) := by
  refine steady_bind (checkCount_steady _ _ _ _) fun _ => steady_bind (checkDepth_steady _) fun _ => ?_
  refine steady_inContext _ _ nonempty (opens_openFrame c.frame fun id => ?_)
  have live : slots.size < (slots.push id).size := by simp
  refine steady_bind (bindParams_steady disciplined live _ _) fun _ => ?_
  split
  · exact steady_bind (disciplined.eval _ _ _ live) fun _ => steady_pure _
  · refine steady_bind (execBlock_steady disciplined _ live) fun outcome => ?_
    cases outcome with
    | normal => exact steady_pure _
    | returned v => exact steady_pure _

theorem toValue_steady (disciplined : k.Disciplined) (nonempty : 0 < slots.size) (v : Value) (span : Span) :
    Steady slots (toValue k v span) := by
  unfold toValue
  split
  · refine steady_bind (disciplined.classOf _ _ _ nonempty) fun cls => ?_
    exact steady_bind (steady_newObject _ _) fun _ => steady_pure _
  · exact steady_pure _

theorem passAll_steady (name : String) (span : Span) (position : Nat) (params : List ParamKind) (args : List Value) :
    Steady slots (passAll name span position params args) := by
  induction params generalizing position args with
  | nil => exact steady_pure _
  | cons p params ih =>
    cases args with
    | nil => exact steady_pure _
    | cons v args =>
      refine steady_bind steady_heap fun h => ?_
      split
      · exact steady_fail _ _
      · exact steady_bind (ih _ _) fun _ => steady_pure _

theorem callHost_steady (disciplined : k.Disciplined) (nonempty : 0 < slots.size) {m : HostMethod}
    (host : m.Disciplined k slots) (name : String) (args : List Value) (span : Span) :
    Steady slots (callHost k m name args span) := by
  unfold callHost
  dsimp only
  split
  · exact steady_fail_bind _ _ _
  · refine steady_bind (passAll_steady _ _ _ _ _) fun passed => ?_
    refine steady_bind steady_noteTurn fun _ => steady_bind (host span passed) fun r => ?_
    split
    · exact toValue_steady disciplined nonempty _ _
    · exact steady_fail _ _
    · exact steady_fail _ _

theorem callDeclared_steady (disciplined : k.Disciplined) (nonempty : 0 < slots.size) {m : HostMethod}
    (host : m.Disciplined k slots) (declared : Option FoundMethod) (name : String) (args : List Value) (span : Span) :
    Steady slots (callDeclared k m declared name args span) := by
  unfold callDeclared
  cases declared with
  | none => exact steady_bind (steady_pure _) fun _ => callHost_steady disciplined nonempty host _ _ _
  | some d =>
    refine steady_bind (withDefaults_steady disciplined nonempty d args span) fun _ => ?_
    exact callHost_steady disciplined nonempty host _ _ _

theorem callObject_steady (disciplined : k.Disciplined) (nonempty : 0 < slots.size) (id : Nat) (name : String)
    (args : List Value) (span : Span) : Steady slots (callObject k id name args span) := by
  refine steady_bind steady_heap fun h => steady_bind steady_heap fun h' => ?_
  refine steady_bind (steady_method? _ _) fun found => ?_
  dsimp only
  split
  · exact invoke_steady disciplined nonempty _ _ _ _ _
  · split
    · next m hosted =>
      obtain ⟨thing, -, method⟩ := Option.bind_eq_some_iff.mp hosted
      exact callDeclared_steady disciplined nonempty (hostMethod?_disciplined disciplined nonempty method) _ _ _ _
    · split
      · exact steady_fail _ _
      · exact steady_fail _ _

theorem callStatic_steady (disciplined : k.Disciplined) (nonempty : 0 < slots.size) (id : Nat) (name : String)
    (args : List Value) (span : Span) : Steady slots (callStatic k id name args span) := by
  refine steady_bind steady_heap fun h => steady_bind (steady_method? _ _) fun found => ?_
  split
  · exact steady_fail _ _
  · split
    · exact invoke_steady disciplined nonempty _ _ _ _ _
    · refine steady_bind steady_heap fun h' => ?_
      dsimp only
      split
      · next m hosted =>
        obtain ⟨cls, -, bound⟩ := List.exists_of_findSome?_eq_some hosted
        obtain ⟨host, -, method⟩ := Option.bind_eq_some_iff.mp bound
        exact callDeclared_steady disciplined nonempty (classMethod?_disciplined method) _ _ _ _
      · exact steady_fail _ _

theorem callBoxed_steady (disciplined : k.Disciplined) (nonempty : 0 < slots.size) (boxed : String) (v : Value)
    (name : String) (args : List Value) (span : Span) : Steady slots (callBoxed k boxed v name args span) := by
  refine steady_bind (disciplined.classOf _ _ _ nonempty) fun id => steady_bind (steady_method? _ _) fun declared => ?_
  split
  · exact invoke_steady disciplined nonempty _ _ _ _ _
  · refine steady_bind steady_heap fun h => ?_
    split
    · exact steady_failNamed _ _ v
    · split
      · next m method => exact callDeclared_steady disciplined nonempty (boxedMethod?_disciplined method) _ _ _ _
      · split
        · exact steady_fail _ _
        · exact steady_failNamed _ _ v

theorem callMethod_steady (disciplined : k.Disciplined) (nonempty : 0 < slots.size) (receiver : Value) (name : String)
    (args : List Value) (span : Span) : Steady slots (callMethod k receiver name args span) := by
  unfold callMethod
  split
  · exact steady_fail _ _
  · exact callObject_steady disciplined nonempty _ _ _ _
  · exact callStatic_steady disciplined nonempty _ _ _ _
  · split
    · exact callBoxed_steady disciplined nonempty _ _ _ _ _
    · exact steady_failNamed _ _ _

theorem hasMethod_steady (disciplined : k.Disciplined) (nonempty : 0 < slots.size) (v : Value) (name : String) :
    Steady slots (hasMethod k v name) := by
  unfold hasMethod
  split
  · refine steady_bind steady_heap fun h => steady_bind (steady_method? _ _) fun found => ?_
    split
    · exact steady_pure _
    · exact steady_pure _
  · exact steady_bind (steady_method? _ _) fun _ => steady_pure _
  · split
    · exact steady_pure _
    · refine steady_bind (steady_attempt (disciplined.classOf _ _ _ nonempty)) fun r => ?_
      split
      · exact steady_pure _
      · refine steady_bind (steady_method? _ _) fun found => ?_
        split
        · exact steady_pure _
        · exact steady_bind steady_heap fun _ => steady_pure _

theorem callValue_steady (disciplined : k.Disciplined) (nonempty : 0 < slots.size) (f : Value) (args : List Value)
    (span : Span) : Steady slots (callValue k f args span) := by
  unfold callValue
  split
  · exact steady_bind steady_heap fun _ => callLambda_steady disciplined nonempty _ _ _
  · exact steady_bind steady_heap fun _ => callMethod_steady disciplined nonempty _ _ _ _
  · exact steady_fail _ _
  · exact steady_failNamed _ _ _

theorem callParentConstructor_steady (disciplined : k.Disciplined) (nonempty : 0 < slots.size) (args : List Value)
    (span : Span) : Steady slots (callParentConstructor k args span) := by
  refine steady_bind steady_get fun s => ?_
  split
  · exact steady_fail _ _
  · refine steady_bind steady_get fun s' => ?_
    split
    · split
      · exact steady_pure _
      · exact steady_bind steady_heap fun _ => steady_fail _ _
    · split
      · exact steady_bind (invoke_steady disciplined nonempty _ _ _ _ _) fun _ => steady_pure _
      · exact steady_pure _

theorem callParentMethod_steady (disciplined : k.Disciplined) (nonempty : 0 < slots.size) (property : Name)
    (args : List Value) (span : Span) : Steady slots (callParentMethod k property args span) := by
  refine steady_bind steady_get fun s => ?_
  split
  · exact steady_fail _ _
  · refine steady_bind steady_heap fun h => steady_bind (steady_method? _ _) fun declared => ?_
    split
    · exact invoke_steady disciplined nonempty _ _ _ _ _
    · refine steady_bind steady_heap fun h' => ?_
      dsimp only
      split
      · next m hosted =>
        obtain ⟨thing, -, method⟩ := Option.bind_eq_some_iff.mp hosted
        exact callDeclared_steady disciplined nonempty (hostMethod?_disciplined disciplined nonempty method) _ _ _ _
      · exact steady_fail _ _

theorem createHost_steady (disciplined : k.Disciplined) (nonempty : 0 < slots.size) (cls : Nat)
    (ctor : Option FoundMethod) (args : List Value) (span : Span) :
    Steady slots (createHost k cls ctor args span) := by
  refine steady_bind steady_get fun s => ?_
  split
  · exact steady_pure _
  · next h _ =>
    have rest (passed : List Value) : Steady slots (do
        if passed.isEmpty then return some (← newArray (.fitting []))
        else
          fail span (.hostFailed ("new " ++ h.name) (HostFault.constructorCount passed.length).message)) := by
      split
      · exact steady_bind (steady_newArray _) fun _ => steady_pure _
      · exact steady_fail _ _
    split
    · exact steady_fail _ _
    · dsimp only
      split
      · split
        · exact steady_bind (steady_pure _) rest
        · exact steady_bind (withDefaults_steady disciplined nonempty _ _ _) rest
      · exact steady_bind (steady_pure _) rest

theorem initFields_steady (disciplined : k.Disciplined) (nonempty : 0 < slots.size) (cls object : Nat)
    (fields : List Field) : Steady slots (initFields k cls object fields) := by
  induction fields with
  | nil => exact steady_pure ()
  | cons f fields ih =>
    have rest (v : Value) : Steady slots (do
        setField object f.name.text (coerce f.type v)
        initFields k cls object fields) :=
      steady_bind (steady_setField _ _ _) fun _ => ih
    unfold initFields
    dsimp only
    split
    · exact steady_bind (evalField_steady disciplined nonempty _ _ _) rest
    · exact steady_bind (steady_pure _) rest

theorem instantiate_steady (disciplined : k.Disciplined) (nonempty : 0 < slots.size) (cls : Nat) (args : List Value)
    (span : Span) : Steady slots (instantiate k cls args span) := by
  refine steady_bind steady_get fun s => ?_
  refine steady_bind (createHost_steady disciplined nonempty _ _ _ _) fun host => ?_
  refine steady_bind (steady_newObject _ _) fun id => steady_bind steady_heap fun h => ?_
  refine steady_bind (steady_forM fun c => ?_) fun _ => ?_
  · exact steady_bind steady_heap fun _ => initFields_steady disciplined nonempty _ _ _
  · dsimp only
    split
    · split
      · exact steady_bind (invoke_steady disciplined nonempty _ _ _ _ _) fun _ => steady_pure id
      · exact steady_pure id
    · split
      · exact steady_bind steady_heap fun _ => steady_fail_bind _ _ _
      · exact steady_pure id

/-! ## Markup -/

theorem evalAttributes_steady (disciplined : k.Disciplined) {scope : ScopeId} (live : scope < slots.size)
    (attributes : List Attribute) : Steady slots (evalAttributes k scope attributes) := by
  induction attributes with
  | nil => exact steady_pure _
  | cons a attributes ih =>
    exact steady_bind (disciplined.eval _ _ _ live) fun _ => steady_bind ih fun _ => steady_pure _

theorem renderComponent_steady (disciplined : k.Disciplined) (nonempty : 0 < slots.size) (tag : String)
    (attrs : List (String × Value)) (span : Span) : Steady slots (renderComponent k tag attrs span) := by
  refine steady_bind (disciplined.classOf _ _ _ nonempty) fun cls => steady_bind (steady_method? _ _) fun found => ?_
  dsimp only
  split
  · exact steady_fail_bind _ _ _
  · refine steady_bind (instantiate_steady disciplined nonempty _ _ _) fun id => ?_
    refine steady_bind (steady_forM fun a => steady_setField _ _ _) fun _ => ?_
    exact callMethod_steady disciplined nonempty _ _ _ _

theorem component?_steady (disciplined : k.Disciplined) (nonempty : 0 < slots.size) (tag : String)
    (attrs : List (String × Value)) (span : Span) : Steady slots (component? k tag attrs span) := by
  refine steady_bind steady_read fun w => ?_
  split
  · exact steady_pure _
  · refine steady_bind (steady_attempt (renderComponent_steady disciplined nonempty tag attrs span)) fun r => ?_
    split
    · exact steady_pure _
    · split
      · exact steady_failed _
      · exact steady_pure _

theorem toProperty_steady (v : Value) : Steady slots (toProperty v) := by
  unfold toProperty
  split
  · exact steady_pure _
  · exact steady_pure _
  · exact steady_pure _
  · exact steady_pure _
  · exact steady_bind (steady_text _) fun _ => steady_pure _

theorem addProps_steady (n : Markup.Node) (props : List (String × Value)) : Steady slots (addProps n props) := by
  induction props generalizing n with
  | nil => exact steady_pure n
  | cons p props ih => exact steady_bind (toProperty_steady p.2) fun _ => ih _

theorem addValue_steady (n : Markup.Node) (v : Value) : Steady slots (addValue n v) := by
  refine steady_bind steady_heap fun h => ?_
  split
  · exact steady_pure _
  · exact steady_endless

theorem addChildren_steady (disciplined : k.Disciplined) {scope : ScopeId} (live : scope < slots.size)
    (n : Markup.Node) (children : List Child) : Steady slots (addChildren k scope n children) := by
  induction children generalizing n with
  | nil => exact steady_pure n
  | cons c children ih =>
    unfold addChildren
    cases c with
    | text m t => exact steady_bind (steady_pure _) ih
    | element e =>
      refine steady_bind (disciplined.eval _ _ _ live) fun v => ?_
      exact steady_bind (addValue_steady n v) ih
    | hole m e =>
      refine steady_bind (disciplined.eval _ _ _ live) fun v => ?_
      exact steady_bind (addValue_steady n v) ih

theorem wrapNode_steady (disciplined : k.Disciplined) (nonempty : 0 < slots.size) (n : Markup.Node) (span : Span) :
    Steady slots (wrapNode k n span) := by
  refine steady_bind (steady_modifyGet fun _ => ⟨rfl, rfl, rfl⟩) fun h => steady_bind steady_read fun w => ?_
  split
  · exact steady_pure _
  · refine steady_bind (disciplined.classOf _ _ _ nonempty) fun cls => ?_
    exact steady_bind (steady_newObject _ _) fun _ => steady_pure _

theorem evalElement_steady (disciplined : k.Disciplined) (e : Element) {scope : ScopeId} (live : scope < slots.size) :
    Steady slots (evalElement k e scope) := by
  have nonempty : 0 < slots.size := Nat.zero_lt_of_lt live
  refine steady_bind (evalAttributes_steady disciplined live _) fun attrs => ?_
  refine steady_bind (component?_steady disciplined nonempty _ _ _) fun rendered => ?_
  split
  · exact steady_pure _
  · refine steady_bind (addProps_steady _ _) fun n => ?_
    refine steady_bind (addChildren_steady disciplined live n _) fun n => ?_
    exact wrapNode_steady disciplined nonempty n _

/-! ## Expressions -/

theorem evalName_steady (disciplined : k.Disciplined) (id : Name) {scope : ScopeId} (live : scope < slots.size) :
    Steady slots (evalName k id scope) := by
  refine steady_bind (steady_binding? live _) fun found => ?_
  split
  · exact steady_pure _
  · refine steady_bind steady_read fun w => ?_
    split
    · refine steady_bind (disciplined.classOf _ _ _ (Nat.zero_lt_of_lt live)) fun cls => ?_
      exact steady_newClassRef cls
    · exact steady_fail _ _

theorem evalAll_steady (disciplined : k.Disciplined) {scope : ScopeId} (live : scope < slots.size)
    (es : List Expr) : Steady slots (evalAll k scope es) := by
  induction es with
  | nil => exact steady_pure _
  | cons e es ih =>
    exact steady_bind (disciplined.eval _ _ _ live) fun _ => steady_bind ih fun _ => steady_pure _

theorem applyUnary_steady (op : UnaryOp) (v : Value) (span : Span) : Steady slots (applyUnary op v span) := by
  unfold applyUnary
  split
  · exact steady_pure _
  · exact steady_pure _
  · exact steady_failNamed _ _ _

theorem numeric_steady (op : BinaryOp) (left right : Value) (span : Span) :
    Steady slots (do
      match left, right with
      | .number x, .number y =>
        match numericResult? op x y with
        | some v => return v
        | none => fail span .divisionByZero
      | _, _ => fail span (.badBinary op.spelling (← typeName left) (← typeName right)) : Run Value) := by
  split
  · split
    · exact steady_pure _
    · exact steady_fail _ _
  · exact steady_bind (steady_typeName _) fun _ => steady_failNamed _ _ _

theorem applyBinary_steady (op : BinaryOp) (left right : Value) (span : Span) :
    Steady slots (applyBinary op left right span) := by
  unfold applyBinary
  dsimp only
  split
  · exact steady_bind steady_heap fun _ => steady_pure _
  · exact steady_bind steady_heap fun _ => steady_pure _
  · split
    · exact steady_bind (steady_text _) fun _ => steady_bind (steady_text _) fun _ => steady_pure _
    · exact numeric_steady .add left right span
  · exact numeric_steady op left right span

theorem logicOperand_steady (op : BinaryOp) (e : Expr) (v : Value) : Steady slots (logicOperand op e v) := by
  unfold logicOperand
  split
  · exact steady_pure _
  · exact steady_failNamed _ _ _

theorem evalLogic_steady (disciplined : k.Disciplined) (op : BinaryOp) (decisive : Bool) (left right : Expr)
    {scope : ScopeId} (live : scope < slots.size) : Steady slots (evalLogic k op decisive left right scope) := by
  refine steady_bind (disciplined.eval _ _ _ live) fun l => steady_bind (logicOperand_steady _ _ _) fun b => ?_
  split
  · exact steady_pure _
  · refine steady_bind (disciplined.eval _ _ _ live) fun r => ?_
    exact steady_bind (logicOperand_steady _ _ _) fun _ => steady_pure _

theorem evalReceiver_steady (disciplined : k.Disciplined) (object : Expr) {scope : ScopeId}
    (live : scope < slots.size) : Steady slots (evalReceiver k object scope) := by
  unfold evalReceiver
  split
  · refine steady_bind steady_current fun frame => ?_
    split
    · exact steady_pure _
    · exact steady_fail _ _
  · exact disciplined.eval _ _ _ live

theorem setMember_steady (object : Value) (property : Name) (v : Value) :
    Steady slots (setMember object property v) := by
  unfold setMember
  dsimp only
  split
  · exact steady_fail _ _
  · exact steady_bind steady_get fun _ => steady_bind steady_heap fun _ => steady_setField _ _ _
  · refine steady_bind steady_get fun s => ?_
    split
    · exact steady_modifyClass _ _
    · exact steady_bind steady_heap fun _ => steady_fail _ _
  · exact steady_failNamed _ _ _

theorem field?_steady (object : Value) (name : String) : Steady slots (field? object name) := by
  unfold field?
  split
  · refine steady_bind steady_heap fun h => ?_
    dsimp only
    split
    · exact steady_pure _
    · exact steady_bind steady_get fun _ => steady_pure _
  · exact steady_bind steady_get fun _ => steady_pure _
  · exact steady_pure _

theorem getMember_steady (disciplined : k.Disciplined) (nonempty : 0 < slots.size) (object : Value)
    (property : Name) : Steady slots (getMember k object property) := by
  unfold getMember
  dsimp only
  split
  · exact steady_fail _ _
  · refine steady_bind (field?_steady _ _) fun found => ?_
    split
    · exact steady_pure _
    · refine steady_bind (hasMethod_steady disciplined nonempty _ _) fun has => ?_
      split
      · exact steady_modifyGet fun _ => ⟨rfl, rfl, rfl⟩
      · exact steady_failNamed _ _ _

theorem calledField?_steady (object : Value) (name : String) : Steady slots (calledField? object name) := by
  unfold calledField?
  split
  · exact steady_bind steady_heap fun _ => steady_pure _
  · exact steady_bind steady_get fun _ => steady_pure _
  · exact steady_pure _

theorem evalCall_steady (disciplined : k.Disciplined) (callee : Expr) (args : List Expr) (span : Span)
    {scope : ScopeId} (live : scope < slots.size) : Steady slots (evalCall k callee args span scope) := by
  have nonempty : 0 < slots.size := Nat.zero_lt_of_lt live
  unfold evalCall
  split
  · refine steady_bind (evalAll_steady disciplined live _) fun vs => ?_
    exact callParentConstructor_steady disciplined nonempty _ _
  · refine steady_bind (evalAll_steady disciplined live _) fun vs => ?_
    exact callParentMethod_steady disciplined nonempty _ _ _
  · refine steady_bind (disciplined.eval _ _ _ live) fun o => ?_
    refine steady_bind (evalAll_steady disciplined live _) fun vs => ?_
    refine steady_bind (calledField?_steady _ _) fun found => ?_
    split
    · exact callValue_steady disciplined nonempty _ _ _
    · exact callMethod_steady disciplined nonempty _ _ _ _
  · refine steady_bind (disciplined.eval _ _ _ live) fun f => ?_
    refine steady_bind (evalAll_steady disciplined live _) fun vs => ?_
    exact callValue_steady disciplined nonempty _ _ _

theorem evalAssign_steady (disciplined : k.Disciplined) (target value : Expr) (span : Span) {scope : ScopeId}
    (live : scope < slots.size) : Steady slots (evalAssign k target value span scope) := by
  unfold evalAssign
  split
  · refine steady_bind (disciplined.eval _ _ _ live) fun v => steady_bind (steady_assign live _ _) fun done => ?_
    split
    · exact steady_pure _
    · exact steady_fail _ _
  · refine steady_bind (evalReceiver_steady disciplined _ live) fun o => ?_
    refine steady_bind (disciplined.eval _ _ _ live) fun v => ?_
    exact steady_bind (setMember_steady _ _ _) fun _ => steady_pure _
  · refine steady_bind (disciplined.eval _ _ _ live) fun o => steady_bind (disciplined.eval _ _ _ live) fun i => ?_
    refine steady_bind (disciplined.eval _ _ _ live) fun v => ?_
    exact steady_bind (callMethod_steady disciplined (Nat.zero_lt_of_lt live) _ _ _ _) fun _ => steady_pure _
  · exact steady_fail _ _

theorem evalArray_steady (disciplined : k.Disciplined) (elements : List Expr) (span : Span) {scope : ScopeId}
    (live : scope < slots.size) : Steady slots (evalArray k elements span scope) := by
  refine steady_bind (evalAll_steady disciplined live _) fun items => ?_
  refine steady_bind (disciplined.classOf _ _ _ (Nat.zero_lt_of_lt live)) fun cls => ?_
  refine steady_bind (steady_newArray _) fun h => ?_
  exact steady_bind (steady_newObject _ _) fun _ => steady_pure _

theorem eval_steady (disciplined : k.Disciplined) (e : Expr) {scope : ScopeId} (live : scope < slots.size) :
    Steady slots (eval k e scope) := by
  have nonempty : 0 < slots.size := Nat.zero_lt_of_lt live
  cases e with
  | name id => exact evalName_steady disciplined id live
  | number m digits => exact steady_pure _
  | string q => exact steady_pure _
  | boolean m b => exact steady_pure _
  | null m => exact steady_pure _
  | self m =>
    refine steady_bind steady_current fun frame => ?_
    split
    · exact steady_pure _
    · exact steady_fail _ _
  | parent m => exact steady_fail _ _
  | unary m op operand => exact steady_bind (disciplined.eval _ _ _ live) fun v => applyUnary_steady _ _ _
  | binary m op left right =>
    unfold eval
    dsimp only
    split
    · exact evalLogic_steady disciplined _ _ _ _ live
    · exact evalLogic_steady disciplined _ _ _ _ live
    · refine steady_bind (disciplined.eval _ _ _ live) fun l => ?_
      exact steady_bind (disciplined.eval _ _ _ live) fun r => applyBinary_steady _ _ _ _
  | assign m target value => exact evalAssign_steady disciplined _ _ _ live
  | member m object property =>
    exact steady_bind (evalReceiver_steady disciplined _ live) fun o => getMember_steady disciplined nonempty _ _
  | index m object position =>
    refine steady_bind (disciplined.eval _ _ _ live) fun o => steady_bind (disciplined.eval _ _ _ live) fun i => ?_
    exact callMethod_steady disciplined nonempty _ _ _ _
  | call m callee args => exact evalCall_steady disciplined _ _ _ live
  | create m type args =>
    refine steady_bind (disciplined.classOf _ _ _ nonempty) fun cls => ?_
    refine steady_bind (evalAll_steady disciplined live _) fun vs => ?_
    exact steady_bind (instantiate_steady disciplined nonempty _ _ _) fun _ => steady_pure _
  | array m elements => exact evalArray_steady disciplined _ _ live
  | lambda m params result body =>
    refine steady_bind (steady_frameOf live) fun frame => steady_bind steady_current fun context => ?_
    exact steady_modifyGet fun _ => ⟨rfl, rfl, rfl⟩
  | markup element => exact evalElement_steady disciplined element live

/-! ## Statements -/

theorem callProtocol_steady (disciplined : k.Disciplined) (nonempty : 0 < slots.size) (v : Value) (name : String)
    (span : Span) : Steady slots (callProtocol k v name span) := by
  refine steady_bind (hasMethod_steady disciplined nonempty _ _) fun has => ?_
  split
  · exact callMethod_steady disciplined nonempty _ _ _ _
  · exact steady_failNamed _ _ _

theorem execArms_steady (disciplined : k.Disciplined) (subject : Value) {scope : ScopeId}
    (live : scope < slots.size) (arms : List Arm) : Steady slots (execArms k subject scope arms) := by
  induction arms with
  | nil => exact steady_pure _
  | cons a arms ih =>
    refine steady_bind (disciplined.eval _ _ _ live) fun v => steady_bind steady_heap fun h => ?_
    split
    · exact steady_bind (execBlock_steady disciplined _ live) fun _ => steady_pure _
    · exact ih

theorem iterate_steady (disciplined : k.Disciplined) (it : Iteration) (live : it.scope < slots.size) :
    Steady slots (iterate k it) := by
  have nonempty : 0 < slots.size := Nat.zero_lt_of_lt live
  refine steady_bind (callProtocol_steady disciplined nonempty _ _ _) fun more => ?_
  split
  · exact steady_pure _
  · refine steady_bind (callProtocol_steady disciplined nonempty _ _ _) fun item => ?_
    -- the variable of the iteration has a scope of its own around that of the body
    refine steady_bind (steady_releasing nonempty (opens_openScope live fun id => ?_)) fun outcome => ?_
    · have inner : slots.size < (slots.push id).size := by simp
      exact steady_bind (steady_define inner _ _) fun _ => execBlock_steady disciplined _ inner
    · split
      · exact steady_pure _
      · refine steady_bind (callProtocol_steady disciplined nonempty _ _ _) fun _ => ?_
        exact steady_bind steady_noteTurn fun _ => disciplined.iterate _ it live
  · exact steady_failNamed _ _ _

theorem execEach_steady (disciplined : k.Disciplined) (item : Name) (iterable : Expr) (body : Block)
    {scope : ScopeId} (live : scope < slots.size) : Steady slots (execEach k item iterable body scope) := by
  have nonempty : 0 < slots.size := Nat.zero_lt_of_lt live
  refine steady_bind (disciplined.eval _ _ _ live) fun v => ?_
  dsimp only
  split
  · exact steady_fail_bind _ _ _
  · refine steady_bind (callProtocol_steady disciplined nonempty _ _ _) fun it => ?_
    split
    · exact steady_fail_bind _ _ _
    · refine steady_bind (callProtocol_steady disciplined nonempty _ _ _) fun _ => ?_
      exact disciplined.iterate _ _ live

theorem evalCondition_steady (disciplined : k.Disciplined) (e : Expr) {scope : ScopeId}
    (live : scope < slots.size) : Steady slots (evalCondition k e scope) := by
  refine steady_bind (disciplined.eval _ _ _ live) fun v => ?_
  split
  · exact steady_pure _
  · exact steady_failNamed _ _ _

theorem exec_steady (disciplined : k.Disciplined) (s : Stmt) {scope : ScopeId} (live : scope < slots.size) :
    Steady slots (exec k s scope) := by
  refine steady_bind (steady_checkCancelled _) fun _ => ?_
  cases s with
  | does m e => exact steady_bind (disciplined.eval _ _ _ live) fun _ => steady_pure _
  | binds m name type value =>
    have defined (v : Value) : Steady slots (do
        define scope name.text v
        return Outcome.normal) := steady_bind (steady_define live _ _) fun _ => steady_pure _
    cases value with
    | some e =>
      exact steady_bind (disciplined.eval _ _ _ live) fun v => steady_bind (steady_pure _) defined
    | none => exact steady_bind (steady_pure _) defined
  | block b => exact execBlock_steady disciplined b live
  | branch m condition yes no =>
    refine steady_bind (evalCondition_steady disciplined condition live) fun b => ?_
    split
    · exact execBlock_steady disciplined yes live
    · cases no with
      | some s => exact disciplined.exec _ s _ live
      | none => exact steady_pure _
  | select m subject arms fallback =>
    refine steady_bind (disciplined.eval _ _ _ live) fun v => ?_
    refine steady_bind (execArms_steady disciplined v live arms) fun outcome => ?_
    cases outcome with
    | some outcome => exact steady_pure _
    | none =>
      cases fallback with
      | some b => exact execBlock_steady disciplined b live
      | none => exact steady_pure _
  | each m item iterable body => exact execEach_steady disciplined _ _ _ live
  | returns m value =>
    cases value with
    | some e => exact steady_bind (disciplined.eval _ _ _ live) fun _ => steady_pure _
    | none => exact steady_pure _
  | declares d => exact steady_pure _
  | uses m names path => exact steady_pure _

/-! ## All nested steps -/

/-- The evaluator leaves the stack as it was, whatever number of nested steps it may take. -/
theorem evaluator_disciplined (fuel : Nat) : (evaluator fuel).Disciplined := by
  induction fuel with
  | zero =>
    constructor
    · intro slots e scope _
      exact steady_endless
    · intro slots s scope _
      exact steady_endless
    · intro slots f args span _
      exact steady_endless
    · intro slots name span _
      exact steady_endless
    · intro slots it _
      exact steady_endless
  | succ fuel ih =>
    constructor
    · intro slots e scope live
      exact eval_steady ih e live
    · intro slots s scope live
      exact exec_steady ih s live
    · intro slots f args span nonempty
      exact callValue_steady ih nonempty f args span
    · intro slots name span nonempty
      exact classOf_steady ih nonempty name span
    · intro slots it live
      exact iterate_steady ih it live

/-- However an expression or a statement ends in a live scope, the same slots are live and hold the
same frames, the same calls are running, failures are attributed to the same file, and no slot was
used on the way that was not live. -/
theorem evaluation_leaves_stack (fuel : Nat) (w : World) (s : State) (scope : ScopeId)
    (live : scope < s.env.height) :
    (∀ e, Undisturbed s (evalWithin fuel e scope w s)) ∧ (∀ st, Undisturbed s (execWithin fuel st scope w s)) := by
  constructor
  · intro e
    exact (evaluator_disciplined fuel).eval s.env.slots e scope live w s rfl
  · intro st
    exact (evaluator_disciplined fuel).exec s.env.slots st scope live w s rfl

/-- A block in the global scope that returns from inside another block. -/
def returningBlock : Stmt :=
  .block ⟨default, [.block ⟨default, [.returns default (some (.null default))]⟩, .returns default none]⟩

theorem returningBlock_leaves_stack :
    Undisturbed (Interpreter.new 0 none).state
      (execWithin 9 returningBlock Environment.global (.ofProgram default 0) (Interpreter.new 0 none).state) :=
  (evaluation_leaves_stack 9 _ _ Environment.global (by decide)).2 returningBlock

end ClassScript.Evaluation
