import ClassScript.Proofs.MemberResolution

/-!
Calls of members of the superclass. Typing looks for the member as for any other, fields before methods; a run looks
for a method only, starting at the superclass of the class whose code is running. If typing has found a method that
has a body, or that the host implements, the run finds the same one (`parent_calls_find_methods`). A function in a
field is not looked for (`function_in_field_is_not_called`).
-/

namespace ClassScript

open Evaluation Sample

namespace Typing

variable {ctx : Context} {scope : Scope}

/-- The superclass is a receiver in the members of instances of a class that has one. -/
theorem gives_parentReceiver {span : Span} {recv : Receiver} (gives : Gives (parentReceiver scope span) ctx recv) :
    ∃ parent args, parentOf? ctx.registry scope = some (parent, args) ∧ scope.isStatic = false ∧
      recv = ⟨parent, args, false⟩ := by
  obtain ⟨_, isRead, gives⟩ := gives_bind gives
  rw [gives_read isRead] at gives
  cases found : parentOf? ctx.registry scope with
  | none =>
    rw [found] at gives
    exact absurd gives not_gives_reject
  | some superclass =>
    rw [found] at gives
    obtain ⟨_, inInstance, gives⟩ := gives_bind gives
    obtain ⟨_, -, gives⟩ := gives_bind gives
    exact ⟨_, _, rfl, by simpa using gives_require inInstance, gives_pure gives⟩

/-- A method is called with as many arguments as it takes. -/
theorem gives_methodSignature {name : String} {m : MethodSymbol} {subst : Subst} {count : Nat} {span : Span}
    {signature : Signature} (gives : Gives (methodSignature name m subst count span) ctx signature) :
    m.required ≤ count ∧ count ≤ m.params.length := by
  obtain ⟨_, counted, -⟩ := gives_bind gives
  simpa using gives_require counted

/-- The superclass of a class of an accepted program is a class of it. -/
theorem parentOf?_declared {p : LinkedProgram} {r : Registry} (describes : r.Describes p) {d superclass : DeclSymbol}
    (declared : d ∈ r) (inside : scope.owner = some d.nominal) {typeArgs : List Ty}
    (above : parentOf? r scope = some (superclass, typeArgs)) :
    superclass ∈ r ∧ superclass.nominal.isInterface = false ∧
      ∃ n, d.parent = some (n, typeArgs) ∧ r.find? n.name = some superclass := by
  have isD : r.find? d.nominal.name = some d := Registry.find?_of_mem describes.registered.distinct declared
  simp only [parentOf?, inside, Option.bind_eq_bind, Option.bind_some, isD, Option.bind_eq_some_iff] at above
  obtain ⟨⟨n, args⟩, hasParent, q, isQ, last⟩ := above
  cases last
  obtain ⟨_, declared', isNominal, again⟩ := describes.find?_parent declared hasParent
  obtain rfl := Option.some.inj (isQ.symm.trans again)
  have heading := (describes.headed d declared).parent
  rw [hasParent, Option.map_some, eq_comm] at heading
  obtain ⟨name, -, isN⟩ := Option.map_eq_some_iff.1 heading
  exact ⟨declared', isNominal ▸ (congrArg Nominal.isInterface isN).symm, n, hasParent, isQ⟩

/-- The call of a member of the superclass has a type if the member may be used, and takes the arguments if it is a
method. -/
theorem gives_parentCall {mark callee parent : Mark} {property : Name} {args : List Expr} {expected : Option Ty} {t : Ty}
    (gives : Gives (infer scope expected (.call mark (.member callee (.parent parent) property) args)) ctx t) :
    ∃ superclass typeArgs symbol subst, parentOf? ctx.registry scope = some (superclass, typeArgs) ∧
      member? ctx.registry ⟨superclass, typeArgs, false⟩ property.text = some (symbol, subst) ∧ symbol.isStatic = false ∧
      ∀ m, symbol = .method m → m.required ≤ args.length ∧ args.length ≤ m.params.length := by
  rw [infer] at gives
  obtain ⟨recv, received, gives⟩ := gives_bind (gives_noting gives)
  obtain ⟨recv, given, rfl⟩ := gives_map received
  obtain ⟨superclass, typeArgs, above, -, rfl⟩ := gives_parentReceiver given
  obtain ⟨signature, signed, -⟩ := gives_bind gives
  obtain ⟨member, used, signed⟩ := gives_bind signed
  obtain ⟨_, -, signed⟩ := gives_bind signed
  obtain ⟨⟨subst, found⟩, isInstance⟩ := gives_useMember used
  refine ⟨superclass, typeArgs, member.symbol, subst, above, found, isInstance, fun m isMethod => ?_⟩
  rw [isMethod] at signed
  exact gives_methodSignature signed

end Typing

/-! ## What a run calls -/

/-- The host thing behind a value, if it is an object that has one. -/
def Heap.hostOf? (h : Heap) : Value → Option Host
  | .object id => (h.object id).host
  | _ => none

/-- The method of the host that is behind a value. -/
def Evaluation.State.hostMethod? (s : State) (self : Value) (name : String) : Option HostMethod :=
  (s.heap.hostOf? self).bind fun x => Standard.method? x name

namespace Evaluation

variable {p : LinkedProgram} {r : Registry} {clock : Float} {s : State} {w : World} {k : Evaluator} {parent : Nat}
  {self : Value} {property : Name} {args : List Value} {span : Span} {f : FoundMethod}

/-- A method with a body that is found on the superclass is called on the instance. -/
theorem callParentMethod_body (context : s.parentContext? = some (parent, self))
    (found : s.method? parent property.text = some f) (isInstance : f.isStatic = false) (body : f.hasBody = true) :
    callParentMethod k property args span w s = invoke k f (some parent) (some self) args span w s := by
  have read {α : Type} (g : State → Run α) : ((get : Run State) >>= g) w s = g s w s := rfl
  rw [callParentMethod, read, context]
  dsimp only
  rw [heap_bind_run, method?_bind_run, found, Option.filter_some]
  simp only [body, isInstance, Bool.not_false, Bool.and_true, if_true]

/-- A method without a body that is found on the superclass is left to the host. -/
theorem callParentMethod_host (context : s.parentContext? = some (parent, self))
    (found : s.method? parent property.text = some f) (bodiless : f.hasBody = false) {hm : HostMethod}
    (hosted : s.hostMethod? self property.text = some hm) :
    callParentMethod k property args span w s =
      callDeclared k hm (some f) ((s.heap.cls parent).name ++ "." ++ property.text) args span w s := by
  have read {α : Type} (g : State → Run α) : ((get : Run State) >>= g) w s = g s w s := rfl
  rw [callParentMethod, read, context]
  dsimp only
  rw [heap_bind_run, method?_bind_run, found, Option.filter_some]
  simp only [bodiless, Bool.false_and, Bool.false_eq_true, if_false]
  rw [heap_bind_run]
  cases self with
  | object id =>
    have hosted : ((s.heap.object id).host.bind fun x => Standard.method? x property.text) = some hm := hosted
    dsimp only
    rw [hosted]
  | _ => cases hosted

/-- A call of the host with default values for missing arguments has no misfits of its own. -/
theorem passes_callDeclared {self : Value} {name full : String} {hm : HostMethod}
    (hosted : s.hostMethod? self name = some hm) (takes : f.decl.Takes args.length) :
    Passes k w (callDeclared k hm (some f) full args span) := by
  obtain ⟨thing, -, method⟩ := Option.bind_eq_some_iff.1 hosted
  refine passes_bind (passes_withDefaults takes) fun _ => passes_callHost (fun passed => ?_) _
  exact passes_hostClosed.method (fun f item s d s' failed _ => .callValue failed) method

/-- The frame of running code names the superclass if the class whose code it is has one. -/
theorem parentContext?_of_head {owner : Nat} (running : s.calls.head? = some ⟨some owner, some self⟩)
    (isParent : (s.heap.cls owner).parent = some parent) : s.parentContext? = some (parent, self) := by
  simp [State.parentContext?, running, isParent]

/-- Among the methods of a class and its superclasses, the symbol of a method has the parameters that are written. -/
theorem params_of_classMethod? (describes : r.Describes p) {d : DeclSymbol} (declared : d ∈ r) {name : String}
    {m : MethodSymbol} (found : r.classMethod? d name = some m) : m.params.length = m.decl.params.length := by
  obtain ⟨e, above, own⟩ := List.exists_of_findSome?_eq_some found
  have member := describes.membered e ((Registry.line_ancestors describes declared).2.2 above)
  obtain ⟨own, -⟩ := Option.filter_eq_some_iff.1 own
  obtain ⟨written, -, symbolizes⟩ := mem_of_forall₂_right member.methods (List.mem_of_find?_eq_some own)
  rw [symbolizes.decl, ← symbolizes.params, List.length_map]

end Evaluation

open Typing in
/-- A call of a member of the superclass that has a type, in a class of an accepted program, when it is reached in an
orderly state while code of the class runs on an instance, and the class and its superclasses have their members: the
run looks for the member in the superclass that typing means, and if typing has found a method, it finds the same one.
A method that has a body is called; one without is called if the host implements it. Neither call fails for a missing
member or a wrong number of arguments unless code that it runs does. -/
theorem parent_calls_find_methods {p : LinkedProgram} {c : Checked} (accepted : p.check = .ok c) (named : p.Named)
    {clock : Float} {s : State} (orderly : Orderly (.ofProgram p clock) s) {d : DeclSymbol} (declared : d ∈ c.registry)
    {owner : Nat} (names : s.Names owner d.name) (built : s.Built owner) {self : Value}
    (running : s.calls.head? = some ⟨some owner, some self⟩) {ctx : Context} (same : ctx.registry = c.registry)
    {scope : Scope} (inside : scope.owner = some d.nominal) {mark callee super : Mark} {property : Name}
    {args : List Expr} {expected : Option Ty} {t : Ty}
    (typed : Gives (infer scope expected (.call mark (.member callee (.parent super) property) args)) ctx t) :
    ∃ superclass typeArgs symbol subst parent, parentOf? c.registry scope = some (superclass, typeArgs) ∧
      member? c.registry ⟨superclass, typeArgs, false⟩ property.text = some (symbol, subst) ∧
      s.parentContext? = some (parent, self) ∧ s.Names parent superclass.name ∧
      ∀ m, symbol = .method m → ∃ f, s.method? parent property.text = some f ∧ f.decl = m.decl ∧
        ∀ k values span, values.length = args.length →
          (f.hasBody = true → callParentMethod k property values span (.ofProgram p clock) s =
            invoke k f (some parent) (some self) values span (.ofProgram p clock) s) ∧
          (∀ hm, f.hasBody = false → s.hostMethod? self property.text = some hm →
            callParentMethod k property values span (.ofProgram p clock) s =
              callDeclared k hm (some f) (superclass.name ++ "." ++ property.text) values span (.ofProgram p clock) s) ∧
          (f.hasBody = true ∨ (s.hostMethod? self property.text).isSome = true → ∀ failure s',
            callParentMethod k property values span (.ofProgram p clock) s = (.error (.failed failure), s') →
              failure.Misfit → k.Fails (.ofProgram p clock) failure) := by
  have describes := describes_of_check accepted
  have nonempty := named_of_describes describes named
  obtain ⟨superclass, typeArgs, symbol, subst, above, found, isInstance, takes⟩ := gives_parentCall typed
  rw [same] at above found
  obtain ⟨declared', isClass, n, hasParent, isSuperclass⟩ := parentOf?_declared describes declared inside above
  obtain ⟨parent, isParent, names'⟩ :=
    superclass_of_built describes nonempty orderly declared names built hasParent isSuperclass
  have context := parentContext?_of_head running isParent
  refine ⟨superclass, typeArgs, symbol, subst, parent, above, found, context, names', ?_⟩
  rintro m rfl
  obtain ⟨least, most⟩ := takes m rfl
  rcases member?_class isClass found with ⟨_, isField, -⟩ | ⟨_, isMethod, -, found⟩
  · cases isField
  cases isMethod
  obtain ⟨f, finds, written, -⟩ :=
    method?_of_classMethod? describes nonempty orderly declared' names' (built.parent isParent) found
  have instance_ : f.isStatic = false := by
    rw [FoundMethod.isStatic, written]
    exact isInstance
  have accepts : f.decl.Takes args.length := by
    rw [written]
    exact ⟨least, params_of_classMethod? describes declared' found ▸ most⟩
  have isNamed : (s.heap.cls parent).name = superclass.name := by
    obtain ⟨def_, held, same⟩ := names'
    rw [Heap.cls, held]
    exact same
  refine ⟨f, finds, written, fun k values span counted => ⟨callParentMethod_body context finds instance_, ?_, ?_⟩⟩
  · intro hm bodiless hosted
    rw [callParentMethod_host context finds bodiless hosted, isNamed]
  · intro callable failure s' failed misfit
    rw [← counted] at accepts
    cases body : f.hasBody with
    | true =>
      rw [callParentMethod_body context finds instance_ body] at failed
      exact passes_invoke accepts _ _ s failure s' failed misfit
    | false =>
      obtain ⟨hm, hosted⟩ := Option.isSome_iff_exists.1 (callable.resolve_left (by simp [body]))
      rw [callParentMethod_host context finds body hosted] at failed
      exact passes_callDeclared hosted accepts s failure s' failed misfit

/-! ## A method, and a function in a field -/

/-- `super.f()` -/
def superCall (member : String) : Expr := .call default (.member default (.parent default) (named member)) []

/-- `class B` with a member, `class D extends B { public go() { super.f(); } }`, and statements. -/
def superCalling (base : Declaration) (further : List Stmt) : LinkedProgram :=
  .ofProgram ⟨"main.clasp",
    [.declares base, .declares (cls "D" (some "B") [] [method false "go" [] [.does default (superCall "f")]])] ++
      further,
    default⟩

/-- `class B { public f() { } }`, and `new D();` -/
def inheriting : LinkedProgram :=
  superCalling (cls "B" none [] [method false "f" [] []]) [.does default (.create default (.simple default "D" false) [])]

/-- `class B { public f = () -> true; }`, and `new D().go();` -/
def borrowing : LinkedProgram :=
  superCalling (cls "B" none [field "f" (.lambda default [] none (.value (.boolean default true)))] [])
    [.does default
      (.call default (.member default (.create default (.simple default "D" false) []) (named "go")) [])]

/-- The scope of code of the instances of a class. -/
def instanceScope (d : DeclSymbol) : Typing.Scope := ⟨[[]], some d.nominal, false, false⟩

/-- The member `f` of the superclass of a class, and the type of `super.f()` in the code of its instances. -/
def Checked.superCall? (c : Checked) (d : DeclSymbol) : Option (Typing.MemberSymbol × Ty) := do
  let (superclass, typeArgs) ← Typing.parentOf? c.registry (instanceScope d)
  let (symbol, _) ← Typing.member? c.registry ⟨superclass, typeArgs, false⟩ "f"
  let (t, _) ←
    ((Typing.infer (instanceScope d) none (superCall "f")) ⟨c.registry, "main.clasp", [], .void⟩ ⟨0, [], []⟩).toOption
  return (symbol, t)

theorem Checked.superCall?_spec {c : Checked} {d : DeclSymbol} {symbol : Typing.MemberSymbol} {t : Ty}
    (found : c.superCall? d = some (symbol, t)) :
    (∃ superclass typeArgs subst, Typing.parentOf? c.registry (instanceScope d) = some (superclass, typeArgs) ∧
      Typing.member? c.registry ⟨superclass, typeArgs, false⟩ "f" = some (symbol, subst)) ∧
      Typing.Gives (Typing.infer (instanceScope d) none (superCall "f")) ⟨c.registry, "main.clasp", [], .void⟩ t := by
  simp only [Checked.superCall?, Option.bind_eq_bind, Option.bind_eq_some_iff] at found
  obtain ⟨⟨superclass, typeArgs⟩, above, ⟨symbol', subst⟩, isMember, ⟨t', progress⟩, ran, last⟩ := found
  cases last
  exact ⟨⟨superclass, typeArgs, subst, above, isMember⟩, Typing.gives_of_run (by rw [ran]; rfl)⟩

/-- Whether a member is a method with a body. -/
def Typing.MemberSymbol.hasBody : Typing.MemberSymbol → Bool
  | .field _ => false
  | .method m => m.decl.body.isSome

/-- The code of instances of `D` may call `super.f()`, which is a member of that kind. -/
abbrev Checked.CallsSuper (c : Checked) (kind : Typing.MemberSymbol → Bool) : Prop :=
  ∃ d ∈ c.registry, d.name = "D" ∧ (c.superCall? d).any (fun found => kind found.1) = true

/-- The state after `inheriting`, if code of `D` were running on the object. -/
def inheritingState : State := { finalState inheriting with calls := [⟨some 0, some (.object 0)⟩] }

theorem inheriting_finds_method :
    ∃ parent f, inheritingState.method? parent "f" = some f ∧
      ∀ k span, callParentMethod k (named "f") [] span (.ofProgram inheriting 0) inheritingState =
        invoke k f (some parent) (some (.object 0)) [] span (.ofProgram inheriting 0) inheritingState := by
  obtain ⟨c, accepted, d, declared, isD, calls⟩ :=
    exists_accepted (p := inheriting) (P := fun c => c.CallsSuper (·.hasBody)) (by decide +kernel)
  obtain ⟨orderly, names, built⟩ := finalState_built 0 d.name accepted (by decide +kernel)
    (by decide +kernel) (by rw [isD]; decide +kernel)
  have orderly : Orderly (.ofProgram inheriting 0) inheritingState :=
    Unaffected.orderly (s := finalState inheriting) ⟨fun _ => rfl, rfl, rfl, rfl⟩ orderly
  obtain ⟨⟨symbol, t⟩, found, isMethod⟩ := (Option.any_eq_true _ _).1 calls
  obtain ⟨⟨superclass, typeArgs, subst, above, isMember⟩, typed⟩ := Checked.superCall?_spec found
  obtain ⟨superclass', typeArgs', symbol', subst', parent, above', isMember', -, -, reaches⟩ :=
    parent_calls_find_methods accepted (by decide +kernel) orderly declared names built rfl rfl rfl typed
  -- both have looked for the same member
  cases above.symm.trans above'
  cases isMember.symm.trans isMember'
  cases symbol with
  | field f => cases isMethod
  | method m =>
    obtain ⟨f, finds, written, calls⟩ := reaches m rfl
    refine ⟨parent, f, finds, fun k span => (calls k [] span rfl).1 ?_⟩
    rw [FoundMethod.hasBody, written]
    exact isMethod

/-- The function that typing finds in the field is called with `super.f()`, and the run finds no method of that name. -/
theorem function_in_field_is_not_called :
    (∃ c, borrowing.check = .ok c ∧ c.CallsSuper (·.isField)) ∧
      (failure? ((Interpreter.new 0 none).run borrowing)).map (·.code) = some "R002" ∧
      (failure? ((Interpreter.new 0 none).run borrowing)).map (·.message) = some "B has no method f" := by
  refine ⟨exists_accepted ?_, ?_, ?_⟩ <;> decide +kernel

end ClassScript
