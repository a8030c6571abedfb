import ClassScript.Proofs.Attribution
import ClassScript.Proofs.Lines

/-!
Which method a call reaches. A class that is built finds the method of a name that is nearest along its
superclasses, as typing does. If that method is not static and takes the number of arguments, a call of it
fails for a missing member or a wrong count only if a step of its own code does
(`dispatch_follows_the_line`). Overriding itself is not checked: a method can be overridden by one with more
parameters, which a call through the superclass then misses (`unfitting_overrides_are_accepted`).
-/

namespace ClassScript

/-- A method takes that many arguments. -/
def Method.Takes (m : Method) (count : Nat) : Prop :=
  Param.requiredCount m.params ≤ count ∧ count ≤ m.params.length

instance (m : Method) (count : Nat) : Decidable (m.Takes count) := inferInstanceAs (Decidable (_ ∧ _))

/-- A failure for a missing member or a wrong number of arguments. -/
def Diagnostic.Misfit (d : Diagnostic) : Prop := d.code = "R002" ∨ d.code = "R003"

instance (d : Diagnostic) : Decidable d.Misfit := inferInstanceAs (Decidable (_ ∨ _))

namespace Evaluation

/-! ## Failures of nested steps -/

/-- A nested step of an evaluator fails. -/
inductive Evaluator.Fails (k : Evaluator) (w : World) (d : Diagnostic) : Prop
  | eval {e : Expr} {scope : ScopeId} {s s' : State} : k.eval e scope w s = (.error (.failed d), s') → k.Fails w d
  | exec {st : Stmt} {scope : ScopeId} {s s' : State} : k.exec st scope w s = (.error (.failed d), s') → k.Fails w d
  | callValue {f : Value} {args : List Value} {span : Span} {s s' : State} :
    k.callValue f args span w s = (.error (.failed d), s') → k.Fails w d
  | classOf {name : String} {span : Span} {s s' : State} :
    k.classOf name span w s = (.error (.failed d), s') → k.Fails w d

variable {α β : Type} {k : Evaluator} {w : World} {s : State} {span : Span} {name : String} {args : List Value}

/-- A computation has no misfits of its own: it only passes on those of nested steps. -/
def Passes (k : Evaluator) (w : World) (x : Run α) : Prop :=
  ∀ s d s', x w s = (.error (.failed d), s') → d.Misfit → k.Fails w d

theorem passes_of_ok {x : Run α} (succeeds : ∀ s, ∃ a s', x w s = (.ok a, s')) : Passes k w x := by
  intro s d s' failed
  obtain ⟨a, t, ran⟩ := succeeds s
  rw [ran] at failed
  cases failed

theorem passes_pure (a : α) : Passes k w (pure a) := passes_of_ok fun s => ⟨a, s, rfl⟩

theorem passes_modifyGet (f : State → α × State) : Passes k w (modifyGet f : Run α) := passes_of_ok fun _ => ⟨_, _, rfl⟩

theorem passes_modify (f : State → State) : Passes k w (modify f : Run PUnit) := passes_modifyGet _

theorem passes_get : Passes k w (get : Run State) := passes_of_ok fun s => ⟨s, s, rfl⟩

theorem passes_heap : Passes k w heap := passes_of_ok fun s => ⟨s.heap, s, rfl⟩

theorem passes_bind {x : Run α} {f : α → Run β} (first : Passes k w x) (rest : ∀ a, Passes k w (f a)) :
    Passes k w (x >>= f) := by
  intro s d s' failed
  rw [bind_run] at failed
  rcases ran : x w s with ⟨stop | a, t⟩
  · rw [ran] at failed
    cases failed
    exact first s d s' ran
  · rw [ran] at failed
    exact rest a t d s' failed

theorem passes_fail {fault : RunFault} (other : fault.code ≠ "R002" ∧ fault.code ≠ "R003") :
    Passes k w (fail span fault : Run α) := by
  rintro s d s' failed misfit
  cases failed
  rcases misfit with missing | count
  · exact absurd missing other.1
  · exact absurd count other.2

theorem passes_restoring {x : Run α} (passes : Passes k w x) (restore : State → State) : Passes k w (restoring x restore) := by
  intro s d s' failed
  rcases ran : x w s with ⟨r, t⟩
  unfold restoring at failed
  rw [ran] at failed
  cases failed
  exact passes s d t ran

theorem passes_releasing {x : Run α} (passes : Passes k w x) : Passes k w (releasing x) :=
  passes_bind passes_get fun _ => passes_restoring passes _

theorem passes_inContext {x : Run α} (passes : Passes k w x) (context : CallFrame) (file : Option String) :
    Passes k w (inContext context file x) :=
  passes_bind passes_get fun _ => passes_bind (passes_of_ok fun _ => ⟨_, _, rfl⟩) fun _ => passes_restoring passes _

theorem passes_mapM {items : List β} {f : β → Run α} (each : ∀ b, Passes k w (f b)) : Passes k w (items.mapM f) := by
  induction items with
  | nil => rw [List.mapM_nil]; exact passes_pure _
  | cons b items ih =>
    rw [List.mapM_cons]
    exact passes_bind (each b) fun _ => passes_bind ih fun _ => passes_pure _

theorem passes_frameOf (scope : ScopeId) : Passes k w (frameOf scope) := by
  intro s d s' failed
  rw [frameOf_eq] at failed
  cases captured : s.env.capture? scope with
  | some frame => rw [captured] at failed; cases failed
  | none => rw [captured] at failed; cases failed

theorem passes_openScope (outer : ScopeId) : Passes k w (openScope outer) :=
  passes_bind (passes_frameOf outer) fun _ => passes_modifyGet _

theorem passes_define (scope : ScopeId) (name : String) (v : Value) : Passes k w (define scope name v) :=
  passes_bind (passes_frameOf scope) fun _ => passes_modify _

theorem passes_binding? (scope : ScopeId) (name : String) : Passes k w (binding? scope name) :=
  passes_bind (passes_frameOf scope) fun _ => passes_bind passes_get fun _ => passes_pure _

theorem passes_text (v : Value) : Passes k w (text v) := by
  refine passes_bind passes_heap fun h => ?_
  split
  · exact passes_pure _
  · intro s d s' failed
    cases failed

/-- The host has no misfits of its own. -/
theorem passes_hostClosed : HostClosed fun {_} x => Passes k w x where
  pure := passes_pure
  bind := passes_bind
  read := passes_of_ok fun s => ⟨w, s, rfl⟩
  heap := passes_heap
  text := passes_text
  print _ := passes_modify _
  modifyArrays _ := passes_modify _
  modifyCursor _ _ := passes_modify _
  newArray _ := passes_modifyGet _
  newCursor _ := passes_modifyGet _

/-! ## Calls with a fitting number of arguments -/

theorem passes_checkCount {m : FoundMethod} {count : Nat} (takes : m.decl.Takes count) (name : String) :
    Passes k w (checkCount name m.decl.params count span) := by
  unfold checkCount
  dsimp only
  rw [if_pos (by simpa [Method.Takes] using takes)]
  exact passes_pure ()

theorem passes_bindParams (scope : ScopeId) (params : List Param) (args : List Value) :
    Passes k w (bindParams k scope params args) := by
  induction params generalizing args with
  | nil => exact passes_pure ()
  | cons p params ih =>
    have rest (v : Value) : Passes k w (do
        define scope p.name.text (coerce p.type v)
        bindParams k scope params args.tail) := passes_bind (passes_define _ _ _) fun _ => ih _
    unfold bindParams
    split
    · exact passes_bind (passes_pure _) rest
    · exact passes_bind (fun s d s' failed _ => .eval failed) rest
    · exact passes_bind (passes_fail (by decide)) rest

theorem passes_execAll (scope : ScopeId) (statements : List Stmt) : Passes k w (execAll k scope statements) := by
  induction statements with
  | nil => exact passes_pure _
  | cons st statements ih =>
    refine passes_bind (fun s d s' failed _ => .exec failed) fun outcome => ?_
    cases outcome with
    | returned v => exact passes_pure _
    | normal => exact ih

theorem passes_invoke {m : FoundMethod} (takes : m.decl.Takes args.length) (from_ : Option Nat) (self : Option Value) :
    Passes k w (invoke k m from_ self args span) := by
  refine passes_bind (passes_checkCount takes _) fun _ => passes_bind ?_ fun _ => passes_bind passes_heap fun h => ?_
  · refine passes_bind passes_get fun s => ?_
    split
    · exact passes_fail (by simp [RunFault.code])
    · exact passes_pure ()
  · refine passes_inContext (passes_bind (passes_openScope _) fun scope => ?_) _ _
    refine passes_bind (passes_bindParams _ _ _) fun _ => ?_
    split
    · exact passes_pure _
    · refine passes_bind (passes_releasing (passes_bind (passes_openScope _) fun _ => passes_execAll _ _)) fun outcome => ?_
      cases outcome with
      | normal => exact passes_pure _
      | returned v => exact passes_pure _

theorem passes_withDefaults {m : FoundMethod} (takes : m.decl.Takes args.length) :
    Passes k w (withDefaults k m args span) := by
  refine passes_bind (passes_checkCount takes _) fun _ => ?_
  split
  · exact passes_pure _
  · refine passes_bind (passes_modify _) fun _ => passes_releasing (passes_bind (passes_openScope _) fun scope => ?_)
    refine passes_bind (passes_bindParams _ _ _) fun _ => ?_
    exact passes_mapM fun p => passes_bind (passes_binding? _ _) fun _ => passes_pure _

theorem passes_passAll (position : Nat) (params : List ParamKind) (args : List Value) :
    Passes k w (passAll name span position params args) := by
  induction params generalizing position args with
  | nil => exact passes_pure _
  | cons p params ih =>
    cases args with
    | nil => exact passes_pure _
    | cons v args =>
      refine passes_bind passes_heap fun h => ?_
      split
      · exact passes_fail (by simp [RunFault.code])
      · exact passes_bind (ih _ _) fun _ => passes_pure _

theorem passes_toValue (v : Value) : Passes k w (toValue k v span) := by
  unfold toValue
  split
  · refine passes_bind (fun s d s' failed _ => .classOf failed) fun _ => passes_bind (passes_modifyGet _) fun _ => ?_
    exact passes_pure _
  · exact passes_pure _

/-- What is left of a call of the host once the number of arguments has been compared. -/
private theorem passes_answer {m : HostMethod} (host : ∀ passed, Passes k w (m.call k span passed)) (args : List Value) :
    Passes k w (do
      let passed ← passAll name span 1 m.params args
      noteTurn
      match ← m.call k span passed with
      | .ok v => toValue k v span
      | .error (.badResult type) => fail span (.hostValue type)
      | .error fault => fail span (.hostFailed name fault.message)) := by
  refine passes_bind (passes_passAll _ _ _) fun _ => passes_bind (passes_modify _) fun _ => passes_bind (host _) fun r => ?_
  split
  · exact passes_toValue _
  · exact passes_fail (by simp [RunFault.code])
  · exact passes_fail (by simp [RunFault.code])

theorem passes_callHost {m : HostMethod} (host : ∀ passed, Passes k w (m.call k span passed)) (args : List Value) :
    Passes k w (callHost k m name args span) := by
  unfold callHost
  dsimp only
  split
  · exact passes_bind (passes_fail (by simp [RunFault.code])) fun _ => passes_answer host args
  · exact passes_answer host args

theorem heap_bind_run (f : Heap → Run α) : (heap >>= f) w s = f s.heap w s := rfl

theorem method?_bind_run (cls : Nat) (f : Option FoundMethod → Run α) :
    (method? cls name >>= f) w s = f (s.method? cls name) w s := rfl

/-- A call of an instance method that is found, with a number of arguments that it takes. -/
theorem callObject_passes {object : Nat} {m : FoundMethod}
    (found : s.method? (s.heap.object object).cls name = some m) (isInstance : m.isStatic = false)
    (takes : m.decl.Takes args.length) {d : Diagnostic} {s' : State}
    (failed : callObject k object name args span w s = (.error (.failed d), s')) (misfit : d.Misfit) : k.Fails w d := by
  rw [callObject, heap_bind_run, heap_bind_run, method?_bind_run, found] at failed
  simp only [Option.filter_some, isInstance, Bool.not_false, if_true] at failed
  cases hasBody : m.hasBody with
  | true =>
    rw [hasBody] at failed
    exact passes_invoke takes _ _ s d s' failed misfit
  | false =>
    rw [hasBody] at failed
    cases hosted : (s.heap.object object).host.bind fun h => Standard.method? h name with
    | some hm =>
      obtain ⟨thing, -, method⟩ := Option.bind_eq_some_iff.1 hosted
      rw [hosted] at failed
      refine passes_bind (passes_withDefaults takes) (fun _ => passes_callHost ?_ _) s d s' failed misfit
      exact fun passed => passes_hostClosed.method (fun f item s d s' failed _ => .callValue failed) method
    | none =>
      rw [hosted] at failed
      exact passes_fail (by simp [RunFault.code]) s d s' failed misfit

end Evaluation

open Evaluation Sample

/-- In an orderly state, as a run is in between any two steps (`orderly_load`, `evaluator_conducted`), a class
that is built finds the method that typing finds on its symbol, the nearest along its superclasses. It is the
one found on a superclass unless a class below that has one of that name. If it is, or if it is not static and
takes what the one found on the superclass takes, a call that was checked against the superclass has no misfit
of its own. -/
theorem dispatch_follows_the_line {p : LinkedProgram} {c : Checked} (accepted : p.check = .ok c) (named : p.Named)
    {clock : Float} {s : State} (orderly : Orderly (.ofProgram p clock) s) {sub sup : DeclSymbol}
    (declared : sub ∈ c.registry) (below : sup ∈ c.registry.ancestors sub) {id : Nat} (names : s.Names id sub.name)
    (built : s.Built id) {name : String} {m : MethodSymbol} (found : c.registry.classMethod? sup name = some m)
    (isInstance : m.isStatic = false) :
    ∃ nearest, c.registry.classMethod? sub name = some nearest ∧
      (∃ f, s.method? id name = some f ∧ f.decl = nearest.decl) ∧
      ((∀ e ∈ c.registry.ancestors sub, e ∉ c.registry.ancestors sup →
        ∀ own, e.method? name = some own → own.isConstructor = true) → nearest = m) ∧
      ((nearest = m ∨ nearest.isStatic = false ∧ ∀ count, m.decl.Takes count → nearest.decl.Takes count) →
        ∀ object, (s.heap.object object).cls = id → ∀ args, m.decl.Takes args.length → ∀ k span d s',
          callMethod k (.object object) name args span (.ofProgram p clock) s = (.error (.failed d), s') →
            d.Misfit → k.Fails (.ofProgram p clock) d) := by
  have describes := describes_of_check accepted
  obtain ⟨front, joined⟩ := Registry.ancestors_suffix describes declared below
  have searched : c.registry.classMethod? sub name =
      (front.findSome? fun e => (e.method? name).filter fun m => !m.isConstructor).or (some m) := by
    rw [← found, Registry.classMethod?, ← joined, List.findSome?_append]
    rfl
  obtain ⟨nearest, isNearest⟩ : ∃ nearest, c.registry.classMethod? sub name = some nearest := by
    rw [searched]
    cases front.findSome? fun e => (e.method? name).filter fun m => !m.isConstructor with
    | none => exact ⟨m, rfl⟩
    | some own => exact ⟨own, rfl⟩
  have own := ownMethod_decl describes (named_of_describes describes named) orderly declared names built name
  rw [isNearest, Option.map_some] at own
  obtain ⟨f, finds, same⟩ := Option.map_eq_some_iff.1 own
  have finds := method?_of_own finds
  refine ⟨nearest, isNearest, ⟨f, finds, same⟩, fun untouched => ?_, fun fitting => ?_⟩
  · have distinct : (c.registry.ancestors sub).Nodup :=
      List.Nodup.of_map _ (Registry.line_ancestors describes declared).2.1
    have none : (front.findSome? fun e => (e.method? name).filter fun m => !m.isConstructor) = none := by
      refine List.findSome?_eq_none_iff.2 fun e inFront => Option.filter_eq_none_iff.2 fun own held => ?_
      rw [← joined] at distinct untouched
      have apart := (List.nodup_append.1 distinct).2.2
      simpa using untouched e (List.mem_append_left _ inFront) (fun inRest => apart e inFront e inRest rfl) own held
    rw [none] at searched
    exact Option.some.inj (isNearest.symm.trans searched)
  · rintro object rfl args takes k span d s' failed misfit
    have suited : nearest.isStatic = false ∧ nearest.decl.Takes args.length := by
      rcases fitting with rfl | ⟨instance_, wider⟩
      · exact ⟨isInstance, takes⟩
      · exact ⟨instance_, wider _ takes⟩
    refine callObject_passes finds ?_ ?_ failed misfit
    · rw [FoundMethod.isStatic, same]
      exact suited.1
    · rw [same]
      exact suited.2

/-! ## Overriding methods that fit and that do not -/

/-- The declaration of a variable `c` of type `C` with a new `D` in it, and a call of `go` on it. -/
def callsThrough (args : List Expr) : List Stmt :=
  [.binds default (named "c") (some (.simple default "C" false)) (some (.create default (.simple default "D" false) [])),
    .does default (call "c" "go" args)]

/-- A class `C` and a class `D` that extends it, and a call of `go` on a new `D` through a variable of type `C`. -/
def overriding (sup sub : Method) (args : List Expr) : LinkedProgram :=
  .ofProgram ⟨"main.clasp",
    [.declares (cls "C" none [] [sup]), .declares (cls "D" (some "C") [] [sub])] ++ callsThrough args, default⟩

/-- `class C { public go(a) { } }`, `class D extends C { public go(a, b = null) { } }`, `c.go(null);` -/
def fitting : LinkedProgram :=
  let wider : Method := method false "go" [] []
  let optional : Param := { param "b" with fallback := some (.null default) }
  overriding (method false "go" ["a"] []) { wider with params := [param "a", optional] } [.null default]

/-- `class C { public go(a) { } }`, `class D extends C { public go(a, b) { } }`, `c.go(null);` -/
def widening : LinkedProgram :=
  overriding (method false "go" ["a"] []) (method false "go" ["a", "b"] []) [.null default]

/-- `class C { public go() { } }`, `class D extends C { public static go() { } }`, `c.go();` -/
def shadowing : LinkedProgram := overriding (method false "go" [] []) (method true "go" [] []) []

/-- `class Maker { public static make() { let c: C = new D(); c.go(); } }`,
`class C { public static x = Maker.make(); public go() { } }`, `class D extends C { }`, `new D();` -/
def hurrying : LinkedProgram :=
  .ofProgram ⟨"main.clasp",
    [.declares (cls "Maker" none [] [method true "make" [] (callsThrough [])]),
      .declares (cls "C" none [static "x" (call "Maker" "make" [])] [method false "go" [] []]),
      .declares (cls "D" (some "C") [] []), .does default (.create default (.simple default "D" false) [])],
    default⟩

/-- The class `D` inherits from `C`, where typing finds an instance method `go` that takes that many arguments. -/
abbrev Checked.Calls (c : Checked) (count : Nat) : Prop :=
  ∃ sub ∈ c.registry, sub.name = "D" ∧ ∃ sup ∈ c.registry.ancestors sub, sup.name = "C" ∧
    ∃ m ∈ c.registry.classMethod? sup "go", m.isStatic = false ∧ m.decl.Takes count

/-- Overriding methods that do not fit are accepted, and so are calls on a class of which the members are not
there yet. Calls that were checked against the superclass then fail. -/
theorem unfitting_overrides_are_accepted :
    (∃ c, widening.check = .ok c ∧ c.Calls 1) ∧
      (failure? ((Interpreter.new 0 none).run widening)).map (·.code) = some "R003" ∧
      (∃ c, shadowing.check = .ok c ∧ c.Calls 0) ∧
      (failure? ((Interpreter.new 0 none).run shadowing)).map (·.code) = some "R002" ∧
      (∃ c, hurrying.check = .ok c ∧ c.Calls 0) ∧
      (failure? ((Interpreter.new 0 none).run hurrying)).map (·.code) = some "R002" := by
  refine ⟨exists_accepted ?_, ?_, exists_accepted ?_, ?_, exists_accepted ?_, ?_⟩ <;> decide +kernel

/-- A run that ends leaves an orderly state, in which a class is built if all classes have their members. -/
theorem finalState_built {p : LinkedProgram} {c : Checked} (id : Nat) (name : String) (accepted : p.check = .ok c)
    (ended : ((Interpreter.new 0 none).run p).1.toOption.isSome = true)
    (members : (finalState p).heap.classes.all (·.hasMembers) = true)
    (named : ((finalState p).heap.classes[id]?).any (fun c => c.name == name) = true) :
    Orderly (.ofProgram p 0) (finalState p) ∧ (finalState p).Names id name ∧ (finalState p).Built id := by
  obtain ⟨v, ended⟩ := eq_of_result? ended
  have orderly : Orderly (.ofProgram p 0) (finalState p) := (ran_of_run (describes_of_check accepted) ended).orderly
  have names : (finalState p).Names id name := by
    obtain ⟨c, held, same⟩ := Option.any_eq_true _ _ |>.1 named
    exact ⟨c, held, by simpa using same⟩
  refine ⟨orderly, names, built_of_all orderly (fun id c held => ?_) names⟩
  exact Array.all_eq_true_iff_forall_mem.1 members c (Array.mem_of_getElem? held)

/-- The methods `go` that typing finds on `C` and on `D` in `fitting` are not static, and take one argument
and one or two arguments. -/
abbrev Checked.CallsFitting (c : Checked) : Prop :=
  ∃ sub ∈ c.registry, sub.name = "D" ∧ ∃ sup ∈ c.registry.ancestors sub,
    ∃ m ∈ c.registry.classMethod? sup "go", m.isStatic = false ∧ Param.requiredCount m.decl.params = 1 ∧
      m.decl.params.length = 1 ∧ ∀ n ∈ c.registry.classMethod? sub "go", n.isStatic = false ∧
        Param.requiredCount n.decl.params = 1 ∧ n.decl.params.length = 2

theorem fitting_dispatches :
    (∃ f, (finalState fitting).method? 0 "go" = some f) ∧
      ∀ k span d s', callMethod k (.object 0) "go" [.null] span (.ofProgram fitting 0) (finalState fitting) =
        (.error (.failed d), s') → d.Misfit → k.Fails (.ofProgram fitting 0) d := by
  obtain ⟨c, accepted, sub, declared, isD, sup, below, m, found, isInstance, least, most, wider⟩ :=
    exists_accepted (p := fitting) (P := Checked.CallsFitting) (by decide +kernel)
  obtain ⟨orderly, names, built⟩ := finalState_built 0 sub.name accepted (by decide +kernel)
    (by decide +kernel) (by rw [isD]; decide +kernel)
  have here : ((finalState fitting).heap.object 0).cls = 0 := by decide +kernel
  generalize finalState fitting = s at orderly names built here ⊢
  obtain ⟨nearest, isNearest, ⟨f, finds, -⟩, -, safe⟩ := dispatch_follows_the_line accepted (by decide +kernel) orderly
    declared below names built found isInstance
  obtain ⟨instance_, least', most'⟩ := wider nearest isNearest
  refine ⟨⟨f, finds⟩, safe (.inr ⟨instance_, fun count takes => ?_⟩) 0 here [.null] ?_⟩
  · unfold Method.Takes at takes ⊢
    omega
  · simp [Method.Takes, least, most]

end ClassScript
