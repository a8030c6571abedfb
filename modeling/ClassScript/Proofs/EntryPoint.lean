import ClassScript.Proofs.Attribution
import ClassScript.Proofs.Lines

/-!
The entry point of a program. A class that is built has every method that its declaration provides, from its
superclasses or with a body from an interface (`method?_of_provides`), as a search of interfaces that finds
nothing has looked at all of them (`searchDefault_none`). So once the entry class has been built, the entry
method is called (`entry_point_is_called`). A failure while it is being built, however, is taken for a class
without that method (`exploding_entry_is_skipped`).
-/

namespace ClassScript

open Evaluation

/-! ## Searching interfaces -/

namespace Evaluation

variable {s : State} {method name : String} {seen a b : List String}

/-- An interface has no default method of that name, and those it extends have been visited. -/
def Barren (s : State) (method : String) (seen : List String) (name : String) : Prop :=
  ∀ i, s.interface? name = some i →
    (i.decl.methods.find? fun m => m.name.text == method && m.body.isSome) = none ∧ ∀ q ∈ i.parents, q ∈ seen

/-- A search went from some visited names to others, and found nothing at those that are new. -/
structure Searched (s : State) (method : String) (seen seen' : List String) : Prop where
  grows : seen ⊆ seen'
  barren : ∀ n ∈ seen', n ∉ seen → Barren s method seen' n

theorem Searched.refl (s : State) (method : String) (seen : List String) : Searched s method seen seen :=
  ⟨List.Subset.refl seen, fun _ member unseen => absurd member unseen⟩

theorem Barren.mono (barren : Barren s method a name) (grows : a ⊆ b) : Barren s method b name :=
  fun i known => ⟨(barren i known).1, fun q member => grows ((barren i known).2 q member)⟩

theorem Searched.trans (first : Searched s method seen a) (second : Searched s method a b) :
    Searched s method seen b := by
  refine ⟨List.Subset.trans first.grows second.grows, fun n member unseen => ?_⟩
  by_cases early : n ∈ a
  · exact (first.barren n early unseen).mono second.grows
  · exact second.barren n member early

/-- How many interfaces have not been visited. -/
def unseenCount (s : State) (seen : List String) : Nat :=
  (s.interfaces.filter fun i => !seen.contains i.name).length

theorem unseenCount_le (grows : a ⊆ b) : unseenCount s b ≤ unseenCount s a := by
  refine (List.monotone_filter_right s.interfaces fun i fresh => ?_).length_le
  simp only [List.contains_eq_mem, Bool.not_eq_true', decide_eq_false_iff_not] at fresh ⊢
  exact fun member => fresh (grows member)

/-- Visiting an interface that is known leaves fewer to visit. -/
theorem unseenCount_cons {i : InterfaceDef} (known : s.interface? name = some i) (unseen : name ∉ seen) :
    unseenCount s (name :: seen) < unseenCount s seen := by
  have named : i.name = name := by simpa using List.find?_some known
  have split : (s.interfaces.filter fun i => !(name :: seen).contains i.name) =
      (s.interfaces.filter fun i => !seen.contains i.name).filter fun i => i.name != name := by
    rw [List.filter_filter]
    refine List.filter_congr fun i _ => ?_
    by_cases same : i.name = name <;> simp [same]
  unfold unseenCount
  rw [split]
  refine List.length_filter_lt_length_iff_exists.2 ⟨i, ?_, by simp [named]⟩
  exact List.mem_filter.2 ⟨List.mem_of_find?_eq_some known, by simpa [named] using unseen⟩

/-- A method that has been found ends the search. -/
theorem searchStep_found (fuel : Nat) (parents seen : List String) (m : Method) :
    parents.foldl (searchStep s method fuel) (seen, some m) = (seen, some m) := by
  induction parents with
  | nil => rfl
  | cons q parents ih => exact ih

/-- A search is exhaustive if, where it finds nothing, it has visited the interface and found nothing at any
that it came to. -/
def Exhaustive (s : State) (method : String) (fuel : Nat) : Prop :=
  ∀ seen name, unseenCount s seen < fuel → (s.searchDefault method fuel seen name).2 = none →
    Searched s method seen (s.searchDefault method fuel seen name).1 ∧
      name ∈ (s.searchDefault method fuel seen name).1

/-- Parents are searched one after the other, each from what the ones before have visited. -/
theorem searchParents_none {fuel : Nat} (exhaustive : Exhaustive s method fuel) (parents : List String)
    (enough : unseenCount s seen < fuel)
    (missing : (parents.foldl (searchStep s method fuel) (seen, none)).2 = none) :
    Searched s method seen (parents.foldl (searchStep s method fuel) (seen, none)).1 ∧
      ∀ q ∈ parents, q ∈ (parents.foldl (searchStep s method fuel) (seen, none)).1 := by
  induction parents generalizing seen with
  | nil => exact ⟨Searched.refl s method seen, by simp⟩
  | cons q parents ih =>
    have step : (q :: parents).foldl (searchStep s method fuel) (seen, none) =
        parents.foldl (searchStep s method fuel) (s.searchDefault method fuel seen q) := rfl
    rw [step] at missing ⊢
    rcases found : s.searchDefault method fuel seen q with ⟨seen', _ | m⟩
    · have first := exhaustive seen q enough (by rw [found])
      rw [found] at first missing
      have rest := ih (Nat.lt_of_le_of_lt (unseenCount_le first.1.grows) enough) missing
      refine ⟨first.1.trans rest.1, fun n member => ?_⟩
      rcases List.mem_cons.1 member with rfl | member
      · exact rest.1.grows first.2
      · exact rest.2 n member
    · rw [found, searchStep_found] at missing
      cases missing

theorem searchDefault_exhaustive (s : State) (method : String) (fuel : Nat) : Exhaustive s method fuel := by
  induction fuel with
  | zero => exact fun _ _ enough => absurd enough (Nat.not_lt_zero _)
  | succ fuel ih =>
    intro seen name enough missing
    by_cases visited : name ∈ seen
    · have skipped : s.searchDefault method (fuel + 1) seen name = (seen, none) := by
        simp [State.searchDefault, visited]
      rw [skipped]
      exact ⟨Searched.refl s method seen, visited⟩
    · cases known : s.interface? name with
      | none =>
        have stopped : s.searchDefault method (fuel + 1) seen name = (name :: seen, none) := by
          simp [State.searchDefault, visited, known]
        rw [stopped]
        refine ⟨⟨List.subset_cons_self _ _, fun n member unseen i held => ?_⟩, List.mem_cons_self⟩
        rcases List.mem_cons.1 member with rfl | member
        · rw [known] at held
          cases held
        · exact absurd member unseen
      | some i =>
        cases own : i.decl.methods.find? fun m => m.name.text == method && m.body.isSome with
        | some m => simp [State.searchDefault, visited, known, own] at missing
        | none =>
          rw [searchDefault_parents fuel visited known own] at missing ⊢
          have bound : unseenCount s (name :: seen) < fuel := by
            have fewer := unseenCount_cons known visited
            omega
          obtain ⟨searched, all⟩ := searchParents_none ih i.parents bound missing
          refine ⟨⟨fun n member => searched.grows (List.mem_cons_of_mem _ member), fun n member unseen => ?_⟩,
            searched.grows List.mem_cons_self⟩
          by_cases here : n = name
          · subst here
            intro j held
            obtain rfl := Option.some.inj (known.symm.trans held)
            exact ⟨own, all⟩
          · exact searched.barren n member (by simp [here, unseen])

/-- A default method of an interface, or of one that it extends in any number of steps, is found. -/
theorem defaultMethod?_isSome {interface holder : String} {i : InterfaceDef} {m : Method}
    (reached : Relation.ReflTransGen (ParentOf s) interface holder) (known : s.interface? holder = some i)
    (member : m ∈ i.decl.methods) (named : m.name.text = name) (body : m.body.isSome) :
    (s.defaultMethod? interface name).isSome := by
  by_contra missing
  have none : (s.searchDefault name (s.interfaces.length + 1) [] interface).2 = none :=
    Option.not_isSome_iff_eq_none.1 missing
  have enough : unseenCount s [] < s.interfaces.length + 1 := Nat.lt_succ_of_le (List.length_filter_le _ _)
  obtain ⟨searched, visited⟩ := searchDefault_exhaustive s name _ [] interface enough none
  have all {n : String} (reached : Relation.ReflTransGen (ParentOf s) interface n) :
      n ∈ (s.searchDefault name (s.interfaces.length + 1) [] interface).1 := by
    induction reached with
    | refl => exact visited
    | tail _ edge ih =>
      obtain ⟨j, held, parent⟩ := edge
      exact (searched.barren _ ih List.not_mem_nil j held).2 _ parent
  have lacks := (searched.barren holder (all reached) List.not_mem_nil i known).1
  exact absurd (List.find?_eq_none.1 lacks m member) (by simp [named, body])

end Evaluation

/-! ## Methods that a class provides -/

namespace Registry

/-- One interface extends another by its heading. -/
def Extends (r : Registry) (name parent : String) : Prop :=
  ∃ d ∈ r, d.name = name ∧ parent ∈ interfaceNames d.decl

/-- A class has or inherits a method: along its superclasses, or with a body from an interface that it or one
of them implements, or that such an interface extends. -/
def Provides (r : Registry) (d : DeclSymbol) (name : String) : Prop :=
  (r.classMethod? d name).isSome ∨
    ∃ e ∈ r.ancestors d, ∃ interface ∈ interfaceNames e.decl, ∃ holder ∈ r,
      Relation.ReflTransGen r.Extends interface holder.name ∧
        ∃ m ∈ holder.decl.methods, m.name.text = name ∧ m.body.isSome

end Registry

namespace Evaluation

variable {p : LinkedProgram} {r : Registry} {clock : Float} {s : State} {d : DeclSymbol} {id : Nat} {name : String}

/-- An interface is built from the symbol of its name. -/
theorem decl_of_interface? (describes : r.Describes p) (orderly : Orderly (.ofProgram p clock) s) (member : d ∈ r)
    {i : InterfaceDef} (known : s.interface? d.name = some i) : i.decl = d.decl := by
  have named : i.name = d.name := by simpa using List.find?_some known
  have isName : d.name = d.decl.name.text := congrArg Nominal.name (describes.registered.nominal d member)
  have declared : (d.file, d.decl) ∈ p.declarations := by
    rw [← describes.registered.declared]
    exact List.mem_map_of_mem member
  have complete := (orderly.interfaces known).declared
  rw [named, isName, World.interface?, declaration?_of_mem describes.registered declared] at complete
  obtain ⟨e, filtered, same⟩ := Option.map_eq_some_iff.1 complete
  rw [← same, ← Option.some.inj (Option.filter_eq_some_iff.1 filtered).1]

/-- Interfaces that are extended by their headings are there, and are extended at run time. -/
theorem parentOf_of_extends (describes : r.Describes p) (orderly : Orderly (.ofProgram p clock) s)
    {interface holder : String} (reached : Relation.ReflTransGen r.Extends interface holder)
    (offers : s.Offers interface) : Relation.ReflTransGen (ParentOf s) interface holder ∧ s.Offers holder := by
  induction reached with
  | refl => exact ⟨.refl, offers⟩
  | tail _ edge ih =>
    obtain ⟨e, member, rfl, parent⟩ := edge
    obtain ⟨i, known⟩ := Option.isSome_iff_exists.1 ih.2
    have complete := orderly.interfaces known
    rw [← decl_of_interface? describes orderly member known, ← complete.parents] at parent
    exact ⟨ih.1.tail ⟨i, known, parent⟩, complete.known _ parent⟩

/-- A class that is built has every method that its declaration provides. -/
theorem method?_of_provides (describes : r.Describes p) (named : ∀ d ∈ r, d.name ≠ "")
    (orderly : Orderly (.ofProgram p clock) s) (member : d ∈ r) (names : s.Names id d.name) (built : s.Built id)
    (provides : r.Provides d name) : (s.method? id name).isSome := by
  rcases provides with own | ⟨e, above, interface, written, holder, declared, reached, m, method, same, body⟩
  · have found := ownMethod_decl describes named orderly member names built name
    obtain ⟨m, isOwn⟩ := Option.isSome_iff_exists.1 own
    rw [isOwn, Option.map_some] at found
    obtain ⟨f, finds, -⟩ := Option.map_eq_some_iff.1 found
    rw [method?_of_own finds]
    rfl
  · obtain ⟨c, inChain, represents⟩ :=
      mem_of_forall₂_right (represents_ancestors describes named orderly member names built) above
    have implemented : interface ∈ (s.heap.cls c).interfaces := represents.interfaces ▸ written
    have offers := (orderly.classes (classes_of_hasMembers represents.members)).interfaces interface implemented
    obtain ⟨reaches, offered⟩ := parentOf_of_extends describes orderly reached offers
    obtain ⟨i, known⟩ := Option.isSome_iff_exists.1 offered
    have found := defaultMethod?_isSome reaches known
      (decl_of_interface? describes orderly declared known ▸ method) same body
    rw [State.method?, Option.orElse_eq_orElse, Option.orElse_eq_or, Option.isSome_or, Bool.or_eq_true]
    refine .inr (List.findSome?_isSome_iff.2 ⟨c, inChain, List.findSome?_isSome_iff.2 ⟨interface, implemented, ?_⟩⟩)
    rw [Option.isSome_map]
    exact found

/-! ## Building the entry class -/

/-- Whether a class has a method is asked once it has been built; one that cannot be built has none. -/
theorem hasNamed_run {w : World} {k : Evaluator} {cls : String} (there : (w.class? cls).isSome) :
    hasNamed k cls name w s =
      match k.classOf cls Span.none w s with
      | (.ok id, s') => (.ok (s'.method? id name).isSome, s')
      | (.error (.failed _), s') => (.ok false, s')
      | (.error stop, s') => (.error stop, s') := by
  have isRead (f : World → Run Bool) : (read >>= f : Run Bool) w s = f w w s := rfl
  rw [hasNamed, isRead, if_neg (by simpa [Option.isSome_iff_ne_none] using there), bind_run, attempt]
  rcases k.classOf cls Span.none w s with ⟨(d | _ | slot) | id, s'⟩ <;> rfl

end Evaluation

namespace Interpreter

/-- Builds a class. -/
def build (i : Interpreter) (cls : String) : Except Stop Nat × Interpreter :=
  i.exec fun k => k.classOf cls Span.none

variable {i i' : Interpreter} {w : World} {cls name : String}

theorem findMethod_built {id : Nat} (loaded : i.world = some w) (there : (w.class? cls).isSome)
    (built : i.build cls = (.ok id, i')) : i.findMethod cls name = (.ok (i'.state.method? id name).isSome, i') := by
  rw [build, exec_eq loaded] at built
  rw [findMethod, exec_eq loaded, hasNamed_run there]
  rcases ran : (evaluator (maxSteps w.program)).classOf cls Span.none w i.state with ⟨stop | id, s⟩
  · rw [ran] at built
    cases built
  · rw [ran] at built
    cases built
    rfl

theorem findMethod_failed {d : Diagnostic} (loaded : i.world = some w) (there : (w.class? cls).isSome)
    (failed : i.build cls = (.error (.failed d), i')) (external : d.kind ≠ .internal) :
    i.findMethod cls name = (.ok false, i') := by
  rw [build, exec_eq loaded] at failed
  rw [findMethod, exec_eq loaded, hasNamed_run there]
  rcases ran : (evaluator (maxSteps w.program)).classOf cls Span.none w i.state with ⟨(e | _ | slot) | id, s⟩
  · rw [ran] at failed
    cases failed
    rfl
  · rw [ran] at failed
    cases failed
  · rw [ran] at failed
    cases failed
    exact absurd rfl external
  · rw [ran] at failed
    cases failed

/-- What follows the statements of a program that return nothing. -/
theorem runEntry_run {p : LinkedProgram} {i i₁ i₂ : Interpreter} {has : Bool} (ran : i.run p = (.ok .void, i₁))
    (isNamed : cls ≠ "") (found : i₁.findMethod cls name = (.ok has, i₂)) :
    i.runEntry p cls name = if has then i₂.invoke cls name [] else (.ok .void, i₂) := by
  have differs : (cls == "") = false := by simpa using isNamed
  rw [runEntry, ran]
  dsimp only
  rw [differs, found]
  cases has <;> rfl

end Interpreter

/-- The entry class after a program has run, if it can be built. -/
theorem built_after_run {p : LinkedProgram} {r : Registry} {i i' : Interpreter} {clock : Float} {cls : String} {id : Nat}
    (describes : r.Describes p) (ran : Ran p clock i) (there : ((World.ofProgram p clock).class? cls).isSome)
    (built : i.build cls = (.ok id, i')) :
    Orderly (.ofProgram p clock) i'.state ∧ i'.state.Names id cls ∧
      ((World.ofProgram p clock).Plain → i'.state.Built id) := by
  rw [Interpreter.build, Interpreter.exec_eq ran.world] at built
  have conducts : Conducts (.ofProgram p clock) i.state i.state.file
      ((evaluator (maxSteps p)).classOf cls Span.none) fun s id => s.Names id cls :=
    (evaluator_conducted (linked_of_describes describes) (maxSteps p)).classOf (.inl there)
  have ended := conducts i.state (Later.refl _) ran.orderly rfl
  change i.outcome ((evaluator (maxSteps p)).classOf cls Span.none (.ofProgram p clock) i.state) = _ at built
  rcases ran' : (evaluator (maxSteps p)).classOf cls Span.none (.ofProgram p clock) i.state with ⟨stop | id', s⟩
  · rw [ran'] at built
    cases built
  · rw [ran'] at built ended
    cases built
    obtain ⟨kept, settled, names⟩ := ended
    refine ⟨kept.orderly, names, fun plain => built_of_all kept.orderly (fun n c found => ?_) names⟩
    by_contra unfinished
    have early := settled plain n c found (Bool.eq_false_iff.2 unfinished)
    obtain ⟨c', found', same⟩ := kept.later.classes (Array.getElem?_eq_getElem early)
    obtain rfl := Option.some.inj (found.symm.trans found')
    have members := ran.finished plain n _ (Array.getElem?_eq_getElem early)
    exact unfinished ((ClassDef.core_inj same).2.2.2.2.2.trans members)

/-- After the statements of an accepted program, the entry class is built, and its entry method is called if
the class has one. All built classes are finished unless a markup element stands for a class; a failure while
the class is being built counts as a class without the method. -/
theorem entry_point_is_called {p : LinkedProgram} {c : Checked} (accepted : p.check = .ok c) (named : p.Named)
    {i i₁ : Interpreter} (ran : i.run p = (.ok .void, i₁)) {d : DeclSymbol} (declared : d ∈ c.registry)
    (isClass : d.nominal.isInterface = false) {name : String} (provides : c.registry.Provides d name) :
    (∀ id i₂, i₁.build d.name = (.ok id, i₂) → (World.ofProgram p i.clock).Plain ∨ i₂.state.Built id →
      (i₂.state.method? id name).isSome ∧ i.runEntry p d.name name = i₂.invoke d.name name []) ∧
    ∀ failure i₂, i₁.build d.name = (.error (.failed failure), i₂) → failure.kind ≠ .internal →
      i.runEntry p d.name name = (.ok .void, i₂) := by
  have describes := describes_of_check accepted
  have nonempty := named_of_describes describes named
  have left := ran_of_run describes ran
  have there : ((World.ofProgram p i.clock).class? d.name).isSome := by
    have nominal := describes.registered.nominal d declared
    have member : (d.file, d.decl) ∈ p.declarations := by
      rw [← describes.registered.declared]
      exact List.mem_map_of_mem declared
    rw [nominal] at isClass
    rw [DeclSymbol.name, nominal, class?_of_mem describes.registered member isClass]
    rfl
  constructor
  · intro id i₂ built finished
    obtain ⟨orderly, names, settled⟩ := built_after_run describes left there built
    have built' : i₂.state.Built id := finished.elim settled fun built => built
    have found := method?_of_provides describes nonempty orderly declared names built' provides
    refine ⟨found, ?_⟩
    rw [Interpreter.runEntry_run ran (nonempty d declared) (Interpreter.findMethod_built left.world there built),
      if_pos found]
  · intro failure i₂ failed external
    exact Interpreter.runEntry_run ran (nonempty d declared)
      (Interpreter.findMethod_failed left.world there failed external)

/-! ## An entry class that can be built, and one that cannot -/

open Sample

/-- `class Boom { public static go(o) { o.x; } }`, which reads a member of its argument, and
`class App { public static main(): string? { return null; } }` with static fields. -/
def entering (fields : List Field) : LinkedProgram :=
  let go : Method := method true "go" ["o"] [.does default (.member default (.name (named "o")) (named "x"))]
  let main : Method := method true "main" [] [.returns default (some (.null default))]
  .ofProgram ⟨"main.clasp",
    [.declares (cls "Boom" none [] [go]),
      .declares (cls "App" none fields [{ main with result := some (.simple default "string" true) }])],
    default⟩

/-- A class `App` without static fields. -/
def greeting : LinkedProgram := entering []

/-- A class `App` with a static field `x = Boom.go(null)`, of which the initial value fails. -/
def exploding : LinkedProgram := entering [static "x" (call "Boom" "go" [.null default])]

/-- A class `App` has a method `main`. -/
abbrev Checked.Enters (c : Checked) : Prop :=
  ∃ d ∈ c.registry, d.name = "App" ∧ d.nominal.isInterface = false ∧ (c.registry.classMethod? d "main").isSome

theorem greeting_is_entered :
    ∃ i₁ id i₂, (Interpreter.new 0 none).run greeting = (.ok .void, i₁) ∧ i₁.build "App" = (.ok id, i₂) ∧
      (Interpreter.new 0 none).runEntry greeting "App" "main" = i₂.invoke "App" "main" [] := by
  obtain ⟨c, accepted, d, declared, isApp, isClass, own⟩ :=
    exists_accepted (p := greeting) (P := Checked.Enters) (by decide +kernel)
  have ran := eq_void (r := (Interpreter.new 0 none).run greeting) (by decide +kernel)
  have succeeds : (((Interpreter.new 0 none).run greeting).2.build "App").1.toOption.isSome = true := by decide +kernel
  have members : (((Interpreter.new 0 none).run greeting).2.build "App").2.state.heap.classes.all
      (·.hasMembers) = true := by decide +kernel
  generalize ((Interpreter.new 0 none).run greeting).2 = i₁ at ran succeeds members
  rcases build : i₁.build "App" with ⟨stop | id, i₂⟩
  · rw [build] at succeeds
    cases succeeds
  rw [build] at members
  have describes := describes_of_check accepted
  have left := ran_of_run describes ran
  have there : ((World.ofProgram greeting (Interpreter.new 0 none).clock).class? "App").isSome = true := by
    decide +kernel
  obtain ⟨orderly, names, -⟩ := built_after_run describes left there build
  have built := built_of_all orderly
    (fun id c held => Array.all_eq_true_iff_forall_mem.1 members c (Array.mem_of_getElem? held)) names
  have called := (entry_point_is_called accepted (by decide +kernel) ran declared isClass (.inl own)).1 id i₂
    (by rw [isApp]; exact build) (.inr built)
  rw [isApp] at called
  exact ⟨i₁, id, i₂, ran, build, called.2⟩

/-- A static field of `App` fails, and `main` is not called: the run ends without a value and without an error,
though the method would have returned null. -/
theorem exploding_entry_is_skipped :
    (∃ c, exploding.check = .ok c ∧ c.Enters) ∧
      (∃ i, (Interpreter.new 0 none).run exploding = (.ok .void, i)) ∧
      ∃ i, (Interpreter.new 0 none).runEntry exploding "App" "main" = (.ok .void, i) :=
  ⟨exists_accepted (by decide +kernel), ⟨_, eq_void (by decide +kernel)⟩, ⟨_, eq_void (by decide +kernel)⟩⟩

end ClassScript
