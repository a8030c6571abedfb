import ClassScript.Proofs.Dispatch
import ClassScript.Proofs.InterfaceWalks

/-!
Methods of interfaces at run time. A class that is accepted has, for every method of an interface that it implements,
an instance method, or the interface has a body for it (`conforms_of_check`). So once the class is built, a method
of that name is found: one of a class on its line that is not static, or one with a body of an interface that it
implements (`interface_methods_are_found`). Before, its members are not there yet, so that a call through an interface
may miss them (`unfinished_class_lacks_interface_method`).
-/

namespace ClassScript

open Evaluation Sample

/-! ## Conformance -/

namespace Typing

variable {ctx : Context}

theorem gives_requireImplements {r : Registry} {d i : DeclSymbol} {x : Registry.Inherited} {u : Unit}
    (gives : Gives (requireImplements r d i x) ctx u) :
    (∃ m, r.classMethod? d x.method.name = some m ∧ m.isStatic = false) ∨
      r.classMethod? d x.method.name = none ∧ x.method.decl.body.isSome = true := by
  unfold requireImplements at gives
  dsimp only at gives
  cases own : r.classMethod? d x.method.name with
  | none =>
    rw [own] at gives
    exact .inr ⟨rfl, gives_require gives⟩
  | some m =>
    rw [own] at gives
    obtain ⟨_, isInstance, -⟩ := gives_bind gives
    exact .inl ⟨m, rfl, by simpa using gives_require isInstance⟩

/-- Every class of an accepted program conforms to its interfaces. -/
theorem gives_requireConforms_of_check {p : LinkedProgram} {c : Checked} (accepted : p.check = .ok c) {d : DeclSymbol}
    (declared : d ∈ c.registry) (isClass : d.nominal.isInterface = false) :
    ∃ ctx, ctx.registry = c.registry ∧ Gives (requireConforms d) ctx () := by
  unfold LinkedProgram.check at accepted
  split at accepted
  · cases accepted
  · next registry progress ran =>
    obtain rfl := Except.ok.inj accepted
    have gives : Gives (checkProgram p) ⟨[], p.file, [], .void⟩ registry := ⟨_, _, ran⟩
    obtain ⟨r, -, gives⟩ := gives_bind gives
    obtain ⟨_, checks, gives⟩ := gives_bind gives
    obtain rfl := gives_pure gives
    obtain ⟨globals, -, gives⟩ := gives_bind (gives_knowing checks)
    obtain ⟨_, -, gives⟩ := gives_bind gives
    have own := gives_forM gives d (List.mem_filter.2 ⟨declared, by simpa using isClass⟩)
    have inner := gives_withReader (gives_inFile own)
    simp only [isClass, Bool.not_false, if_true] at inner
    obtain ⟨_, conforms, -⟩ := gives_bind inner
    exact ⟨_, rfl, conforms⟩

end Typing

open Typing in
/-- A class of an accepted program has the members of the interfaces that it or a superclass names. -/
theorem gives_requireInterface_of_check {p : LinkedProgram} {c : Checked} (accepted : p.check = .ok c)
    {d e i : DeclSymbol} (declared : d ∈ c.registry) (isClass : d.nominal.isInterface = false)
    (above : e ∈ c.registry.ancestors d) {n : Nominal} {args : List Ty} (isSuper : (n, args) ∈ e.interfaces)
    (found : c.registry.find? n.name = some i) : ∃ ctx, Gives (requireInterface c.registry d i) ctx () := by
  obtain ⟨ctx, same, conforms⟩ := gives_requireConforms_of_check accepted declared isClass
  obtain ⟨_, isRead, gives⟩ := gives_bind conforms
  rw [gives_read isRead, same] at gives
  have each := gives_forM (gives_forM gives e above) (n, args) isSuper
  dsimp only at each
  rw [found] at each
  exact ⟨ctx, each⟩

open Typing in
/-- A class of an accepted program has an instance method for every method of an interface that it or a superclass
names, or the interface has a body for it and no class has a method of that name. -/
theorem conforms_of_check {p : LinkedProgram} {c : Checked} (accepted : p.check = .ok c) {d e i : DeclSymbol}
    (declared : d ∈ c.registry) (isClass : d.nominal.isInterface = false) (above : e ∈ c.registry.ancestors d)
    {n : Nominal} {args : List Ty} (isSuper : (n, args) ∈ e.interfaces) (found : c.registry.find? n.name = some i) :
    ∃ view, ∀ x ∈ c.registry.allMethods i view,
      (∃ m, c.registry.classMethod? d x.method.name = some m ∧ m.isStatic = false) ∨
        c.registry.classMethod? d x.method.name = none ∧ x.method.decl.body.isSome = true := by
  obtain ⟨ctx, gives⟩ := gives_requireInterface_of_check accepted declared isClass above isSuper found
  obtain ⟨_, methods, -⟩ := gives_bind gives
  exact ⟨_, fun x offered => gives_requireImplements (gives_forM methods x offered)⟩

/-- An interface that a class implements offers no method that the class lacks: there is an instance method of that
name, or a method with a body of an interface that the class implements. -/
theorem provides_of_implements {p : LinkedProgram} {c : Checked} (accepted : p.check = .ok c) {d i : DeclSymbol}
    (declared : d ∈ c.registry) (isClass : d.nominal.isInterface = false) (declared' : i ∈ c.registry)
    (implements : c.registry.Implements d i.name) {x : Registry.Inherited} {args : List Ty}
    (offered : x ∈ c.registry.allMethods i args) :
    (∃ m, c.registry.classMethod? d x.method.name = some m ∧ m.isStatic = false) ∨
      c.registry.classMethod? d x.method.name = none ∧ c.registry.Provides d x.method.name := by
  have describes := describes_of_check accepted
  obtain ⟨e, above, interface, written, path⟩ := implements
  have declaredAbove := (Registry.line_ancestors describes declared).2.2 above
  obtain ⟨superArgs, isSuper⟩ := describes.mem_interfaces declaredAbove written
  obtain ⟨j, declaredSuper, isNamed, found, -⟩ := describes.find?_interface declaredAbove isSuper
  have isName : j.name = interface := congrArg Nominal.name isNamed
  obtain ⟨view, conforms⟩ := conforms_of_check accepted declared isClass above isSuper found
  -- a method of the interface has a namesake among those of the one that is named
  obtain ⟨holder, inside, beyond, m, isOwn, same⟩ :=
    (Registry.allMethods_names describes declared' args x.method.name).1 ⟨x, offered, rfl⟩
  obtain ⟨y, offered', same'⟩ := (Registry.allMethods_names describes declaredSuper view x.method.name).2
    ⟨holder, inside, isName ▸ path.trans beyond, m, isOwn, same⟩
  rcases conforms y offered' with own | ⟨none, body⟩
  · exact .inl (same' ▸ own)
  · refine .inr ⟨same' ▸ none, .inr ?_⟩
    rcases Registry.walkMethods_mem describes declaredSuper offered' with early | ⟨owner, within, reached, isMethod⟩
    · cases early
    · obtain ⟨written', isWritten, symbolizes⟩ := mem_of_forall₂_right (describes.membered owner within).methods isMethod
      refine ⟨e, above, interface, written, owner, within, isName ▸ reached, written', isWritten, ?_, ?_⟩
      · rw [← symbolizes.name, same']
      · rw [← symbolizes.decl]
        exact body

/-! ## At run time -/

namespace Evaluation

variable {p : LinkedProgram} {r : Registry} {clock : Float} {s : State} {d : DeclSymbol} {id : Nat} {name : String}

/-- An interface that has been built is the declared one of its name. -/
theorem symbol_of_interface? (describes : r.Describes p) (orderly : Orderly (.ofProgram p clock) s) {i : InterfaceDef}
    (known : s.interface? name = some i) : ∃ e ∈ r, e.name = name ∧ e.decl = i.decl := by
  have isNamed : i.name = name := by simpa using List.find?_some known
  obtain ⟨e, filtered, same⟩ := Option.map_eq_some_iff.1 (orderly.interfaces known).declared
  have found := (Option.filter_eq_some_iff.1 filtered).1
  have inProgram : e ∈ p.declarations := List.mem_reverse.1 (List.mem_of_find?_eq_some found)
  rw [← describes.registered.declared] at inProgram
  obtain ⟨symbol, member, rfl⟩ := List.mem_map.1 inProgram
  refine ⟨symbol, member, ?_, same⟩
  have isName : symbol.decl.name.text = i.name := by simpa using List.find?_some found
  rw [DeclSymbol.name, describes.registered.nominal symbol member, isName, isNamed]

/-- Interfaces that are extended at run time are extended by their headings. -/
theorem extends_of_parentOf (describes : r.Describes p) (orderly : Orderly (.ofProgram p clock) s)
    {interface holder : String} (path : Relation.ReflTransGen (ParentOf s) interface holder) :
    Relation.ReflTransGen r.Extends interface holder := by
  refine Relation.ReflTransGen.mono ?_ _ _ path
  rintro name parent ⟨i, known, isParent⟩
  obtain ⟨e, member, isNamed, same⟩ := symbol_of_interface? describes orderly known
  refine ⟨e, member, isNamed, ?_⟩
  rw [same, ← (orderly.interfaces known).parents]
  exact isParent

/-- A method that is found where no class on the line has one has a body, and stands in an interface that the class
implements. -/
theorem default_of_method? (describes : r.Describes p) (named : ∀ d ∈ r, d.name ≠ "")
    (orderly : Orderly (.ofProgram p clock) s) (declared : d ∈ r) (names : s.Names id d.name) (built : s.Built id)
    (lacks : s.ownMethod? id name = none) {f : FoundMethod} (found : s.method? id name = some f) :
    f.owner = none ∧ f.hasBody = true ∧ ∃ holder ∈ r, r.Implements d holder.name ∧ f.decl ∈ holder.decl.methods := by
  have inherited := found
  unfold State.ownMethod? at lacks
  rw [State.method?, lacks, Option.orElse_eq_orElse, Option.orElse_eq_or, Option.none_or] at inherited
  obtain ⟨c, inChain, inherited⟩ := List.exists_of_findSome?_eq_some inherited
  obtain ⟨interface, implemented, inherited⟩ := List.exists_of_findSome?_eq_some inherited
  obtain ⟨m, isDefault, rfl⟩ := Option.map_eq_some_iff.1 inherited
  obtain ⟨holder, i, path, known, isOwn, -, body⟩ := searchDefault_found s _ _ _ _ isDefault
  obtain ⟨e, member, isNamed, same⟩ := symbol_of_interface? describes orderly known
  have line := represents_ancestors describes named orderly declared names built
  obtain ⟨above, inLine, represents⟩ := mem_of_forall₂_left line inChain
  refine ⟨rfl, body, e, member, ⟨above, inLine, interface, ?_, ?_⟩, same ▸ isOwn⟩
  · rw [← represents.interfaces]
    exact implemented
  · rw [isNamed]
    exact extends_of_parentOf describes orderly path

end Evaluation

/-- In an orderly state, a class that is built finds a method for every method of an interface that it can be seen
as. It is the instance method that typing finds on its line, or else a method with a body of an interface that the
class implements. -/
theorem interface_methods_are_found {p : LinkedProgram} {c : Checked} (accepted : p.check = .ok c) (named : p.Named)
    {clock : Float} {s : State} (orderly : Orderly (.ofProgram p clock) s) {d i : DeclSymbol}
    (declared : d ∈ c.registry) (isClass : d.nominal.isInterface = false) (declared' : i ∈ c.registry)
    (isInterface : i.nominal.isInterface = true) {view : List Ty}
    (viewed : c.registry.table.viewAs d.nominal d.selfArgs i.nominal = some view) {id : Nat}
    (names : s.Names id d.name) (built : s.Built id) {x : Registry.Inherited} {args : List Ty}
    (offered : x ∈ c.registry.allMethods i args) :
    ∃ f, s.method? id x.method.name = some f ∧
      ((∃ owner ∈ s.heap.chain id, f.owner = some owner ∧ f.isStatic = false ∧
          (c.registry.classMethod? d x.method.name).map (·.decl) = some f.decl) ∨
        f.owner = none ∧ f.hasBody = true ∧
          ∃ holder ∈ c.registry, c.registry.Implements d holder.name ∧ f.decl ∈ holder.decl.methods) := by
  have describes := describes_of_check accepted
  have nonempty := named_of_describes describes named
  have implements := Registry.implements_of_viewAs describes declared isClass isInterface viewed
  have own := ownMethod_decl describes nonempty orderly declared names built x.method.name
  rcases provides_of_implements accepted declared isClass declared' implements offered with
    ⟨m, found, isInstance⟩ | ⟨lacks, provides⟩
  · rw [found, Option.map_some] at own
    obtain ⟨f, finds, same⟩ := Option.map_eq_some_iff.1 own
    obtain ⟨owner, inChain, isOwner⟩ := owner_of_ownMethod? finds
    refine ⟨f, method?_of_own finds, .inl ⟨owner, inChain, isOwner, ?_, ?_⟩⟩
    · rw [FoundMethod.isStatic, same]
      exact isInstance
    · rw [found, Option.map_some, same]
  · rw [lacks, Option.map_none, Option.map_eq_none_iff] at own
    obtain ⟨f, finds⟩ := Option.isSome_iff_exists.1
      (method?_of_provides describes nonempty orderly declared names built provides)
    exact ⟨f, finds, .inr (default_of_method? describes nonempty orderly declared names built own finds)⟩

/-! ## A class that is built, and one that is not yet -/

/-- `interface Root { go() { } }`, `interface Left extends Root { }`, `interface Right extends Root { }`,
`class Base implements Left, Right { }`, `class D extends Base { }`, `new D();` -/
def diamond : LinkedProgram :=
  .ofProgram ⟨"main.clasp",
    [.declares (interface "Root" [] [method false "go" [] []]), .declares (interface "Left" ["Root"] []),
      .declares (interface "Right" ["Root"] []), .declares (implementing "Base" none ["Left", "Right"] []),
      .declares (implementing "D" (some "Base") [] []), .does default (.create default (typed "D") [])],
    default⟩

/-- The class `D` can be seen as an interface that offers a method of that name, which is not static. -/
abbrev Checked.Promises (c : Checked) (interface method : String) : Prop :=
  ∃ d ∈ c.registry, d.name = "D" ∧ d.nominal.isInterface = false ∧
    ∃ i ∈ c.registry, i.name = interface ∧ i.nominal.isInterface = true ∧
      (c.registry.table.viewAs d.nominal d.selfArgs i.nominal).isSome = true ∧
        ∃ x ∈ c.registry.allMethods i [], x.method.name = method ∧ x.method.isStatic = false

/-- No class has or inherits a method of that name. -/
abbrev Checked.Lacks (c : Checked) (method : String) : Prop :=
  ∀ d ∈ c.registry, d.nominal.isInterface = false → (c.registry.classMethod? d method).isNone = true

theorem diamond_finds_default :
    ∃ f, (finalState diamond).method? 0 "go" = some f ∧ f.owner = none ∧ f.hasBody = true := by
  obtain ⟨c, accepted, ⟨d, declared, isD, isClass, i, declared', -, isInterface, viewed, x, offered, isGo, -⟩, lacks⟩ :=
    exists_accepted (p := diamond) (P := fun c => c.Promises "Root" "go" ∧ c.Lacks "go") (by decide +kernel)
  obtain ⟨view, viewed⟩ := Option.isSome_iff_exists.1 viewed
  obtain ⟨orderly, names, built⟩ := finalState_built 0 d.name accepted (by decide +kernel)
    (by decide +kernel) (by rw [isD]; decide +kernel)
  obtain ⟨f, finds, own | ⟨isDefault, body, -⟩⟩ := interface_methods_are_found accepted (by decide +kernel) orderly
    declared isClass declared' isInterface viewed names built offered
  · obtain ⟨owner, -, -, -, own⟩ := own
    rw [isGo, Option.isNone_iff_eq_none.1 (lacks d declared isClass)] at own
    cases own
  · exact ⟨f, isGo ▸ finds, isDefault, body⟩

/-- `interface Named { name(); }`, `class Maker { public static make() { let n: Named = new D(); n.name(); } }`,
`class B { public static x = Maker.make(); }`, `class D extends B implements Named { public name() { } }`, `new D();` -/
def hastening : LinkedProgram :=
  let name : Method := method false "name" [] []
  .ofProgram ⟨"main.clasp",
    [.declares (interface "Named" [] [{ name with body := none }]),
      .declares (cls "Maker" none []
        [method true "make" []
          [.binds default (named "n") (some (typed "Named")) (some (.create default (typed "D") [])),
            .does default (call "n" "name" [])]]),
      .declares (cls "B" none [static "x" (call "Maker" "make" [])] []),
      .declares (implementing "D" (some "B") ["Named"] [name]), .does default (.create default (typed "D") [])],
    default⟩

/-- While the superclass of `D` is being built, `D` has no members: an instance of it, which can be seen as `Named`,
misses the method of the interface. -/
theorem unfinished_class_lacks_interface_method :
    (∃ c, hastening.check = .ok c ∧ c.Promises "Named" "name") ∧
      (failure? ((Interpreter.new 0 none).run hastening)).map (·.code) = some "R002" ∧
      (failure? ((Interpreter.new 0 none).run hastening)).map (·.message) = some "D has no method name" ∧
      ((finalState hastening).heap.cls 0).name = "D" ∧ ((finalState hastening).method? 0 "name").isNone = true := by
  refine ⟨exists_accepted ?_, ?_, ?_, ?_, ?_⟩ <;> decide +kernel

end ClassScript
