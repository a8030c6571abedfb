import ClassScript.Proofs.InterfaceMethods
import ClassScript.Proofs.MemberResolution

/-!
Fields of interfaces. A field that typing finds on an interface stands in that interface or in one that it extends.
If a class or one of its superclasses names the interface that declares the field, the class has a field of that name
(`field_of_listed`), and if that is not static, every object of the class reads it once the class is built
(`listed_fields_are_found`). Nothing is asked of a class for interfaces that are only extended by those it names, nor
that its field is not static: such fields can be missing at run time (`unlisted_field_is_missing`).
-/

namespace ClassScript

open Evaluation Sample

namespace Registry

variable {r : Registry} {p : LinkedProgram} {i : DeclSymbol} {name : String} {f : FieldSymbol}

/-- A field that is found on an interface has that name, and is one of a declaration of the program. -/
theorem interfaceFieldFrom_found {fuel : Nat} (declared : i ∈ r) (found : r.interfaceFieldFrom name fuel i = some f) :
    f.name = name ∧ ∃ holder ∈ r, f ∈ holder.fields := by
  induction fuel generalizing i with
  | zero => cases found
  | succ fuel ih =>
    unfold interfaceFieldFrom at found
    cases own : i.field? name with
    | some g =>
      rw [own] at found
      obtain rfl := Option.some.inj found
      exact ⟨by simpa using List.find?_some own, i, declared, List.mem_of_find?_eq_some own⟩
    | none =>
      rw [own] at found
      obtain ⟨super, -, found⟩ := List.exists_of_findSome?_eq_some found
      cases known : r.find? super.1.name with
      | none => simp [known] at found
      | some j =>
        simp only [known] at found
        split at found
        · exact ih (mem_of_find? known) found
        · cases found

/-- A field that is found on an interface stands in the declaration that it belongs to. -/
theorem Describes.interfaceField?_owner (describes : r.Describes p) (declared : i ∈ r)
    (found : r.interfaceField? i name = some f) :
    f.name = name ∧ ∃ holder ∈ r, holder.nominal = f.owner ∧ f ∈ holder.fields := by
  obtain ⟨isNamed, holder, inside, isOwn⟩ := interfaceFieldFrom_found declared found
  obtain ⟨_, -, symbolizes⟩ := mem_of_forall₂_right (describes.membered holder inside).fields isOwn
  exact ⟨isNamed, holder, inside, symbolizes.owner.symm, isOwn⟩

end Registry

open Typing in
/-- A class of an accepted program has a field for every field of an interface that it or a superclass names. -/
theorem field_of_listed {p : LinkedProgram} {c : Checked} (accepted : p.check = .ok c) {d e i : DeclSymbol}
    (declared : d ∈ c.registry) (isClass : d.nominal.isInterface = false) (above : e ∈ c.registry.ancestors d)
    (listed : i.nominal ∈ e.interfaces.map (·.1)) (declared' : i ∈ c.registry) {f : FieldSymbol} (isOwn : f ∈ i.fields) :
    ∃ g, c.registry.classField? d f.name = some g := by
  have describes := describes_of_check accepted
  obtain ⟨⟨n, args⟩, isSuper, rfl⟩ := List.mem_map.1 listed
  have found := Registry.find?_of_mem describes.registered.distinct declared'
  obtain ⟨ctx, gives⟩ := gives_requireInterface_of_check accepted declared isClass above isSuper found
  obtain ⟨_, -, fields⟩ := gives_bind gives
  exact Option.isSome_iff_exists.1 (gives_require (gives_forM fields f isOwn))

namespace Evaluation

variable {p : LinkedProgram} {r : Registry} {clock : Float} {s : State} {d : DeclSymbol} {id : Nat} {name : String}
  {w : World}

/-- A class that is built has an instance field for every field of its line that is not static. -/
theorem instanceField?_isSome (describes : r.Describes p) (named : ∀ d ∈ r, d.name ≠ "")
    (orderly : Orderly (.ofProgram p clock) s) (declared : d ∈ r) (names : s.Names id d.name) (built : s.Built id)
    {e : DeclSymbol} (above : e ∈ r.ancestors d) {g : FieldSymbol} (isOwn : g ∈ e.fields) (isInstance : g.isStatic = false) :
    (s.instanceField? id g.name).isSome = true := by
  have line := represents_ancestors describes named orderly declared names built
  obtain ⟨c, inChain, represents⟩ := mem_of_forall₂_right line above
  obtain ⟨written, within, symbolizes⟩ := mem_of_forall₂_right represents.membered.fields isOwn
  have isField : written ∈ (s.heap.cls c).instanceFields := by
    refine List.mem_filter.2 ⟨?_, ?_⟩
    · rw [built.fields inChain, represents.decl]
      exact within
    · rw [← symbolizes.decl, show g.decl.modifiers.isStatic = false from isInstance]
      rfl
  rw [State.instanceField?, List.findSome?_isSome_iff]
  refine ⟨s.heap.cls c, List.mem_map_of_mem inChain, List.find?_isSome.2 ⟨written, isField, ?_⟩⟩
  rw [symbolizes.name]
  exact beq_self_eq_true _

/-- An object reads a member of which its class has an instance field. -/
theorem getMember_instance {object : Nat} {k : Evaluator} {property : Name}
    (has : (s.instanceField? (s.heap.object object).cls property.text).isSome = true) :
    ∃ v, getMember k (.object object) property w s = (.ok v, s) := by
  have held : (((s.heap.object object).field? property.text).or
      ((s.instanceField? (s.heap.object object).cls property.text).map fun _ => Value.null)).isSome = true := by
    rw [Option.isSome_or, Option.isSome_map, has, Bool.or_true]
  obtain ⟨v, held⟩ := Option.isSome_iff_exists.1 held
  exact ⟨v, getMember_field rfl (by rw [field?_object, held])⟩

end Evaluation

/-- A field that typing finds on an interface, and that is declared by an interface which a class or one of its
superclasses names, is found on the class by typing too. If the field of the class is not static, then in an orderly
state every object of the class reads it once the class is built. -/
theorem listed_fields_are_found {p : LinkedProgram} {c : Checked} (accepted : p.check = .ok c) (named : p.Named)
    {d i : DeclSymbol} (declared : d ∈ c.registry) (isClass : d.nominal.isInterface = false) (declared' : i ∈ c.registry)
    {name : String} {f : FieldSymbol} (found : c.registry.interfaceField? i name = some f)
    (listed : ∃ e ∈ c.registry.ancestors d, f.owner ∈ e.interfaces.map (·.1)) :
    ∃ g, c.registry.classField? d name = some g ∧
      (g.isStatic = false → ∀ clock s id, Orderly (.ofProgram p clock) s → s.Names id d.name → s.Built id →
        ∀ object, (s.heap.object object).cls = id → ∀ k property, property.text = name →
          ∃ v, getMember k (.object object) property (.ofProgram p clock) s = (.ok v, s)) := by
  have describes := describes_of_check accepted
  obtain ⟨rfl, holder, inside, isHolder, isOwn⟩ := describes.interfaceField?_owner declared' found
  obtain ⟨e, above, listed⟩ := listed
  obtain ⟨g, isField⟩ := field_of_listed accepted declared isClass above (isHolder ▸ listed) inside isOwn
  refine ⟨g, isField, ?_⟩
  rintro isInstance clock s id orderly names built object rfl k property same
  obtain ⟨e', above', own⟩ := List.exists_of_findSome?_eq_some isField
  have has := instanceField?_isSome describes (named_of_describes describes named) orderly declared names built above'
    (List.mem_of_find?_eq_some own) isInstance
  rw [show g.name = property.text by rw [same]; simpa using List.find?_some own] at has
  exact getMember_instance has

/-! ## Fields that are there, and fields that are not -/

/-- `let c: I = new C(); return c.f;` after declarations. -/
def readsThrough (declarations : List Declaration) : LinkedProgram :=
  .ofProgram ⟨"main.clasp",
    declarations.map .declares ++
      [.binds default (named "c") (some (typed "I")) (some (.create default (typed "C") [])),
        .returns default (some (.member default (.name (named "c")) (named "f")))],
    default⟩

/-- `interface I { public f: number; }`, `open class B implements I { public f = 1; }`, `class C extends B { }` -/
def listing : LinkedProgram :=
  readsThrough [offering "I" ["f"],
    { implementing "B" none ["I"] [] with fields := [field "f" (.number default "1")] }, implementing "C" (some "B") [] []]

/-- The class `C` can be seen as the interface `I`, which has a field `f`. -/
abbrev Checked.OffersField (c : Checked) (P : DeclSymbol → FieldSymbol → Prop) : Prop :=
  ∃ d ∈ c.registry, d.name = "C" ∧ d.nominal.isInterface = false ∧
    ∃ i ∈ c.registry, i.name = "I" ∧ i.nominal.isInterface = true ∧
      (c.registry.table.viewAs d.nominal d.selfArgs i.nominal).isSome = true ∧
        ∃ f ∈ c.registry.interfaceField? i "f", P d f

theorem listing_reads_field :
    ∃ v, getMember (evaluator 0) (.object 0) (named "f") (.ofProgram listing 0) (finalState listing) =
      (.ok v, finalState listing) := by
  obtain ⟨c, accepted, ⟨d, declared, isC, isClass, i, declared', -, -, -, f, found, listed, isInstance⟩⟩ :=
    exists_accepted (p := listing)
      (P := fun c => c.OffersField fun d f => (∃ e ∈ c.registry.ancestors d, f.owner ∈ e.interfaces.map (·.1)) ∧
        (c.registry.classField? d "f").any (fun g => !g.isStatic) = true) (by decide +kernel)
  obtain ⟨orderly, names, built⟩ := finalState_built 0 d.name accepted (by decide +kernel)
    (by decide +kernel) (by rw [isC]; decide +kernel)
  have here : ((finalState listing).heap.object 0).cls = 0 := by decide +kernel
  obtain ⟨g, isField, reads⟩ := listed_fields_are_found accepted (by decide +kernel) declared isClass declared'
    (Option.mem_def.1 found) listed
  rw [isField, Option.any_some] at isInstance
  exact reads (by simpa using isInstance) 0 _ 0 orderly names built 0 here _ _ rfl

/-- `interface I { public f: number; }`, `interface J extends I { }`, `class C implements J { }` -/
def extending : LinkedProgram :=
  readsThrough [offering "I" ["f"], interface "J" ["I"] [], implementing "C" none ["J"] []]

/-- `interface I { public f: number; }`, `class C implements I { public static f = 1; }` -/
def misplacing : LinkedProgram :=
  readsThrough [offering "I" ["f"],
    { implementing "C" none ["I"] [] with fields := [static "f" (.number default "1")] }]

/-- A class need not have the fields of an interface that is only extended by one that it names, and may have a
static field in place of one of an interface: a read through the interface is accepted, and finds no member. -/
theorem unlisted_field_is_missing :
    (∃ c, extending.check = .ok c ∧ c.OffersField fun d _ => (c.registry.classField? d "f").isNone = true) ∧
      (failure? ((Interpreter.new 0 none).run extending)).map (·.code) = some "R002" ∧
      (∃ c, misplacing.check = .ok c ∧ c.OffersField fun d _ => (c.registry.classField? d "f").isSome = true) ∧
      (failure? ((Interpreter.new 0 none).run misplacing)).map (·.code) = some "R002" := by
  refine ⟨exists_accepted ?_, ?_, exists_accepted ?_, ?_⟩ <;> decide +kernel

end ClassScript
