import ClassScript.Proofs.Rejections

/-!
Uses of private members. Each access to a private member or constructor that an accepted program makes stands in the
body of the declaration that declares it, or in that of a class whose superclass that is
(`private_accesses_are_inside`). The exception is a constructor that calls the one of its superclass where the
superclass has none of its own: the one that is called may be private to a class farther up
(`private_constructor_is_called`).
-/

namespace ClassScript

open Sample
open Evaluation (superclassName?)

/-- What a declaration may use by its heading, its symbol may use. -/
theorem Registry.Describes.mayUse {r : Registry} {p : LinkedProgram} (describes : r.Describes p) {d : DeclSymbol}
    (member : d ∈ r) {u : Typing.Access} (may : p.MayUse d.decl u) :
    u.owner = d.nominal ∨ d.parent.map (·.1) = some u.owner ∨
      (u.throughParent = true ∧ ∃ base ∈ r, d.parent.map (·.1) = some base.nominal ∧
        base.method? Builtin.constructorName = none ∧ p.Inherits base.name u.owner.name) := by
  have heading := (describes.headed d member).parent
  cases may with
  | own isOwn =>
    rw [describes.registered.nominal d member]
    exact .inl isOwn
  | parent isParent isOwner =>
    rw [isParent, Option.map_some, ← isOwner] at heading
    exact .inr (.inl heading)
  | @through file decl throughParent declared isParent lacks inherits =>
    rw [isParent, Option.map_some] at heading
    rw [← describes.registered.declared] at declared
    obtain ⟨base, within, same⟩ := List.mem_map.1 declared
    obtain ⟨-, rfl⟩ := Prod.mk.inj same
    have isClass : base.decl.isInterface = false := by
      obtain ⟨e, known, isNominal⟩ := List.mem_map.1
        ((describes.headed d member).known ⟨base.decl.name.text, false⟩ (by
          obtain ⟨q, isParent', same⟩ := Option.map_eq_some_iff.1 heading
          simp [isParent', same]))
      have sameName : e.name = base.name := by
        rw [DeclSymbol.name, isNominal, describes.registered.name_eq within]
      obtain rfl := List.inj_on_of_nodup_map describes.registered.distinct known within sameName
      rw [← describes.isInterface known, isNominal]
    refine .inr (.inr ⟨throughParent, base, within, ?_, ?_, ?_⟩)
    · rw [heading, describes.registered.nominal base within, isClass]
    · refine List.find?_eq_none.2 fun m isMethod isConstructor => ?_
      obtain ⟨written, isWritten, symbolizes⟩ :=
        mem_of_forall₂_right (describes.membered base within).methods isMethod
      exact lacks written isWritten (by simpa [symbolizes.name] using isConstructor)
    · rw [describes.registered.name_eq within]
      exact inherits

/-- What an accepted program uses of the private members of a declaration, it uses in the body of that declaration or
of a class whose superclass it is. Only a constructor that calls the one of its superclass may reach a private one that
the superclass inherits. -/
theorem private_accesses_are_inside {p : LinkedProgram} {c : Checked} (accepted : p.check = .ok c) {u : Typing.Access}
    (used : u ∈ c.accesses) (isPrivate : u.isPrivate = true) :
    ∃ d ∈ c.registry, d.file = u.file ∧ u.span ∈ d.decl.bodySpans ∧
      (u.owner = d.nominal ∨ d.parent.map (·.1) = some u.owner ∨
        (u.throughParent = true ∧ ∃ base ∈ c.registry, d.parent.map (·.1) = some base.nominal ∧
          base.method? Builtin.constructorName = none ∧ p.Inherits base.name u.owner.name)) := by
  have describes := describes_of_check accepted
  unfold LinkedProgram.check at accepted
  split at accepted
  · cases accepted
  · next registry progress ran =>
    obtain rfl := Except.ok.inj accepted
    rcases Typing.checkProgram_stays.notes ran u used with early | guarded
    · cases early
    · obtain ⟨⟨file, decl⟩, declared, inFile, within, may⟩ := guarded isPrivate
      rw [← describes.registered.declared] at declared
      obtain ⟨d, member, same⟩ := List.mem_map.1 declared
      obtain ⟨rfl, rfl⟩ := Prod.mk.inj same
      exact ⟨d, member, inFile, within, describes.mayUse member may⟩

/-! ## A constructor of the superclass, and one of a class farther up -/

/-- The call of the constructor of the superclass. -/
def parentCall : Expr := .call ⟨default, ⟨113, 120, 3, 44⟩⟩ (.parent default) []

/-- A class with a private constructor. -/
def guarding : Declaration := cls "A" none [] [constructor true []]

/-- A class with a constructor that calls that of the superclass. -/
def heir (parent : String) : Declaration := cls "C" (some parent) [] [constructor false [.does default parentCall]]

/-- `open class A { private constructor() { } }`, `class C extends A { public constructor() { super(); } }` -/
def adjoining : LinkedProgram :=
  .ofProgram ⟨"main.clasp", [.declares guarding, .declares (heir "A")], default⟩

/-- A private constructor is called through the superclass. -/
abbrev Checked.CallsHidden (c : Checked) : Prop :=
  ∃ u ∈ c.accesses, u.span = parentCall.span ∧ u.isPrivate = true ∧ u.throughParent = true ∧ u.owner = ⟨"A", false⟩

/-- Every superclass has a constructor. -/
abbrev Checked.Constructs (c : Checked) : Prop :=
  ∀ d ∈ c.registry, ∀ base ∈ c.registry, d.parent.map (·.1) = some base.nominal →
    (base.method? Builtin.constructorName).isSome = true

theorem adjoining_calls_inside :
    ∃ c, adjoining.check = .ok c ∧ ∃ d ∈ c.registry, parentCall.span ∈ d.decl.bodySpans ∧
      (d.name = "A" ∨ d.parent.map (·.1) = some ⟨"A", false⟩) := by
  obtain ⟨c, accepted, ⟨u, used, isHere, isPrivate, -, isOwner⟩, constructs⟩ :=
    exists_accepted (p := adjoining) (P := fun c => c.CallsHidden ∧ c.Constructs) (by decide +kernel)
  obtain ⟨d, member, -, within, inside⟩ := private_accesses_are_inside accepted used isPrivate
  rw [isOwner] at inside
  refine ⟨c, accepted, d, member, isHere ▸ within, ?_⟩
  rcases inside with isOwn | isParent | ⟨-, base, isBase, isParent, lacks, -⟩
  · exact .inl (congrArg Nominal.name isOwn).symm
  · exact .inr isParent
  · have has := constructs d member base isBase isParent
    rw [lacks] at has
    cases has

/-- `open class A { private constructor() { } }`, `open class B extends A { }`,
`class C extends B { public constructor() { super(); } }` -/
def skipping : LinkedProgram :=
  .ofProgram ⟨"main.clasp", [.declares guarding, .declares (cls "B" (some "A") [] []), .declares (heir "B")], default⟩

/-- The constructor of `A` is private, and is called in `C`, which is neither `A` nor a class whose superclass is
`A`. -/
theorem private_constructor_is_called :
    ∃ c, skipping.check = .ok c ∧ c.CallsHidden ∧
      ∀ d ∈ c.registry, parentCall.span ∈ d.decl.bodySpans →
        d.nominal ≠ ⟨"A", false⟩ ∧ d.parent.map (·.1) ≠ some ⟨"A", false⟩ :=
  exists_accepted
    (P := fun c => c.CallsHidden ∧ ∀ d ∈ c.registry, parentCall.span ∈ d.decl.bodySpans →
      d.nominal ≠ ⟨"A", false⟩ ∧ d.parent.map (·.1) ≠ some ⟨"A", false⟩) (by decide +kernel)

end ClassScript
