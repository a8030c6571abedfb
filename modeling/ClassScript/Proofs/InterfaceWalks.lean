import ClassScript.Proofs.Acceptance
import ClassScript.Proofs.EntryPoint

/-!
Walks over the interfaces of an accepted program. What is found of an interface as a supertype of a class has been
reached from an interface that the class or one of its superclasses implements (`implements_of_viewAs`). The walk
that collects the methods of an interface comes to every interface that it extends, in any number of steps and
whatever their order, so it collects one of every name (`allMethods_names`).
-/

namespace ClassScript

open Evaluation (superclassName? interfaceNames)

namespace Registry

variable {r : Registry} {p : LinkedProgram} {d e i : DeclSymbol}

/-- A class implements an interface: it or one of its superclasses names the interface, or one that extends it in
any number of steps. -/
def Implements (r : Registry) (d : DeclSymbol) (name : String) : Prop :=
  ∃ e ∈ r.ancestors d, ∃ interface ∈ interfaceNames e.decl, Relation.ReflTransGen r.Extends interface name

/-! ## Supertypes that are found -/

/-- One declaration names another as a direct supertype. -/
def Inherits (r : Registry) (n super : Nominal) : Prop :=
  ∃ d ∈ r, d.nominal = n ∧ super ∈ d.parent.toList.map (·.1) ++ d.interfaces.map (·.1)

/-- A supertype that a search finds is reached by following supertypes. -/
theorem inherits_of_search {target n : Nominal} {fuel : Nat} {visited : List Nominal} {args view : List Ty}
    (found : (r.table.search target fuel visited n args).2 = some view) :
    Relation.ReflTransGen r.Inherits n target := by
  induction fuel generalizing visited n args with
  | zero => cases found
  | succ fuel ih =>
    rw [TypeTable.search_succ] at found
    split_ifs at found with atTarget
    · rw [eq_of_beq atTarget]
    · cases known : r.table.find? n with
      | none =>
        rw [known] at found
        cases found
      | some declared =>
        rw [known] at found
        have isNamed : declared.nominal = n := by simpa using List.find?_some known
        obtain ⟨d, member, rfl⟩ := List.mem_map.1 (List.mem_of_find?_eq_some known)
        obtain ⟨super, within, seen, m, args', applied, behind⟩ := TypeTable.found_behind_super found rfl
        obtain ⟨⟨m', written⟩, isSuper, rfl⟩ := List.mem_map.1 within
        obtain rfl : m' = m := by
          rw [Ty.apply] at applied
          exact (Ty.ref.inj applied).1
        refine (ih behind).head ⟨d, member, isNamed, ?_⟩
        rw [← List.map_append]
        exact List.mem_map_of_mem isSuper

/-- A declaration is known by its nominal. -/
theorem Describes.eq_of_nominal (describes : r.Describes p) (member : d ∈ r) (member' : e ∈ r)
    (same : d.nominal = e.nominal) : d = e :=
  List.inj_on_of_nodup_map describes.registered.distinct member member' (congrArg Nominal.name same)

theorem Describes.isInterface (describes : r.Describes p) (member : d ∈ r) :
    d.nominal.isInterface = d.decl.isInterface := by
  rw [describes.registered.nominal d member]

/-- The superclass of a declaration is a class. -/
theorem Describes.parent_isClass (describes : r.Describes p) (member : d ∈ r) {n : Nominal} {args : List Ty}
    (isParent : d.parent = some (n, args)) : n.isInterface = false := by
  have heading := (describes.headed d member).parent
  rw [isParent, Option.map_some, eq_comm] at heading
  obtain ⟨name, -, rfl⟩ := Option.map_eq_some_iff.1 heading
  rfl

/-- An interface that a declaration names is declared, and stands in its heading. -/
theorem Describes.find?_interface (describes : r.Describes p) (member : d ∈ r) {n : Nominal} {args : List Ty}
    (isSuper : (n, args) ∈ d.interfaces) :
    ∃ i ∈ r, i.nominal = n ∧ r.find? n.name = some i ∧ n.isInterface = true ∧ n.name ∈ interfaceNames d.decl := by
  have inHeading : n ∈ d.interfaces.map (·.1) := List.mem_map_of_mem isSuper
  obtain ⟨i, within, rfl⟩ := List.mem_map.1 ((describes.headed d member).known n (List.mem_append_right _ inHeading))
  rw [(describes.headed d member).interfaces] at inHeading
  obtain ⟨name, written, same⟩ := List.mem_map.1 inHeading
  refine ⟨i, within, rfl, find?_of_mem describes.registered.distinct within, by rw [← same], ?_⟩
  rw [← same]
  exact written

/-- Every interface in the heading of a declaration is one of its supertypes. -/
theorem Describes.mem_interfaces (describes : r.Describes p) (member : d ∈ r) {name : String}
    (written : name ∈ interfaceNames d.decl) : ∃ args, (⟨name, true⟩, args) ∈ d.interfaces := by
  have inHeading : (⟨name, true⟩ : Nominal) ∈ d.interfaces.map (·.1) := by
    rw [(describes.headed d member).interfaces]
    exact List.mem_map_of_mem written
  obtain ⟨⟨n, args⟩, within, rfl⟩ := List.mem_map.1 inHeading
  exact ⟨args, within⟩

theorem mem_ancestors_self (describes : r.Describes p) (member : d ∈ r) : d ∈ r.ancestors d := by
  have line := (line_ancestors describes member).1
  generalize r.ancestors d = ds at line
  cases line <;> exact List.mem_cons_self

/-- What a superclass implements, its subclasses do. -/
theorem Implements.inherited (describes : r.Describes p) (member : d ∈ r) (above : e ∈ r.ancestors d) {name : String}
    (implements : r.Implements e name) : r.Implements d name := by
  obtain ⟨holder, inLine, rest⟩ := implements
  exact ⟨holder, (ancestors_suffix describes member above).subset inLine, rest⟩

/-- Following supertypes from a class to an interface leads through its superclasses, and from an interface only
through those it extends. -/
theorem implements_of_inherits (describes : r.Describes p) (isInterface : i.nominal.isInterface = true)
    {n : Nominal} (path : Relation.ReflTransGen r.Inherits n i.nominal) (member : d ∈ r) (isNamed : d.nominal = n) :
    (n.isInterface = false → r.Implements d i.name) ∧
      (n.isInterface = true → Relation.ReflTransGen r.Extends d.name i.name) := by
  induction path using Relation.ReflTransGen.head_induction_on generalizing d with
  | refl =>
    refine ⟨fun isClass => ?_, fun _ => ?_⟩
    · rw [isInterface] at isClass
      cases isClass
    · rw [DeclSymbol.name, isNamed]
      exact .refl
  | @head n super edge path ih =>
    obtain ⟨d', member', isNamed', isSuper⟩ := edge
    obtain rfl := describes.eq_of_nominal member member' (isNamed.trans isNamed'.symm)
    rcases List.mem_append.1 isSuper with isParent | isListed
    · obtain ⟨⟨m, args⟩, inParent, rfl⟩ := List.mem_map.1 isParent
      have isParent := Option.mem_toList.1 inParent
      obtain ⟨parent, within, isParentName, found⟩ := describes.find?_parent member isParent
      have isClass := describes.parent_isClass member isParent
      have above : parent ∈ r.ancestors d := by
        have line := Line.step isParent found (line_ancestors describes within).1
        rw [(line_ancestors describes member).1.unique line]
        exact List.mem_cons_of_mem _ (mem_ancestors_self describes within)
      refine ⟨fun _ => ((ih within isParentName).1 isClass).inherited describes member above, fun isInterface => ?_⟩
      rw [← isNamed, describes.isInterface member] at isInterface
      have orphan := describes.registered.orphan d member isInterface
      rw [isParent] at orphan
      cases orphan
    · obtain ⟨⟨m, args⟩, listed, rfl⟩ := List.mem_map.1 isListed
      obtain ⟨j, within, isNamed'', -, isInterface', written⟩ := describes.find?_interface member listed
      have onward := (ih within isNamed'').2 isInterface'
      rw [DeclSymbol.name, isNamed''] at onward
      exact ⟨fun _ => ⟨d, mem_ancestors_self describes member, m.name, written, onward⟩,
        fun _ => onward.head ⟨d, member, rfl, written⟩⟩

/-- An interface that a class can be seen as is one that it implements. -/
theorem implements_of_viewAs (describes : r.Describes p) (member : d ∈ r) (isClass : d.nominal.isInterface = false)
    (isInterface : i.nominal.isInterface = true) {args view : List Ty}
    (viewed : r.table.viewAs d.nominal args i.nominal = some view) : r.Implements d i.name :=
  (implements_of_inherits describes isInterface (inherits_of_search viewed) member rfl).1 isClass

/-! ## Collecting methods -/

/-- The names of the methods that a walk has found. -/
def MethodWalk.names (w : MethodWalk) : List String := w.found.map (·.method.name)

/-- Adds a method unless one of its name has been found. -/
def addMethod (s : Subst) (found : List Inherited) (m : MethodSymbol) : List Inherited :=
  if found.any fun i => i.method.name == m.name then found else found ++ [⟨m, s⟩]

theorem mem_addMethod {s : Subst} {m : MethodSymbol} {found : List Inherited} {x : Inherited}
    (member : x ∈ addMethod s found m) : x ∈ found ∨ x.method = m := by
  unfold addMethod at member
  split at member
  · exact .inl member
  · rcases List.mem_append.1 member with early | new
    · exact .inl early
    · rw [List.mem_singleton.1 new]
      exact .inr rfl

theorem names_addMethod (s : Subst) (m : MethodSymbol) (found : List Inherited) :
    found.map (·.method.name) ⊆ (addMethod s found m).map (·.method.name) ∧
      m.name ∈ (addMethod s found m).map (·.method.name) := by
  unfold addMethod
  split
  · next known =>
    obtain ⟨x, member, same⟩ := List.any_eq_true.1 known
    exact ⟨List.Subset.refl _, List.mem_map.2 ⟨x, member, eq_of_beq same⟩⟩
  · exact ⟨by simp, by simp⟩

theorem mem_addMethods {s : Subst} {methods : List MethodSymbol} {found : List Inherited} {x : Inherited}
    (member : x ∈ methods.foldl (addMethod s) found) : x ∈ found ∨ x.method ∈ methods := by
  induction methods generalizing found with
  | nil => exact .inl member
  | cons m methods ih =>
    rcases ih member with early | late
    · rcases mem_addMethod early with early | rfl
      · exact .inl early
      · exact .inr List.mem_cons_self
    · exact .inr (List.mem_cons_of_mem _ late)

theorem names_addMethods (s : Subst) (methods : List MethodSymbol) (found : List Inherited) :
    found.map (·.method.name) ⊆ (methods.foldl (addMethod s) found).map (·.method.name) ∧
      ∀ m ∈ methods, m.name ∈ (methods.foldl (addMethod s) found).map (·.method.name) := by
  induction methods generalizing found with
  | nil => exact ⟨List.Subset.refl _, by simp⟩
  | cons m methods ih =>
    obtain ⟨kept, taken⟩ := names_addMethod s m found
    obtain ⟨grows, all⟩ := ih (addMethod s found m)
    refine ⟨List.Subset.trans kept grows, fun m' member => ?_⟩
    rcases List.mem_cons.1 member with rfl | member
    · exact grows taken
    · exact all m' member

/-- One step of a walk: on to an interface that is named. -/
def walkStep (r : Registry) (fuel : Nat) (s : Subst) (w : MethodWalk) (super : Nominal × List Ty) : MethodWalk :=
  match r.find? super.1.name with
  | some i =>
    if i.nominal.isInterface then r.walkMethods fuel i (Subst.ofLists i.params (Ty.applyAll s super.2)) w else w
  | none => w

theorem walkMethods_unvisited (fuel : Nat) {s : Subst} {w : MethodWalk} (unvisited : d.name ∉ w.visited) :
    r.walkMethods (fuel + 1) d s w =
      d.interfaces.foldl (r.walkStep fuel s) ⟨d.name :: w.visited, d.methods.foldl (addMethod s) w.found⟩ := by
  simp only [walkMethods, List.contains_eq_mem, unvisited, decide_false, Bool.false_eq_true, if_false]
  rfl

theorem walkMethods_visited (fuel : Nat) {s : Subst} {w : MethodWalk} (visited : d.name ∈ w.visited) :
    r.walkMethods (fuel + 1) d s w = w := by
  simp [walkMethods, visited]

/-- A walk goes from one declaration to an interface that it names. -/
theorem walkStep_interface (describes : r.Describes p) (member : d ∈ r) {super : Nominal × List Ty}
    (isSuper : super ∈ d.interfaces) (fuel : Nat) (s : Subst) (w : MethodWalk) :
    ∃ i ∈ r, i.nominal = super.1 ∧ r.Extends d.name i.name ∧ ∃ s', r.walkStep fuel s w super = r.walkMethods fuel i s' w := by
  obtain ⟨i, within, isNamed, found, isInterface, written⟩ := describes.find?_interface member isSuper
  refine ⟨i, within, isNamed, ⟨d, member, rfl, ?_⟩, Subst.ofLists i.params (Ty.applyAll s super.2), ?_⟩
  · rw [DeclSymbol.name, isNamed]
    exact written
  · rw [walkStep, found]
    exact if_pos (isNamed ▸ isInterface)

/-- What a walk finds are methods of interfaces that it has come to. -/
theorem walkMethods_mem (describes : r.Describes p) {fuel : Nat} (member : d ∈ r) {s : Subst} {w : MethodWalk}
    {x : Inherited} (found : x ∈ (r.walkMethods fuel d s w).found) :
    x ∈ w.found ∨ ∃ holder ∈ r, Relation.ReflTransGen r.Extends d.name holder.name ∧ x.method ∈ holder.methods := by
  induction fuel generalizing d s w with
  | zero => exact .inl found
  | succ fuel ih =>
    by_cases visited : d.name ∈ w.visited
    · rw [walkMethods_visited fuel visited] at found
      exact .inl found
    · rw [walkMethods_unvisited fuel visited] at found
      -- along the interfaces that are named, each walk adds what it comes to
      have folded (supers : List (Nominal × List Ty)) (w' : MethodWalk) (within : supers ⊆ d.interfaces)
          (found : x ∈ (supers.foldl (r.walkStep fuel s) w').found) :
          x ∈ w'.found ∨
            ∃ holder ∈ r, Relation.ReflTransGen r.Extends d.name holder.name ∧ x.method ∈ holder.methods := by
        induction supers generalizing w' with
        | nil => exact .inl found
        | cons super supers next =>
          rw [List.foldl_cons] at found
          rcases next _ (List.subset_of_cons_subset within) found with early | late
          · obtain ⟨i, declared, -, edge, s', same⟩ :=
              walkStep_interface describes member (within List.mem_cons_self) fuel s w'
            rw [same] at early
            rcases ih declared early with early | ⟨holder, inside, path, isOwn⟩
            · exact .inl early
            · exact .inr ⟨holder, inside, path.head edge, isOwn⟩
          · exact .inr late
      rcases folded d.interfaces _ (List.Subset.refl _) found with own | other
      · rcases mem_addMethods own with early | isOwn
        · exact .inl early
        · exact .inr ⟨d, member, .refl, isOwn⟩
      · exact .inr other

/-- A walk has found the methods of an interface, and has come to those that it extends. -/
def Walked (r : Registry) (w : MethodWalk) (name : String) : Prop :=
  ∀ d ∈ r, d.name = name → (∀ m ∈ d.methods, m.name ∈ w.names) ∧ ∀ super ∈ d.interfaces, super.1.name ∈ w.visited

/-- A walk went on, and has walked all that is new. -/
structure Advances (r : Registry) (w w' : MethodWalk) : Prop where
  grows : w.visited ⊆ w'.visited
  keeps : w.names ⊆ w'.names
  walked : ∀ n ∈ w'.visited, n ∉ w.visited → r.Walked w' n

theorem Walked.mono {w w' : MethodWalk} {name : String} (walked : r.Walked w name) (visited : w.visited ⊆ w'.visited)
    (names : w.names ⊆ w'.names) : r.Walked w' name := fun d member same =>
  ⟨fun m isOwn => names ((walked d member same).1 m isOwn), fun super isSuper =>
    visited ((walked d member same).2 super isSuper)⟩

theorem Advances.refl (r : Registry) (w : MethodWalk) : r.Advances w w :=
  ⟨List.Subset.refl _, List.Subset.refl _, fun _ member unvisited => absurd member unvisited⟩

theorem Advances.trans {a b c : MethodWalk} (first : r.Advances a b) (second : r.Advances b c) : r.Advances a c := by
  refine ⟨List.Subset.trans first.grows second.grows, List.Subset.trans first.keeps second.keeps,
    fun n member unvisited => ?_⟩
  by_cases early : n ∈ b.visited
  · exact (first.walked n early unvisited).mono second.grows second.keeps
  · exact second.walked n member early

/-- How many declarations a walk has not visited. -/
def unwalked (r : Registry) (visited : List String) : Nat := r.countP fun d => !visited.contains d.name

theorem unwalked_le {a b : List String} (grows : a ⊆ b) : r.unwalked b ≤ r.unwalked a := by
  refine List.countP_mono_left fun d _ fresh => ?_
  simp only [List.contains_eq_mem, Bool.not_eq_true', decide_eq_false_iff_not] at fresh ⊢
  exact fun member => fresh (grows member)

theorem unwalked_cons {visited : List String} (member : d ∈ r) (unvisited : d.name ∉ visited) :
    r.unwalked (d.name :: visited) < r.unwalked visited := by
  obtain ⟨before, after, rfl⟩ := List.append_of_mem member
  have fewer (rest : Registry) : rest.unwalked (d.name :: visited) ≤ rest.unwalked visited :=
    unwalked_le (List.subset_cons_self _ _)
  have left := fewer before
  have right := fewer after
  unfold unwalked at left right ⊢
  rw [List.countP_append, List.countP_append, List.countP_cons_of_neg (by simp),
    List.countP_cons_of_pos (by simpa using unvisited)]
  omega

/-- With a bound beyond the declarations that are left, a walk comes to all that there is. -/
theorem walkMethods_advances (describes : r.Describes p) {fuel : Nat} (member : d ∈ r) (s : Subst) {w : MethodWalk}
    (enough : r.unwalked w.visited < fuel) :
    r.Advances w (r.walkMethods fuel d s w) ∧ d.name ∈ (r.walkMethods fuel d s w).visited := by
  induction fuel generalizing d s w with
  | zero => exact absurd enough (Nat.not_lt_zero _)
  | succ fuel ih =>
    by_cases visited : d.name ∈ w.visited
    · rw [walkMethods_visited fuel visited]
      exact ⟨.refl r w, visited⟩
    · rw [walkMethods_unvisited fuel visited]
      have folded (supers : List (Nominal × List Ty)) (w' : MethodWalk) (within : supers ⊆ d.interfaces)
          (enough : r.unwalked w'.visited < fuel) :
          r.Advances w' (supers.foldl (r.walkStep fuel s) w') ∧
            ∀ super ∈ supers, super.1.name ∈ (supers.foldl (r.walkStep fuel s) w').visited := by
        induction supers generalizing w' with
        | nil => exact ⟨.refl r w', by simp⟩
        | cons super supers next =>
          obtain ⟨i, declared, isNamed, -, s', same⟩ :=
            walkStep_interface describes member (within List.mem_cons_self) fuel s w'
          obtain ⟨first, here⟩ := ih declared s' enough
          obtain ⟨rest, all⟩ := next _ (List.subset_of_cons_subset within)
            (Nat.lt_of_le_of_lt (unwalked_le first.grows) enough)
          rw [List.foldl_cons, same]
          refine ⟨first.trans rest, fun other isOther => ?_⟩
          rcases List.mem_cons.1 isOther with rfl | isOther
          · rw [← isNamed]
            exact rest.grows here
          · exact all other isOther
      have fewer := unwalked_cons member visited
      obtain ⟨advances, all⟩ := folded d.interfaces ⟨d.name :: w.visited, d.methods.foldl (addMethod s) w.found⟩
        (List.Subset.refl _) (by simpa using by omega)
      have here := advances.grows (List.mem_cons_self (a := d.name))
      have own := names_addMethods s d.methods w.found
      refine ⟨⟨fun n early => advances.grows (List.mem_cons_of_mem _ early), List.Subset.trans own.1 advances.keeps,
        fun n late unvisited => ?_⟩, here⟩
      by_cases same : n = d.name
      · intro e declared named
        obtain rfl : e = d := List.inj_on_of_nodup_map describes.registered.distinct declared member (named.trans same)
        exact ⟨fun m isOwn => advances.keeps (own.2 m isOwn), all⟩
      · exact advances.walked n late (by simp [same, unvisited])

/-- The methods of an interface and of all those it extends: one of every name. -/
theorem allMethods_names (describes : r.Describes p) (member : d ∈ r) (args : List Ty) (name : String) :
    (∃ x ∈ r.allMethods d args, x.method.name = name) ↔
      ∃ holder ∈ r, Relation.ReflTransGen r.Extends d.name holder.name ∧ ∃ m ∈ holder.methods, m.name = name := by
  constructor
  · rintro ⟨x, found, rfl⟩
    rcases walkMethods_mem describes member found with early | ⟨holder, inside, path, isOwn⟩
    · cases early
    · exact ⟨holder, inside, path, x.method, isOwn, rfl⟩
  · rintro ⟨holder, inside, path, m, isOwn, rfl⟩
    have enough : r.unwalked [] < r.length + 1 := Nat.lt_succ_of_le List.countP_le_length
    obtain ⟨advances, here⟩ := walkMethods_advances describes member (Subst.ofLists d.params args) (w := ⟨[], []⟩) enough
    have reached {n : String} (path : Relation.ReflTransGen r.Extends d.name n) :
        n ∈ (r.walkMethods (r.length + 1) d (Subst.ofLists d.params args) ⟨[], []⟩).visited := by
      induction path with
      | refl => exact here
      | tail _ edge ih =>
        obtain ⟨e, declared, rfl, written⟩ := edge
        obtain ⟨args, isSuper⟩ := describes.mem_interfaces declared written
        exact (advances.walked _ ih List.not_mem_nil e declared rfl).2 _ isSuper
    have found := (advances.walked _ (reached path) List.not_mem_nil holder inside rfl).1 m isOwn
    exact List.mem_map.1 found

end Registry

end ClassScript
