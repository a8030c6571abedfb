import Mathlib.Data.List.Perm.Subperm
import ClassScript.Proofs.Conducted
import ClassScript.Proofs.Headers

/-!
Lines of superclasses. The declarations of an accepted program inherit from one another without coming back,
so the bound and the visited names of the search for superclasses cut nothing off (`line_ancestors`). A class
that has been built with all its superclasses has the same line at run time (`represents_ancestors`), and finds
along it the methods that typing finds (`ownMethod_decl`).
-/

namespace ClassScript

open Evaluation

namespace Registry

variable {r : Registry} {p : LinkedProgram} {d e : DeclSymbol} {ds es : List DeclSymbol}

/-- A class and its superclasses, nearest first, as their headings name them. -/
inductive Line (r : Registry) : DeclSymbol → List DeclSymbol → Prop
  | root {d : DeclSymbol} : d.parent = none → Line r d [d]
  | step {d parent : DeclSymbol} {n : Nominal} {args : List Ty} {ds : List DeclSymbol} :
    d.parent = some (n, args) → r.find? n.name = some parent → Line r parent ds → Line r d (d :: ds)

theorem Line.unique (first : r.Line d ds) (second : r.Line d es) : ds = es := by
  induction first generalizing es with
  | root isRoot =>
    cases second with
    | root => rfl
    | step hasParent => rw [isRoot] at hasParent; cases hasParent
  | step hasParent found _ ih =>
    cases second with
    | root isRoot => rw [isRoot] at hasParent; cases hasParent
    | step hasParent' found' rest =>
      rw [hasParent] at hasParent'
      cases hasParent'
      rw [found] at found'
      cases found'
      rw [ih rest]

/-- The line of a superclass is the end of the line of the class. -/
theorem Line.suffix (line : r.Line d ds) (member : e ∈ ds) : ∃ es, r.Line e es ∧ es <:+ ds := by
  induction line with
  | root isRoot =>
    cases List.mem_singleton.1 member
    exact ⟨_, .root isRoot, List.suffix_rfl⟩
  | step hasParent found rest ih =>
    rcases List.mem_cons.1 member with rfl | member
    · exact ⟨_, .step hasParent found rest, List.suffix_rfl⟩
    · obtain ⟨es, line, within⟩ := ih member
      exact ⟨es, line, within.trans (List.suffix_cons _ _)⟩

/-- A superclass that is declared is found under its name. -/
theorem Describes.find?_parent (describes : r.Describes p) (member : d ∈ r) {n : Nominal} {args : List Ty}
    (hasParent : d.parent = some (n, args)) : ∃ parent ∈ r, parent.nominal = n ∧ r.find? n.name = some parent := by
  obtain ⟨parent, within, rfl⟩ := List.mem_map.1 ((describes.headed d member).known n (by simp [hasParent]))
  exact ⟨parent, within, rfl, find?_of_mem describes.registered.distinct within⟩

/-- Following supertypes does not come back, so a class has a line, and meets no class on it twice. -/
theorem line_of_returns (describes : r.Describes p) {fuel : Nat} {path : List Nominal} (member : d ∈ r)
    (ends : r.returns fuel path d.nominal = false) :
    ∃ ds, r.Line d ds ∧ (ds.map (·.nominal)).Nodup ∧ ∀ e ∈ ds, e ∈ r ∧ e.nominal ∉ path := by
  induction fuel generalizing d path with
  | zero => cases ends
  | succ fuel ih =>
    have found : r.find? d.nominal.name = some d := find?_of_mem describes.registered.distinct member
    simp only [returns, found, Bool.or_eq_false_iff, List.contains_eq_mem, decide_eq_false_iff_not] at ends
    obtain ⟨fresh, supers⟩ := ends
    cases hasParent : d.parent with
    | none => exact ⟨[d], .root hasParent, by simp, by simpa using ⟨member, fresh⟩⟩
    | some parent =>
      obtain ⟨n, args⟩ := parent
      obtain ⟨parent, within, rfl, found'⟩ := describes.find?_parent member hasParent
      have onward : r.returns fuel (d.nominal :: path) parent.nominal = false := by
        have isSuper : Ty.ref parent.nominal args ∈ d.supers := by simp [DeclSymbol.supers, hasParent]
        simpa using List.any_eq_false.1 supers _ isSuper
      obtain ⟨ds, line, distinct, all⟩ := ih within onward
      refine ⟨d :: ds, .step hasParent found' line, ?_, ?_⟩
      · rw [List.map_cons, List.nodup_cons]
        refine ⟨fun again => ?_, distinct⟩
        obtain ⟨e, inLine, same⟩ := List.mem_map.1 again
        exact (all e inLine).2 (same ▸ List.mem_cons_self)
      · intro e inLine
        rcases List.mem_cons.1 inLine with rfl | inLine
        · exact ⟨member, fresh⟩
        · exact ⟨(all e inLine).1, fun onPath => (all e inLine).2 (List.mem_cons_of_mem _ onPath)⟩

/-- Neither the bound nor the visited names cut a line of distinct names off. -/
theorem ancestorsFrom_of_line (line : r.Line d ds) {fuel : Nat} {seen : List String}
    (distinct : (ds.map (·.name)).Nodup) (fresh : ∀ e ∈ ds, e.name ∉ seen) (enough : ds.length ≤ fuel) :
    r.ancestorsFrom fuel seen d = ds := by
  induction line generalizing fuel seen with
  | root isRoot =>
    obtain ⟨fuel, rfl⟩ := Nat.exists_eq_add_of_le' enough
    have unseen := fresh _ List.mem_cons_self
    simp [ancestorsFrom, unseen, isRoot]
  | @step d parent n args ds hasParent found rest ih =>
    obtain ⟨fuel, rfl⟩ := Nat.exists_eq_add_of_le' (Nat.le_trans (Nat.le_add_left 1 ds.length) enough)
    have unseen := fresh d List.mem_cons_self
    rw [List.map_cons, List.nodup_cons] at distinct
    have onward : r.ancestorsFrom fuel (d.name :: seen) parent = ds :=
      ih distinct.2 (fun e member again => ?_) (by simpa using enough)
    · simp [ancestorsFrom, unseen, hasParent, found, onward]
    · rcases List.mem_cons.1 again with same | again
      · exact distinct.1 (same ▸ List.mem_map_of_mem member)
      · exact fresh e (List.mem_cons_of_mem _ member) again

/-- The superclasses of a class are its line, which has distinct names. -/
theorem line_ancestors (describes : r.Describes p) (member : d ∈ r) :
    r.Line d (r.ancestors d) ∧ ((r.ancestors d).map (·.name)).Nodup ∧ r.ancestors d ⊆ r := by
  obtain ⟨ds, line, distinct, all⟩ := line_of_returns describes member (describes.acyclic d member)
  have within : ds ⊆ r := fun e inLine => (all e inLine).1
  have names : (ds.map (·.name)).Nodup := by
    have only := List.inj_on_of_nodup_map describes.registered.distinct
    exact (List.Nodup.of_map _ distinct).map_on fun a inA b inB => only (within inA) (within inB)
  have length : ds.length ≤ r.length := (List.subperm_of_subset (List.Nodup.of_map _ distinct) within).length_le
  have same : r.ancestors d = ds :=
    ancestorsFrom_of_line line names (fun e _ => List.not_mem_nil) (Nat.le_succ_of_le length)
  rw [same]
  exact ⟨line, names, within⟩

/-- The superclasses of a superclass come last among those of the class. -/
theorem ancestors_suffix (describes : r.Describes p) (member : d ∈ r) (above : e ∈ r.ancestors d) :
    r.ancestors e <:+ r.ancestors d := by
  obtain ⟨line, -, within⟩ := line_ancestors describes member
  obtain ⟨es, line', isSuffix⟩ := line.suffix above
  rw [(line_ancestors describes (within above)).1.unique line']
  exact isSuffix

end Registry

/-- No declaration has an empty name, as none can be written. -/
def LinkedProgram.Named (p : LinkedProgram) : Prop := ∀ d ∈ p.declarations, d.2.name.text ≠ ""

instance (p : LinkedProgram) : Decidable p.Named := inferInstanceAs (Decidable (∀ d ∈ p.declarations, _))

theorem named_of_describes {p : LinkedProgram} {r : Registry} (describes : r.Describes p) (named : p.Named) :
    ∀ d ∈ r, d.name ≠ "" := by
  intro d member
  rw [DeclSymbol.name, describes.registered.nominal d member]
  refine named (d.file, d.decl) ?_
  rw [← describes.registered.declared]
  exact List.mem_map_of_mem member

namespace Evaluation

variable {p : LinkedProgram} {r : Registry} {clock : Float} {s : State} {d : DeclSymbol} {ds : List DeclSymbol}
  {id : Nat} {name : String}

/-! ## Lines at run time -/

/-- A class and its superclasses have their members. -/
def State.Built (s : State) (id : Nat) : Prop :=
  ∀ fuel, ∀ c ∈ s.heap.chainFrom fuel id, (s.heap.cls c).hasMembers = true

theorem chainFrom_orphan (orphan : (s.heap.cls id).parent = none) (fuel : Nat) :
    s.heap.chainFrom (fuel + 1) id = [id] := by
  rw [Heap.chainFrom, orphan]

theorem chainFrom_parent {parent : Nat} (isParent : (s.heap.cls id).parent = some parent) (fuel : Nat) :
    s.heap.chainFrom (fuel + 1) id = id :: s.heap.chainFrom fuel parent := by
  rw [Heap.chainFrom, isParent]

theorem State.Built.here (built : s.Built id) : (s.heap.cls id).hasMembers = true :=
  built 1 id (by rw [Heap.chainFrom]; exact List.mem_cons_self)

theorem State.Built.parent (built : s.Built id) {parent : Nat} (isParent : (s.heap.cls id).parent = some parent) :
    s.Built parent := by
  intro fuel c member
  refine built (fuel + 1) c ?_
  rw [chainFrom_parent isParent]
  exact List.mem_cons_of_mem _ member

/-- If all classes have their members, every class is built. -/
theorem built_of_all {w : World} (orderly : Orderly w s)
    (all : ∀ (id : Nat) (c : ClassDef), s.heap.classes[id]? = some c → c.hasMembers = true)
    (names : s.Names id name) : s.Built id := by
  intro fuel
  induction fuel generalizing id name with
  | zero => exact fun c member => absurd member List.not_mem_nil
  | succ fuel ih =>
    obtain ⟨c, found, -⟩ := names
    have same : s.heap.cls id = c := by rw [Heap.cls, found]; rfl
    have here : (s.heap.cls id).hasMembers = true := same ▸ all id c found
    cases parent : (s.heap.cls id).parent with
    | none =>
      rw [chainFrom_orphan parent]
      intro c member
      rw [List.mem_singleton.1 member]
      exact here
    | some q =>
      obtain ⟨name', -, names'⟩ := (orderly.classes (same ▸ found)).parent parent
      rw [chainFrom_parent parent]
      intro c member
      rcases List.mem_cons.1 member with rfl | member
      · exact here
      · exact ih names' c member

/-- The class of that number was built from a symbol, and has the members that were written. -/
structure Represents (s : State) (id : Nat) (d : DeclSymbol) : Prop where
  name : (s.heap.cls id).name = d.name
  decl : (s.heap.cls id).decl = d.decl
  members : (s.heap.cls id).hasMembers = true
  interfaces : (s.heap.cls id).interfaces = interfaceNames d.decl
  membered : Membered d

/-- A class is built from the symbol of its name. -/
theorem represents_of_names (describes : r.Describes p) (orderly : Orderly (.ofProgram p clock) s) (member : d ∈ r)
    (names : s.Names id d.name) (members : (s.heap.cls id).hasMembers = true) : Represents s id d := by
  have found := classes_of_hasMembers members
  have arranged := orderly.classes found
  obtain ⟨c, found', named⟩ := names
  obtain rfl := Option.some.inj (found'.symm.trans found)
  have isName : d.name = d.decl.name.text := congrArg Nominal.name (describes.registered.nominal d member)
  have declared : (d.file, d.decl) ∈ p.declarations := by
    rw [← describes.registered.declared]
    exact List.mem_map_of_mem member
  have known := arranged.declared
  rw [named, isName, World.class?, declaration?_of_mem describes.registered declared] at known
  have decl : (s.heap.cls id).decl = d.decl :=
    (congrArg Prod.snd (Option.some.inj ((Option.filter_eq_some_iff.1 known).1))).symm
  exact ⟨named, decl, members, decl ▸ (arranged.finished members).2, describes.membered d member⟩

/-- A class that is built has the superclass of its symbol. -/
theorem superclass_of_built (describes : r.Describes p) (named : ∀ d ∈ r, d.name ≠ "")
    (orderly : Orderly (.ofProgram p clock) s) (member : d ∈ r) (names : s.Names id d.name) (built : s.Built id)
    {n : Nominal} {args : List Ty} {superclass : DeclSymbol} (hasParent : d.parent = some (n, args))
    (found : r.find? n.name = some superclass) :
    ∃ q, (s.heap.cls id).parent = some q ∧ s.Names q superclass.name := by
  have represents := represents_of_names describes orderly member names built.here
  have arranged := orderly.classes (classes_of_hasMembers built.here)
  have heading : superclassName? (s.heap.cls id).decl = some superclass.name := by
    have heading := (describes.headed d member).parent
    rw [hasParent, Option.map_some, eq_comm] at heading
    obtain ⟨name, written, rfl⟩ := Option.map_eq_some_iff.1 heading
    rw [represents.decl, written, Registry.find?_name found]
  have isNamed : superclass.name ≠ "" := named superclass (Registry.mem_of_find? found)
  obtain ⟨q, isParent⟩ := Option.isSome_iff_exists.1 ((arranged.finished built.here).1 _ heading isNamed)
  obtain ⟨name, written, names'⟩ := arranged.parent isParent
  obtain rfl := Option.some.inj (heading.symm.trans written)
  exact ⟨q, isParent, names'⟩

/-- A class that is built has the line of its symbol. -/
theorem represents_line (describes : r.Describes p) (named : ∀ d ∈ r, d.name ≠ "")
    (orderly : Orderly (.ofProgram p clock) s) (line : r.Line d ds) (within : ds ⊆ r) (names : s.Names id d.name)
    (built : s.Built id) {fuel : Nat} (enough : ds.length ≤ fuel) :
    List.Forall₂ (Represents s) (s.heap.chainFrom fuel id) ds := by
  induction line generalizing id fuel with
  | @root d isRoot =>
    obtain ⟨fuel, rfl⟩ := Nat.exists_eq_add_of_le' enough
    have member := within List.mem_cons_self
    have first := represents_of_names describes orderly member names built.here
    have orphan : (s.heap.cls id).parent = none := by
      have heading := (describes.headed d member).parent
      rw [isRoot, Option.map_none, eq_comm, Option.map_eq_none_iff] at heading
      rw [Option.eq_none_iff_forall_ne_some]
      intro q isParent
      obtain ⟨name, written, -⟩ := (orderly.classes (classes_of_hasMembers built.here)).parent isParent
      rw [first.decl, heading] at written
      cases written
    show List.Forall₂ (Represents s) (s.heap.chainFrom (fuel + 1) id) [d]
    rw [chainFrom_orphan orphan]
    exact .cons first .nil
  | @step d parent n args ds hasParent found rest ih =>
    obtain ⟨fuel, rfl⟩ := Nat.exists_eq_add_of_le' (Nat.le_trans (Nat.le_add_left 1 ds.length) enough)
    have member := within List.mem_cons_self
    have first := represents_of_names describes orderly member names built.here
    obtain ⟨q, isParent, names'⟩ := superclass_of_built describes named orderly member names built hasParent found
    rw [chainFrom_parent isParent]
    exact .cons first (ih (fun e inLine => within (List.mem_cons_of_mem _ inLine)) names' (built.parent isParent)
      (by simpa using enough))

/-- Classes with distinct names are no more than there are classes. -/
private theorem length_le_size {ids : List Nat} (represents : List.Forall₂ (Represents s) ids ds)
    (distinct : (ds.map (·.name)).Nodup) : ds.length ≤ s.heap.classes.size := by
  have names : ids.map (fun c => (s.heap.cls c).name) = ds.map (·.name) := by
    induction represents with
    | nil => rfl
    | cons first _ ih =>
      rw [List.map_cons, List.map_cons, first.name, ih (List.nodup_cons.1 distinct).2]
  have inside : ∀ id ∈ ids, id < s.heap.classes.size := by
    intro id member
    obtain ⟨i, bound, rfl⟩ := List.mem_iff_getElem.1 member
    have built := (List.forall₂_iff_get.1 represents).2 i bound (represents.length_eq ▸ bound)
    exact (Array.getElem?_eq_some_iff.1 (classes_of_hasMembers built.members)).1
  have fewer := (List.Nodup.of_map _ (names ▸ distinct : (ids.map _).Nodup)).subperm
    fun id member => List.mem_range.2 (inside id member)
  rw [← represents.length_eq]
  simpa using fewer.length_le

/-- A class that is built has the superclasses of its symbol. -/
theorem represents_ancestors (describes : r.Describes p) (named : ∀ d ∈ r, d.name ≠ "")
    (orderly : Orderly (.ofProgram p clock) s) (member : d ∈ r) (names : s.Names id d.name) (built : s.Built id) :
    List.Forall₂ (Represents s) (s.heap.chain id) (r.ancestors d) := by
  obtain ⟨line, distinct, within⟩ := Registry.line_ancestors describes member
  have bounded := length_le_size (represents_line describes named orderly line within names built (Nat.le_refl _)) distinct
  exact represents_line describes named orderly line within names built bounded

/-! ## Methods along a line -/

/-- The nearest method of that name along the superclasses of a class. -/
def State.ownMethod? (s : State) (cls : Nat) (name : String) : Option FoundMethod :=
  (s.heap.chain cls).findSome? fun c =>
    ((s.heap.cls c).method? name).bind fun m =>
      if m.isConstructor then none else some (⟨m, some c⟩ : FoundMethod)

/-- A method along the superclasses comes before those of interfaces. -/
theorem method?_of_own {cls : Nat} {m : FoundMethod} (own : s.ownMethod? cls name = some m) :
    s.method? cls name = some m := by
  unfold State.ownMethod? at own
  simp only [State.method?, own]
  rfl

/-- A method along the superclasses belongs to one of them. -/
theorem owner_of_ownMethod? {cls : Nat} {m : FoundMethod} (own : s.ownMethod? cls name = some m) :
    ∃ owner ∈ s.heap.chain cls, m.owner = some owner := by
  obtain ⟨owner, inChain, own⟩ := List.exists_of_findSome?_eq_some own
  obtain ⟨written, -, same⟩ := Option.bind_eq_some_iff.1 own
  split at same
  · cases same
  · cases same
    exact ⟨owner, inChain, rfl⟩

/-- Two searches along related lists find the same, if they do for related items. -/
private theorem findSome?_related {α β γ δ ε : Type} {R : α → β → Prop} {f : α → Option γ} {g : β → Option δ}
    {u : γ → ε} {v : δ → ε} (each : ∀ a b, R a b → (f a).map u = (g b).map v) {as : List α} {bs : List β}
    (related : List.Forall₂ R as bs) : (as.findSome? f).map u = (bs.findSome? g).map v := by
  induction related with
  | nil => rfl
  | @cons a b as bs first _ ih =>
    have same := each a b first
    rw [List.findSome?_cons, List.findSome?_cons]
    cases found : f a with
    | none =>
      rw [found, Option.map_none, eq_comm, Option.map_eq_none_iff] at same
      rw [same]
      exact ih
    | some c =>
      rw [found, Option.map_some, eq_comm] at same
      obtain ⟨c', found', -⟩ := Option.map_eq_some_iff.1 same
      rw [found'] at same ⊢
      exact same.symm

/-- Among symbols of what was written, the one of a name is that of what was written under it. -/
private theorem find?_decl {α β : Type} {R : α → β → Prop} {key : α → String} {key' : β → String} {decl : β → α}
    (each : ∀ a b, R a b → decl b = a ∧ key' b = key a) {written : List α} {symbols : List β}
    (symbolize : List.Forall₂ R written symbols) (name : String) :
    (symbols.find? fun b => key' b == name).map decl = written.find? fun a => key a == name := by
  induction symbolize with
  | nil => rfl
  | @cons a b _ _ first _ ih =>
    obtain ⟨same, named⟩ := each a b first
    rw [List.find?_cons, List.find?_cons, named]
    split
    · rw [Option.map_some, same]
    · exact ih

/-- The method of a symbol is the one that was written under its name. -/
theorem method?_decl (membered : Membered d) (name : String) :
    (d.method? name).map (·.decl) = d.decl.methods.find? fun m => m.name.text == name :=
  find?_decl (fun _ _ symbolizes => ⟨symbolizes.decl, symbolizes.name⟩) membered.methods name

/-- The field of a symbol is the one that was written under its name. -/
theorem field?_decl (membered : Membered d) (name : String) :
    (d.field? name).map (·.decl) = d.decl.fields.find? fun f => f.name.text == name :=
  find?_decl (fun _ _ symbolizes => ⟨symbolizes.decl, symbolizes.name⟩) membered.fields name

/-- A class that is built finds along its superclasses the method that typing finds. -/
theorem ownMethod_decl (describes : r.Describes p) (named : ∀ d ∈ r, d.name ≠ "")
    (orderly : Orderly (.ofProgram p clock) s) (member : d ∈ r) (names : s.Names id d.name) (built : s.Built id)
    (name : String) : (s.ownMethod? id name).map (·.decl) = (r.classMethod? d name).map (·.decl) := by
  refine findSome?_related (fun c e represents => ?_) (represents_ancestors describes named orderly member names built)
  have written := method?_decl represents.membered name
  rw [ClassDef.method?, if_pos represents.members, represents.decl, ← written]
  cases e.method? name with
  | none => rfl
  | some m =>
    rw [Option.map_some, Option.bind_some, Option.filter_some, MethodSymbol.isConstructor]
    by_cases isConstructor : m.decl.isConstructor = true
    · simp [isConstructor]
    · simp [isConstructor]

/-- A class that is built finds along its superclasses the constructor that typing finds. -/
theorem constructor?_decl (describes : r.Describes p) (named : ∀ d ∈ r, d.name ≠ "")
    (orderly : Orderly (.ofProgram p clock) s) (member : d ∈ r) (names : s.Names id d.name) (built : s.Built id) :
    (s.constructor? id).map (·.decl) = (r.constructor? d).map (·.decl) := by
  refine findSome?_related (fun c e represents => ?_) (represents_ancestors describes named orderly member names built)
  rw [Option.map_map, ClassDef.method?, if_pos represents.members, represents.decl,
    ← method?_decl represents.membered Builtin.constructorName]
  cases e.method? Builtin.constructorName <;> rfl

end Evaluation

end ClassScript
