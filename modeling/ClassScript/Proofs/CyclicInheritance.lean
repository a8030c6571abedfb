import ClassScript.Proofs.InterfaceMethods

/-!
Declarations that inherit from themselves. A declaration is cyclic exactly if its supertypes lead to one that leads
back to itself (`Registry.isCyclic_iff`), so the check between the supertypes and the members of a program stops
exactly if its headings have a cycle (`Typing.cyclic_inheritance_is_rejected`). Behind the check no walk along
supertypes is endless: neither those that remember where they have been, nor the search for a field of an interface,
which does not (`Registry.walksEnd_of_acyclic`).
-/

namespace ClassScript

open Evaluation (superclassName? interfaceNames)

namespace LinkedProgram

variable (p : LinkedProgram)

/-- The heading of one declaration names another. -/
def NamesSuper (name super : String) : Prop :=
  ∃ d ∈ p.declarations, d.2.name.text = name ∧ (superclassName? d.2 = some super ∨ super ∈ interfaceNames d.2)

/-- Headings lead from a declaration to one that they lead back to. -/
def LeadsToCycle (name : String) : Prop :=
  ∃ n, Relation.ReflTransGen p.NamesSuper name n ∧ Relation.TransGen p.NamesSuper n n

end LinkedProgram

namespace Registry

variable {r : Registry} {p : LinkedProgram} {d e : DeclSymbol} {n m : Nominal}

/-! ## Supertypes that are known -/

/-- The symbols are those of a program, each with the supertypes of its heading. -/
structure Resolved (r : Registry) (p : LinkedProgram) : Prop where
  registered : Registered p.declarations r
  headed : ∀ d ∈ r, Headed r d

theorem Resolved.eq_of_name (resolved : r.Resolved p) (member : d ∈ r) (member' : e ∈ r) (same : d.name = e.name) :
    d = e := List.inj_on_of_nodup_map resolved.registered.distinct member member' same

/-- A declaration inherits from those that its heading names. -/
theorem Resolved.names_of_inherits (resolved : r.Resolved p) (inherits : r.Inherits n m) :
    p.NamesSuper n.name m.name ∧ m ∈ r.map (·.nominal) := by
  obtain ⟨d, member, rfl, isSuper⟩ := inherits
  have headed := resolved.headed d member
  have nominal := resolved.registered.nominal d member
  refine ⟨⟨(d.file, d.decl), ?_, ?_, ?_⟩, headed.known m isSuper⟩
  · rw [← resolved.registered.declared]
    exact List.mem_map_of_mem member
  · rw [nominal]
  · rcases List.mem_append.1 isSuper with isParent | isListed
    · obtain ⟨q, within, rfl⟩ := List.mem_map.1 isParent
      have parent := headed.parent
      rw [Option.mem_toList.1 within, Option.map_some, eq_comm] at parent
      obtain ⟨name, written, same⟩ := Option.map_eq_some_iff.1 parent
      rw [← same]
      exact .inl written
    · rw [headed.interfaces] at isListed
      obtain ⟨name, written, rfl⟩ := List.mem_map.1 isListed
      exact .inr written

/-- What a heading names is inherited from. -/
theorem Resolved.inherits_of_names (resolved : r.Resolved p) {super : String} (names : p.NamesSuper n.name super)
    (known : n ∈ r.map (·.nominal)) : ∃ m ∈ r.map (·.nominal), m.name = super ∧ r.Inherits n m := by
  obtain ⟨⟨file, decl⟩, declared, named, written⟩ := names
  rw [← resolved.registered.declared] at declared
  obtain ⟨d, member, same⟩ := List.mem_map.1 declared
  obtain ⟨rfl, rfl⟩ := Prod.mk.inj same
  obtain ⟨e, member', rfl⟩ := List.mem_map.1 known
  obtain rfl : d = e := by
    refine resolved.eq_of_name member member' ?_
    rw [DeclSymbol.name, resolved.registered.nominal d member]
    exact named
  have headed := resolved.headed d member
  obtain ⟨m, isSuper, same⟩ : ∃ m ∈ d.parent.toList.map (·.1) ++ d.interfaces.map (·.1), m.name = super := by
    rcases written with isParent | isListed
    · have parent := headed.parent
      rw [isParent, Option.map_some] at parent
      obtain ⟨q, within, isNamed⟩ := Option.map_eq_some_iff.1 parent
      refine ⟨q.1, List.mem_append_left _ (List.mem_map_of_mem (Option.mem_toList.2 within)), ?_⟩
      rw [isNamed]
    · refine ⟨⟨super, true⟩, List.mem_append_right _ ?_, rfl⟩
      rw [headed.interfaces]
      exact List.mem_map_of_mem isListed
  exact ⟨m, headed.known m isSuper, same, d, member, rfl, isSuper⟩

/-- Supertypes lead on as headings do. -/
theorem Resolved.path_of_names (resolved : r.Resolved p) {super : String} (known : n ∈ r.map (·.nominal))
    (path : Relation.TransGen p.NamesSuper n.name super) :
    ∃ m ∈ r.map (·.nominal), m.name = super ∧ Relation.TransGen r.Inherits n m := by
  induction path with
  | single names =>
    obtain ⟨m, inside, same, inherits⟩ := resolved.inherits_of_names names known
    exact ⟨m, inside, same, .single inherits⟩
  | tail _ names ih =>
    obtain ⟨m, inside, rfl, path⟩ := ih
    obtain ⟨m', inside', same, inherits⟩ := resolved.inherits_of_names names inside
    exact ⟨m', inside', same, path.tail inherits⟩

/-- A cycle of headings is one of supertypes. -/
theorem Resolved.cycle_of_names (resolved : r.Resolved p) (known : n ∈ r.map (·.nominal))
    (cycle : Relation.TransGen p.NamesSuper n.name n.name) : Relation.TransGen r.Inherits n n := by
  obtain ⟨m, inside, same, path⟩ := resolved.path_of_names known cycle
  obtain ⟨d, member, rfl⟩ := List.mem_map.1 known
  obtain ⟨e, member', rfl⟩ := List.mem_map.1 inside
  rwa [resolved.eq_of_name member' member same] at path

/-! ## Coming back -/

/-- A direct supertype is followed. -/
theorem mem_supers_iff : (∃ args, Ty.ref m args ∈ d.supers) ↔ m ∈ d.parent.toList.map (·.1) ++ d.interfaces.map (·.1) := by
  rw [← List.map_append]
  simp [DeclSymbol.supers, exists_or]

/-- Where following supertypes does not come back, it does not come back from any supertype either. -/
theorem returns_super {fuel : Nat} {path : List Nominal} (found : r.find? n.name = some d)
    (ends : r.returns (fuel + 1) path n = false) {args : List Ty} (isSuper : Ty.ref m args ∈ d.supers) :
    r.returns fuel (n :: path) m = false := by
  simp only [returns, found, Bool.or_eq_false_iff] at ends
  simpa using List.any_eq_false.1 ends.2 _ isSuper

/-- Where following supertypes does not come back, it comes to an end. -/
theorem Resolved.acc_of_returns (resolved : r.Resolved p) {fuel : Nat} {path : List Nominal}
    (known : n ∈ r.map (·.nominal)) (ends : r.returns fuel path n = false) :
    Acc (fun super n => r.Inherits n super) n := by
  induction fuel generalizing n path with
  | zero => cases ends
  | succ fuel ih =>
    refine Acc.intro n fun super inherits => ?_
    have inside := (resolved.names_of_inherits inherits).2
    obtain ⟨d, member, rfl, isSuper⟩ := inherits
    obtain ⟨args, isSuper⟩ := mem_supers_iff.2 isSuper
    have found : r.find? d.nominal.name = some d := find?_of_mem resolved.registered.distinct member
    exact ih inside (returns_super found ends isSuper)

/-- Where following supertypes comes back, there is a cycle. A way that is longer than there are declarations has met
one of them twice. -/
theorem Resolved.cycle_of_returns (resolved : r.Resolved p) {fuel : Nat} {path : List Nominal}
    (known : n ∈ r.map (·.nominal)) (distinct : path.Nodup) (inside : path ⊆ r.map (·.nominal))
    (leads : ∀ m ∈ path, Relation.TransGen r.Inherits m n) (enough : List.length r < path.length + fuel)
    (back : r.returns fuel path n = true) :
    ∃ m, Relation.ReflTransGen r.Inherits n m ∧ Relation.TransGen r.Inherits m m := by
  induction fuel generalizing n path with
  | zero =>
    have few := (List.subperm_of_subset distinct inside).length_le
    rw [List.length_map] at few
    omega
  | succ fuel ih =>
    by_cases met : n ∈ path
    · exact ⟨n, .refl, leads n met⟩
    · obtain ⟨d, member, rfl⟩ := List.mem_map.1 known
      have found : r.find? d.nominal.name = some d := find?_of_mem resolved.registered.distinct member
      have notMet : path.contains d.nominal = false := by simpa using met
      simp only [returns, found, notMet, Bool.false_or] at back
      obtain ⟨super, listed, back⟩ := List.any_eq_true.1 back
      cases super with
      | ref m args =>
        have isSuper := mem_supers_iff.1 ⟨args, listed⟩
        have inherits : r.Inherits d.nominal m := ⟨d, member, rfl, isSuper⟩
        obtain ⟨m', path', cycle⟩ := ih ((resolved.headed d member).known m isSuper)
          (List.nodup_cons.2 ⟨met, distinct⟩) (List.cons_subset.2 ⟨known, inside⟩)
          (List.forall_mem_cons.2 ⟨.single inherits, fun k onPath => (leads k onPath).tail inherits⟩)
          (by rw [List.length_cons]; omega) back
        exact ⟨m', path'.head inherits, cycle⟩
      | _ => cases back

/-- What comes to an end does not come back. -/
theorem not_cycle_of_acc (ends : Acc (fun super n => r.Inherits n super) n) : ¬ Relation.TransGen r.Inherits n n := by
  induction ends with
  | intro n _ ih =>
    intro cycle
    obtain ⟨super, inherits, back⟩ := Relation.TransGen.head'_iff.1 cycle
    exact ih super inherits (Relation.TransGen.tail' back inherits)

theorem acc_of_path (ends : Acc (fun super n => r.Inherits n super) n) (path : Relation.ReflTransGen r.Inherits n m) :
    Acc (fun super n => r.Inherits n super) m := by
  induction path with
  | refl => exact ends
  | tail _ inherits ih => exact ih.inv inherits

/-- A declaration is cyclic exactly if its heading leads to a cycle of headings. -/
theorem Resolved.isCyclic_iff (resolved : r.Resolved p) (member : d ∈ r) :
    r.isCyclic d = true ↔ p.LeadsToCycle d.name := by
  have known : d.nominal ∈ r.map (·.nominal) := List.mem_map_of_mem member
  constructor
  · intro back
    obtain ⟨m, path, cycle⟩ := resolved.cycle_of_returns known List.nodup_nil (List.nil_subset _) nofun
      (by simp) back
    have lift {a b : Nominal} (inherits : r.Inherits a b) := (resolved.names_of_inherits inherits).1
    exact ⟨m.name, path.lift (fun k : Nominal => k.name) fun _ _ inherits => lift inherits,
      cycle.lift (fun k : Nominal => k.name) fun _ _ inherits => lift inherits⟩
  · rintro ⟨name, path, cycle⟩
    by_contra ends
    rw [Bool.not_eq_true] at ends
    obtain ⟨m, inside, rfl, above⟩ : ∃ m ∈ r.map (·.nominal), m.name = name ∧
        Relation.ReflTransGen r.Inherits d.nominal m := by
      rcases Relation.reflTransGen_iff_eq_or_transGen.1 path with rfl | path
      · exact ⟨d.nominal, known, rfl, .refl⟩
      · obtain ⟨m, inside, same, above⟩ := resolved.path_of_names known path
        exact ⟨m, inside, same, above.to_reflTransGen⟩
    have acc := acc_of_path (resolved.acc_of_returns known ends) above
    exact not_cycle_of_acc acc (resolved.cycle_of_names inside cycle)

/-! ## Walks -/

variable (r) in
mutual

/-- The search for a field of an interface: its own field, or what is found along the interfaces that it extends. It has
a result exactly if the search comes to an end. -/
inductive FieldAbove (name : String) : DeclSymbol → Option FieldSymbol → Prop
  | own {d : DeclSymbol} {f : FieldSymbol} (isOwn : d.field? name = some f) : FieldAbove name d (some f)
  | above {d : DeclSymbol} {result : Option FieldSymbol} (lacks : d.field? name = none)
    (among : FieldAmong name d.interfaces result) : FieldAbove name d result

/-- The search for a field along interfaces, one after the other up to the first that has it. -/
inductive FieldAmong (name : String) : List (Nominal × List Ty) → Option FieldSymbol → Prop
  | nil : FieldAmong name [] none
  | skipped {super : Nominal × List Ty} {rest : List (Nominal × List Ty)} {result : Option FieldSymbol}
    (unknown : ∀ i, r.find? super.1.name = some i → i.nominal.isInterface = false)
    (further : FieldAmong name rest result) : FieldAmong name (super :: rest) result
  | found {super : Nominal × List Ty} {rest : List (Nominal × List Ty)} {i : DeclSymbol} {f : FieldSymbol}
    (known : r.find? super.1.name = some i) (isInterface : i.nominal.isInterface = true)
    (above : FieldAbove name i (some f)) : FieldAmong name (super :: rest) (some f)
  | missed {super : Nominal × List Ty} {rest : List (Nominal × List Ty)} {i : DeclSymbol} {result : Option FieldSymbol}
    (known : r.find? super.1.name = some i) (isInterface : i.nominal.isInterface = true)
    (above : FieldAbove name i none) (further : FieldAmong name rest result) : FieldAmong name (super :: rest) result

end

/-- No walk along supertypes is endless. Those that remember where they have been give the same whatever number of steps
beyond that of the declarations they may take; the search for a field of an interface, which does not, comes to the
result that is given. -/
structure WalksEnd (r : Registry) : Prop where
  grounded : WellFounded fun super n => r.Inherits n super
  superclasses : ∀ d ∈ r, ∀ fuel, List.length r < fuel → r.ancestorsFrom fuel [] d = r.ancestors d
  views : ∀ n args target fuel, List.length r < fuel →
    (r.table.search target fuel [] n args).2 = r.table.viewAs n args target
  methods : ∀ d ∈ r, ∀ args fuel, List.length r < fuel →
    (r.walkMethods fuel d (Subst.ofLists d.params args) ⟨[], []⟩).found = r.allMethods d args
  fields : ∀ d ∈ r, ∀ name, r.FieldAbove name d (r.interfaceField? d name)

/-- A supertype of a declaration that is known. -/
theorem returns_interface {fuel : Nat} {path : List Nominal} (found : r.find? n.name = some d)
    (ends : r.returns (fuel + 1) path n = false) {super : Nominal × List Ty} (isSuper : super ∈ d.interfaces) :
    r.returns fuel (n :: path) super.1 = false :=
  returns_super found ends (List.mem_map_of_mem (List.mem_append_right _ isSuper))

/-- A search along superclasses that do not come back takes no more steps than are needed to find that out. -/
theorem ancestorsFrom_stable {fuel : Nat} {path : List Nominal} (found : r.find? n.name = some d)
    (ends : r.returns fuel path n = false) (more : Nat) (seen : List String) :
    r.ancestorsFrom (fuel + more) seen d = r.ancestorsFrom fuel seen d := by
  induction fuel generalizing n d path seen with
  | zero => cases ends
  | succ fuel ih =>
    rw [Nat.succ_add, ancestorsFrom, ancestorsFrom]
    cases isParent : d.parent with
    | none => rfl
    | some super =>
      have isSuper : Ty.ref super.1 super.2 ∈ d.supers := by simp [DeclSymbol.supers, isParent]
      cases known : r.find? super.1.name with
      | none => simp only [Option.bind_some, known]
      | some parent => simp only [Option.bind_some, known, ih known (returns_super found ends isSuper)]

/-- So does a walk over interfaces. -/
theorem walkMethods_stable {fuel : Nat} {path : List Nominal} (found : r.find? n.name = some d)
    (ends : r.returns fuel path n = false) (more : Nat) (s : Subst) (w : MethodWalk) :
    r.walkMethods (fuel + more) d s w = r.walkMethods fuel d s w := by
  induction fuel generalizing n d path s w with
  | zero => cases ends
  | succ fuel ih =>
    rw [Nat.succ_add]
    by_cases visited : d.name ∈ w.visited
    · rw [walkMethods_visited _ visited, walkMethods_visited _ visited]
    · rw [walkMethods_unvisited _ visited, walkMethods_unvisited _ visited]
      refine List.foldl_ext _ _ _ fun w' super isSuper => ?_
      unfold walkStep
      cases known : r.find? super.1.name with
      | none => rfl
      | some i => simp only [ih known (returns_interface found ends isSuper)]

/-- A search along interfaces goes by what each of them has. -/
theorem fieldAmong_findSome {name : String} {field : Nominal × List Ty → Option FieldSymbol}
    (supers : List (Nominal × List Ty))
    (each : ∀ super ∈ supers,
      ((∀ i, r.find? super.1.name = some i → i.nominal.isInterface = false) ∧ field super = none) ∨
        ∃ i, r.find? super.1.name = some i ∧ i.nominal.isInterface = true ∧ r.FieldAbove name i (field super)) :
    r.FieldAmong name supers (supers.findSome? field) := by
  induction supers with
  | nil => exact .nil
  | cons super supers ih =>
    obtain ⟨here, rest⟩ := List.forall_mem_cons.1 each
    rw [List.findSome?_cons]
    rcases here with ⟨unknown, nothing⟩ | ⟨i, known, isInterface, above⟩
    · rw [nothing]
      exact .skipped unknown (ih rest)
    · cases result : field super with
      | none => exact .missed known isInterface (result ▸ above) (ih rest)
      | some f => exact .found known isInterface (result ▸ above)

/-- The search for a field comes to an end where supertypes do not come back. -/
theorem fieldAbove_of_returns {fuel : Nat} {path : List Nominal} (found : r.find? n.name = some d)
    (ends : r.returns fuel path n = false) (name : String) :
    r.FieldAbove name d (r.interfaceFieldFrom name fuel d) := by
  induction fuel generalizing n d path with
  | zero => cases ends
  | succ fuel ih =>
    rw [interfaceFieldFrom]
    cases own : d.field? name with
    | some f => exact .own own
    | none =>
      refine .above own (fieldAmong_findSome d.interfaces fun super isSuper => ?_)
      cases known : r.find? super.1.name with
      | none => exact .inl ⟨nofun, by simp only [known]⟩
      | some i =>
        cases isInterface : i.nominal.isInterface with
        | false => exact .inl ⟨fun _ same => Option.some.inj same ▸ isInterface, by simp [known, isInterface]⟩
        | true =>
          refine .inr ⟨i, rfl, isInterface, ?_⟩
          simp only [known, isInterface, if_true]
          exact ih known (returns_interface found ends isSuper)

/-- Where no declaration is cyclic, no walk is endless. -/
theorem walksEnd_of_acyclic (resolved : r.Resolved p) (acyclic : ∀ d ∈ r, r.isCyclic d = false) : r.WalksEnd := by
  have known {d : DeclSymbol} (member : d ∈ r) : r.find? d.nominal.name = some d :=
    find?_of_mem resolved.registered.distinct member
  refine ⟨⟨fun n => ?_⟩, ?_, ?_, ?_, ?_⟩
  · by_cases declared : n ∈ r.map (·.nominal)
    · obtain ⟨d, member, rfl⟩ := List.mem_map.1 declared
      exact resolved.acc_of_returns declared (acyclic d member)
    · refine Acc.intro n fun super inherits => ?_
      obtain ⟨d, member, rfl, -⟩ := inherits
      exact absurd (List.mem_map_of_mem member) declared
  · intro d member fuel enough
    obtain ⟨more, rfl⟩ := Nat.exists_eq_add_of_le (Nat.succ_le_of_lt enough)
    exact ancestorsFrom_stable (known member) (acyclic d member) more []
  · intro n args target fuel enough
    exact TypeTable.search_eq_viewAs r.table n target args fuel (by simpa [table] using enough)
  · intro d member args fuel enough
    obtain ⟨more, rfl⟩ := Nat.exists_eq_add_of_le (Nat.succ_le_of_lt enough)
    exact congrArg MethodWalk.found (walkMethods_stable (known member) (acyclic d member) more _ _)
  · intro d member name
    exact fieldAbove_of_returns (known member) (acyclic d member) name

end Registry

namespace Typing

variable {p : LinkedProgram} {c : Context} {s s' : Progress} {r : Registry}

/-! ## The check -/

/-- The first phases of declarations: their names, then the supertypes of their headings. -/
def declareHeads (p : LinkedProgram) : Analysis Registry := do
  let r : Registry ← p.declarations.foldlM (fun r (file, d) => register r file d) []
  r.names.foldlM (replace withSupers) r

/-- The last phases: members, then what only initial and default values tell. -/
def declareMembers (r : Registry) : Analysis Registry := do
  let r : Registry ← (parentsFirst r).foldlM (replace withMembers) r
  r.names.foldlM settle r

/-- Between heads and members stands the check that no declaration is cyclic. -/
theorem declare_eq (p : LinkedProgram) :
    declare p = declareHeads p >>= fun r => r.forM (requireAcyclic r) >>= fun _ => declareMembers r := by
  unfold declare declareHeads declareMembers
  rw [bind_assoc]

theorem resolved_of_declareHeads (ran : declareHeads p c s = .ok (r, s')) : r.Resolved p := by
  obtain ⟨r₁, names, supers⟩ := gives_bind (show Gives (declareHeads p) c r from ⟨s, s', ran⟩)
  obtain ⟨registered, headed⟩ := headed_of_withSupers (registered_of_register names) supers
  exact ⟨registered, headed⟩

/-- The fault of a declaration that inherits from itself. -/
def cyclicFault (d : DeclSymbol) : Stop :=
  .rejected ⟨.typing, "T007", s!"cyclic inheritance involving {d.name}", d.decl.span, d.file⟩

theorem forM_requireAcyclic_ok {ds : List DeclSymbol} (acyclic : ∀ d ∈ ds, r.isCyclic d = false) :
    (ds.forM (requireAcyclic r)) c s = .ok ((), s) := by
  induction ds with
  | nil => rfl
  | cons d ds ih =>
    have first : requireAcyclic r d c s = .ok ((), s) := by
      unfold requireAcyclic
      rw [acyclic d List.mem_cons_self]
      rfl
    change (requireAcyclic r d c s).bind (fun q => ds.forM (requireAcyclic r) c q.2) = _
    rw [first]
    exact ih fun e member => acyclic e (List.mem_cons_of_mem d member)

theorem forM_requireAcyclic_error {before after : List DeclSymbol} {d : DeclSymbol}
    (acyclic : ∀ e ∈ before, r.isCyclic e = false) (cyclic : r.isCyclic d = true) :
    ((before ++ d :: after).forM (requireAcyclic r)) c s = .error (cyclicFault d) := by
  have failed : requireAcyclic r d c s = .error (cyclicFault d) := by
    unfold requireAcyclic
    rw [cyclic]
    rfl
  rw [List.forM_eq_forM, List.forM_append]
  change ((before.forM (requireAcyclic r)) c s).bind (fun q =>
    (requireAcyclic r d c q.2).bind fun q => after.forM (requireAcyclic r) c q.2) = _
  rw [forM_requireAcyclic_ok acyclic]
  change (requireAcyclic r d c s).bind _ = _
  rw [failed]
  rfl

/-- What the members are added to has the supertypes of the headings still. -/
theorem resolved_of_outline {r' : Registry} (resolved : r.Resolved p) (same : r'.map outline = r.map outline) :
    r'.Resolved p := by
  have viewed {β : Type} (view : DeclSymbol → β) (forgets : ∀ d, view (outline d) = view d) :
      r'.map view = r.map view := by
    have := congrArg (List.map view) same
    simpa only [List.map_map, Function.comp_def, forgets] using this
  have origin {d : DeclSymbol} (member : d ∈ r') : ∃ e ∈ r, outline e = outline d := by
    have inside : outline d ∈ r'.map outline := List.mem_map_of_mem member
    rw [same] at inside
    exact List.mem_map.1 inside
  have registered : Registered p.declarations r' := by
    obtain ⟨declared, distinct, nominal, orphan⟩ := resolved.registered
    refine ⟨(viewed _ fun _ => rfl).trans declared, ?_, fun d member => ?_, fun d member isInterface => ?_⟩
    · have names : r'.names = r.names := viewed DeclSymbol.name fun _ => rfl
      rwa [names]
    · obtain ⟨e, member', same⟩ := origin member
      obtain ⟨sameNominal, -, sameDecl, -⟩ := outline_inj same
      rw [← sameNominal, ← sameDecl]
      exact nominal e member'
    · obtain ⟨e, member', same⟩ := origin member
      obtain ⟨-, -, sameDecl, sameParent, -⟩ := outline_inj same
      rw [← sameParent]
      exact orphan e member' (sameDecl ▸ isInterface)
  exact ⟨registered, Fills.headed ⟨registered, same⟩ resolved.headed⟩

theorem outline_of_declareMembers {r' : Registry} {s'' : Progress} (resolved : r.Resolved p)
    (ran : declareMembers r c s = .ok (r', s'')) : r'.map outline = r.map outline := by
  obtain ⟨r₁, members, values⟩ := gives_bind (show Gives (declareMembers r) c r' from ⟨s, s'', ran⟩)
  have filled : Fills p.declarations r r' ∧ ∀ d ∈ r', Membered d :=
    gives_foldlM_keeps (I := fun r' => Fills p.declarations r r' ∧ ∀ d ∈ r', Membered d)
      (fun a r r' before gives => fills_settle before gives) values
      (membered_of_withMembers resolved.registered members)
  exact filled.1.outlines

/-- The check is passed exactly by the symbols that are not cyclic; else it blames the first that is. -/
theorem forM_requireAcyclic (r₀ : List DeclSymbol) :
    (r₀.forM (requireAcyclic r)) c s = .ok ((), s) ∧ (∀ d ∈ r₀, r.isCyclic d = false) ∨
      ∃ before d after, r₀ = before ++ d :: after ∧ r.isCyclic d = true ∧ (∀ e ∈ before, r.isCyclic e = false) ∧
        (r₀.forM (requireAcyclic r)) c s = .error (cyclicFault d) := by
  by_cases acyclic : ∀ d ∈ r₀, r.isCyclic d = false
  · exact .inl ⟨forM_requireAcyclic_ok acyclic, acyclic⟩
  · have exists_cyclic : (r₀.find? r.isCyclic).isSome = true := by
      rw [List.find?_isSome]
      simpa using acyclic
    obtain ⟨d, first⟩ := Option.isSome_iff_exists.1 exists_cyclic
    obtain ⟨cyclic, before, after, rfl, earlier⟩ := List.find?_eq_some_iff_append.1 first
    have acyclic' : ∀ e ∈ before, r.isCyclic e = false := by simpa using earlier
    exact .inr ⟨before, d, after, rfl, cyclic, acyclic', forM_requireAcyclic_error acyclic' cyclic⟩

/-- Where the supertypes of a program are known, the check behind them stops exactly if the headings have a cycle. It
then blames the first declaration that leads to one. If there is none, member resolution starts, and no walk along
supertypes is endless, whatever members there are by then. -/
theorem cyclic_inheritance_is_rejected (ran : declareHeads p c s = .ok (r, s')) :
    ((∃ d, (r.forM (requireAcyclic r)) c s' = .error (cyclicFault d)) ↔ ∃ n, Relation.TransGen p.NamesSuper n n) ∧
      (∀ n, Relation.TransGen p.NamesSuper n n → ∃ before d after, r = before ++ d :: after ∧ p.LeadsToCycle d.name ∧
        (∀ e ∈ before, ¬ p.LeadsToCycle e.name) ∧ declare p c s = .error (cyclicFault d)) ∧
      ((∀ n, ¬ Relation.TransGen p.NamesSuper n n) → declare p c s = declareMembers r c s' ∧
        (∀ r' s'', declareMembers r c s' = .ok (r', s'') → r'.map outline = r.map outline) ∧
        ∀ r' : Registry, r'.map outline = r.map outline → r'.WalksEnd) := by
  have resolved := resolved_of_declareHeads ran
  have declares : declare p c s =
      ((r.forM (requireAcyclic r)) c s').bind fun q => declareMembers r c q.2 := by
    rw [declare_eq]
    change (declareHeads p c s).bind _ = _
    rw [ran]
    rfl
  rcases forM_requireAcyclic r (r := r) (c := c) (s := s') with ⟨passed, acyclic⟩ | stopped
  · have cycleless : ∀ n, ¬ Relation.TransGen p.NamesSuper n n := by
      intro n cycle
      obtain ⟨_, ⟨d, declared, rfl, -⟩, -⟩ := Relation.TransGen.head'_iff.1 cycle
      rw [← resolved.registered.declared] at declared
      obtain ⟨e, member, rfl⟩ := List.mem_map.1 declared
      have leads : p.LeadsToCycle e.name :=
        ⟨e.name, .refl, by rwa [DeclSymbol.name, resolved.registered.nominal e member]⟩
      have cyclic := (resolved.isCyclic_iff member).2 leads
      rw [acyclic e member] at cyclic
      cases cyclic
    refine ⟨⟨?_, ?_⟩, fun n cycle => absurd cycle (cycleless n), fun _ =>
      ⟨?_, fun r' s'' => outline_of_declareMembers resolved, ?_⟩⟩
    · rintro ⟨d, stopped⟩
      rw [passed] at stopped
      cases stopped
    · rintro ⟨n, cycle⟩
      exact absurd cycle (cycleless n)
    · rw [declares, passed]
      rfl
    · intro r' same
      refine Registry.walksEnd_of_acyclic (resolved_of_outline resolved same) fun d member => ?_
      rw [← Bool.not_eq_true, (resolved_of_outline resolved same).isCyclic_iff member]
      rintro ⟨n, -, cycle⟩
      exact cycleless n cycle
  · obtain ⟨before, d, after, split, cyclic, earlier, stopped⟩ := stopped
    have member {e : DeclSymbol} (inside : e ∈ before ++ d :: after) : e ∈ r := split ▸ inside
    obtain ⟨n, path, cycle⟩ := (resolved.isCyclic_iff (member (by simp))).1 cyclic
    refine ⟨⟨fun _ => ⟨n, cycle⟩, fun _ => ⟨d, stopped⟩⟩, fun _ _ => ⟨before, d, after, split, ⟨n, path, cycle⟩, ?_, ?_⟩,
      fun cycleless => absurd cycle (cycleless n)⟩
    · intro e isEarlier leads
      rw [← resolved.isCyclic_iff (member (List.mem_append_left _ isEarlier)), earlier e isEarlier] at leads
      cases leads
    · rw [declares, stopped]
      rfl

open Sample in
/-- `interface A extends B { }`, `interface B extends C { }`, `interface C extends B { }`, `class D implements A { }` -/
def spinning : LinkedProgram :=
  .ofProgram ⟨"main.clasp",
    [.declares (interface "A" ["B"] []), .declares (interface "B" ["C"] []), .declares (interface "C" ["B"] []),
      .declares (implementing "D" none ["A"] [])],
    default⟩

/-- `A` is blamed for the cycle of `B` and `C`, which it is not part of. -/
theorem spinning_is_rejected :
    ∃ d : DeclSymbol, d.name = "A" ∧ (Relation.TransGen spinning.NamesSuper "B" "B") ∧
      declare spinning ⟨[], spinning.file, [], .void⟩ ⟨0, [], []⟩ = .error (cyclicFault d) := by
  have heads : (declareHeads spinning ⟨[], spinning.file, [], .void⟩ ⟨0, [], []⟩).toOption.any
      (fun q => q.1.names == ["A", "B", "C", "D"]) = true := by decide +kernel
  obtain ⟨r, s', ran, names⟩ : ∃ r s', declareHeads spinning ⟨[], spinning.file, [], .void⟩ ⟨0, [], []⟩ = .ok (r, s') ∧
      r.names = ["A", "B", "C", "D"] := by
    cases ran : declareHeads spinning ⟨[], spinning.file, [], .void⟩ ⟨0, [], []⟩ with
    | error stop => simp [ran, Except.toOption] at heads
    | ok q => exact ⟨q.1, q.2, rfl, by simpa [ran, Except.toOption] using heads⟩
  have upward : spinning.NamesSuper "A" "B" := ⟨_, .head _, rfl, .inr (.head _)⟩
  have onward : spinning.NamesSuper "B" "C" := ⟨_, .tail _ (.head _), rfl, .inr (.head _)⟩
  have backward : spinning.NamesSuper "C" "B" := ⟨_, .tail _ (.tail _ (.head _)), rfl, .inr (.head _)⟩
  have cycle : Relation.TransGen spinning.NamesSuper "B" "B" := .tail (.single onward) backward
  obtain ⟨-, blames, -⟩ := cyclic_inheritance_is_rejected ran
  obtain ⟨before, d, after, rfl, -, innocent, rejected⟩ := blames "B" cycle
  refine ⟨d, ?_, cycle, rejected⟩
  cases before with
  | nil => exact (List.cons.inj names).1
  | cons e before =>
    refine absurd ⟨"B", ?_, cycle⟩ (innocent e List.mem_cons_self)
    rw [show e.name = "A" from (List.cons.inj names).1]
    exact .single upward

end Typing

end ClassScript
