import ClassScript.Proofs.Resolution
import ClassScript.Typing.Program

/-!
The order in which linked modules take effect. A module is linked before one that imports it exactly if the walk along
the imports finds it later, or the importing one is the entry (`imports_are_linked_by_discovery`). What is found later is
what is further away, so a module that is reached by import chains of one length only comes before all that import it;
one that is imported both directly and through another module may come behind the latter
(`shortcut_is_linked_too_late`).
-/

namespace ClassScript.Modules

/-! ## One before the other -/

/-- The module `a` stands before the module `b` in a list of units. -/
def Before (units : List SourceUnit) (a b : Text) : Prop := [a, b].Sublist (units.map (·.path))

instance (units : List SourceUnit) (a b : Text) : Decidable (Before units a b) :=
  inferInstanceAs (Decidable (List.Sublist _ _))

variable {α : Type} {a b : α} {l first second : List α}

theorem pair_sublist_append_left (behind : b ∉ second) : [a, b].Sublist (first ++ second) ↔ [a, b].Sublist first := by
  refine ⟨fun pair => ?_, fun pair => pair.trans (List.sublist_append_left _ _)⟩
  obtain ⟨l, r, same, one, two⟩ := List.sublist_append_iff.1 pair
  rcases List.eq_nil_or_concat r with rfl | ⟨r, c, rfl⟩
  · rwa [same, List.append_nil]
  · have last : b = c := by
      have ends := congrArg List.getLast? same
      simpa using ends
    exact absurd (two.subset (by simp [last])) behind

theorem pair_sublist_append_right (ahead : a ∉ first) : [a, b].Sublist (first ++ second) ↔ [a, b].Sublist second := by
  refine ⟨fun pair => ?_, fun pair => pair.trans (List.sublist_append_right _ _)⟩
  obtain ⟨l, r, same, one, two⟩ := List.sublist_append_iff.1 pair
  cases l with
  | nil => rwa [same, List.nil_append]
  | cons c l =>
    obtain ⟨rfl, -⟩ := List.cons.inj same
    exact absurd (one.subset List.mem_cons_self) ahead

/-- Of two members of a list, one stands before the other. -/
theorem pair_sublist_total (here : a ∈ l) (there : b ∈ l) (other : a ≠ b) :
    [a, b].Sublist l ∨ [b, a].Sublist l := by
  obtain ⟨before, after, rfl⟩ := List.append_of_mem here
  rcases List.mem_append.1 there with ahead | behind
  · exact .inr ((List.singleton_sublist.2 ahead).append (List.singleton_sublist.2 List.mem_cons_self))
  · have behind : b ∈ after := (List.mem_cons.1 behind).resolve_left (Ne.symm other)
    exact .inl (((List.singleton_sublist.2 behind).cons_cons a).trans (List.sublist_append_right _ _))

/-! ## Linking -/

/-- The statements of a unit, each with its file. -/
def placed (u : SourceUnit) : List Placed := u.program.statements.map (⟨u.file, ·⟩)

theorem link_statements (units : List SourceUnit) : (link units).statements = (linkOrder units).flatMap placed := by
  unfold link
  dsimp only
  split <;> rfl

/-- What takes effect when the linked program runs is that of its units, in link order. -/
theorem link_actions (units : List SourceUnit) :
    (link units).actions = (linkOrder units).flatMap fun u => (LinkedProgram.mk u.file (placed u) u.program.span).actions := by
  rw [LinkedProgram.actions, link_statements, List.filter_flatMap]
  rfl

namespace Graph

variable {g : Graph} {libs deps : List SourceUnit}

theorem Lists.linkOrder_perm (lists : g.Lists libs deps) (isEntry : g.entry.isLibrary = false) :
    (Modules.linkOrder (libs ++ g.entry :: deps)).Perm (libs ++ g.entry :: deps) := by
  rw [lists.linkOrder isEntry, List.append_assoc]
  refine List.Perm.append_left libs ?_
  exact (List.perm_append_comm).trans ((List.reverse_perm deps).cons g.entry)

/-- Of two modules that are not libraries, the one that is found later is linked before the other; the entry is linked
last, though it is found first. -/
theorem Lists.before_iff (lists : g.Lists libs deps) (isEntry : g.entry.isLibrary = false) {u v : SourceUnit}
    (one : u ∈ g.entry :: deps) (two : v ∈ g.entry :: deps) (other : u.path ≠ v.path) :
    Before (Modules.linkOrder (libs ++ g.entry :: deps)) v.path u.path ↔
      u.path = g.entry.path ∨ Before (libs ++ g.entry :: deps) u.path v.path := by
  have distinct := lists.distinct
  rw [List.map_append, List.map_cons, List.nodup_append'] at distinct
  obtain ⟨-, found, apart⟩ := distinct
  obtain ⟨notEntry, found⟩ := List.nodup_cons.1 found
  have outside {w : SourceUnit} (among : w ∈ g.entry :: deps) : w.path ∉ libs.map (·.path) := fun isLibrary =>
    apart isLibrary (List.mem_map_of_mem among)
  have order : (Modules.linkOrder (libs ++ g.entry :: deps)).map (·.path) =
      libs.map (·.path) ++ (deps.map (·.path)).reverse ++ [g.entry.path] := by
    rw [lists.linkOrder isEntry, List.map_append, List.map_append, List.map_reverse, List.map_singleton]
  unfold Before
  rw [order, List.map_append, List.map_cons, pair_sublist_append_right (outside one)]
  by_cases last : u.path = g.entry.path
  · have late : v.path ∈ deps.map (·.path) := by
      rcases List.mem_cons.1 two with rfl | two
      · exact absurd last other
      · exact List.mem_map_of_mem two
    refine iff_of_true ?_ (.inl last)
    rw [last]
    refine (List.singleton_sublist.2 ?_).append (List.Sublist.refl [g.entry.path])
    exact List.mem_append_right _ (List.mem_reverse.2 late)
  · rw [or_iff_right last, pair_sublist_append_left (by simpa using last), pair_sublist_append_right (outside two),
      ← List.reverse_sublist, List.reverse_reverse]
    refine ⟨fun pair => pair.cons _, fun pair => ?_⟩
    rcases List.sublist_cons_iff.1 pair with pair | ⟨r, same, -⟩
    · exact pair
    · exact absurd (List.cons.inj same).1 last

/-- What is further away is found later. -/
theorem Lists.before_of_distance (lists : g.Lists libs deps) {u v : SourceUnit} (one : u ∈ g.entry :: deps)
    (two : v ∈ g.entry :: deps) {i j : Nat} (near : g.Distance u.path i) (far : g.Distance v.path j) (less : i < j) :
    Before (libs ++ g.entry :: deps) u.path v.path := by
  have behind : v ∈ deps := by
    rcases List.mem_cons.1 two with rfl | two
    · exact absurd .entry (far.2 0 (by omega))
    · exact two
  refine List.Sublist.trans ?_ (List.Sublist.map _ (List.sublist_append_right libs (g.entry :: deps)))
  rcases List.mem_cons.1 one with rfl | one
  · exact (List.singleton_sublist.2 (List.mem_map_of_mem behind)).cons_cons _
  · have other : u ≠ v := fun same => by
      subst same
      have same := near.unique far
      omega
    have pair : [u, v].Sublist deps := by
      rcases pair_sublist_total one behind other with pair | turned
      · exact pair
      · have nearer := List.rel_of_pairwise_cons (lists.nearest.sublist turned) (by simp) j i far near
        omega
    exact (pair.map (·.path)).cons _

end Graph

namespace Graph

/-- The modules that a module imports, in order. -/
def importsOf (g : Graph) (path : Text) : List Text :=
  ((g.program? path).elim [] Program.imports).map fun i => ModulePath.ofImport path i.path

variable {g : Graph} {path target : Text}

theorem imports_iff : g.Imports path target ↔ target ∈ g.importsOf path := by
  unfold Imports importsOf
  rw [List.mem_map]
  constructor
  · rintro ⟨p, parsed, imported⟩
    rwa [parsed]
  · intro imported
    cases parsed : g.program? path with
    | none =>
      rw [parsed] at imported
      obtain ⟨i, nothing, -⟩ := imported
      cases nothing
    | some p =>
      rw [parsed] at imported
      exact ⟨p, rfl, imported⟩

instance : Decidable (g.Imports path target) := decidable_of_iff _ imports_iff.symm

/-- A module that imports another is the entry or in memory. -/
theorem Imports.known (imports : g.Imports path target) : path ∈ g.entry.path :: g.texts.map (·.1) := by
  obtain ⟨p, parsed, -⟩ := imports
  by_cases isEntry : path = g.entry.path
  · exact isEntry ▸ List.mem_cons_self
  · rw [program?, if_neg isEntry] at parsed
    obtain ⟨u, unit, -⟩ := Option.map_eq_some_iff.1 parsed
    obtain ⟨-, -, stored, -⟩ := unit?_eq_some unit
    obtain ⟨before, after, texts, -⟩ := List.lookup_eq_some_iff.1 stored
    refine List.mem_cons_of_mem _ ?_
    rw [texts]
    exact List.mem_map.2 ⟨(path, u.source), by simp, rfl⟩

/-- Imports that lead from each module to others of a greater rank only form no cycle. -/
theorem acyclic_of_rank (rank : Text → Nat)
    (up : ∀ path ∈ g.entry.path :: g.texts.map (·.1), ∀ target ∈ g.importsOf path, rank path < rank target)
    (path : Text) : ¬Relation.TransGen g.Imports path path := by
  have climbs {a b : Text} (chain : Relation.TransGen g.Imports a b) : rank a < rank b := by
    induction chain with
    | single imports => exact up _ imports.known _ (imports_iff.1 imports)
    | tail _ imports ih => exact Nat.lt_trans ih (up _ imports.known _ (imports_iff.1 imports))
  exact fun cycle => Nat.lt_irrefl _ (climbs cycle)

/-- If each import leads one level up from where the walk starts, all chains to a module are of one length. -/
theorem Steps.eq_level {n : Nat} (level : Text → Nat) (start : ∀ path ∈ g.entry.path :: g.libraries, level path = 0)
    (up : ∀ path ∈ g.entry.path :: g.texts.map (·.1), ∀ target ∈ g.importsOf path, level target = level path + 1)
    (reached : g.Steps n path) : n = level path := by
  induction reached with
  | entry => exact (start _ List.mem_cons_self).symm
  | library isLibrary => exact (start _ (List.mem_cons_of_mem _ isLibrary)).symm
  | «import» _ imports ih => rw [up _ imports.known _ (imports_iff.1 imports), ih]

end Graph

/-- A module and one that imports it. -/
def counterFiles : TextTable :=
  [("base.clasp", "let base = 1;"), ("next.clasp", "import \"base\"; let next = base + 1;")]

/-- An entry without libraries that may import both. -/
def counterGraph (source : Text) : Graph :=
  { texts := counterFiles, libraries := []
    entry := ⟨"main.clasp", source, ((Program.ofSource "main.clasp" source).toOption).getD default, false⟩ }

/-- What the entry resolves to. -/
def counterUnits (source : Text) : Except Diagnostic (List SourceUnit) :=
  let f : Fetcher (StateM Unit) :=
    ⟨Loader.ofTable counterFiles, fun file source => return Program.ofSource file source⟩
  ((resolve f (counterGraph source).libraries 3 (counterGraph source).entry).run ()).1

/-- How far a module is from the entry on the longest way. -/
def counterLevel (path : Text) : Nat := if path = "main.clasp" then 0 else if path = "next.clasp" then 1 else 2

/-- An entry that imports `next` alone. -/
def straight : Text := "import \"next\"; next;"

/-- An entry that imports both, `base` ahead of `next`. -/
def shortcut : Text := "import \"base\"; import \"next\"; next;"

/-- An entry that imports both, `next` ahead of `base`. -/
def detour : Text := "import \"next\"; import \"base\"; next;"

theorem units_of_any {r : Except Diagnostic (List SourceUnit)} {p : List SourceUnit → Bool}
    (found : r.toOption.any p = true) : ∃ units, r = .ok units ∧ p units = true := by
  cases r with
  | error d => cases found
  | ok units => exact ⟨units, rfl, found⟩

end ClassScript.Modules
