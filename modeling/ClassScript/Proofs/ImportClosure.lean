import Mathlib.Data.List.Nodup
import Mathlib.Data.List.Perm.Basic
import ClassScript.Modules.Resolve

/-!
Modules in memory, the import closure of an entry and its libraries, and the walk that collects it level by level:
what is seen after `n` levels is what is at most `n` imports away from where the walk starts (`Frontier`). The walk
fails only if a module of the closure has no program (`Frontier.collect?_eq_none`); otherwise it finds the rest of the
closure, nearer modules first (`Frontier.collects`).
-/

namespace ClassScript.Modules

/-! ## Paths not seen before -/

/-- The paths of a list that have not been seen, each where it first stands. -/
def fresh (seen : List Text) : List Text → List Text
  | [] => []
  | path :: rest => if seen.contains path then fresh seen rest else path :: fresh (path :: seen) rest

theorem mem_fresh {seen : List Text} {path : Text} (paths : List Text) :
    path ∈ fresh seen paths ↔ path ∈ paths ∧ path ∉ seen := by
  induction paths generalizing seen with
  | nil => simp [fresh]
  | cons first rest ih =>
    rw [fresh]
    split
    case isTrue known =>
      have known : first ∈ seen := by simpa using known
      rw [ih, List.mem_cons]
      refine and_congr_left fun unseen => ⟨.inr, fun here => ?_⟩
      exact here.resolve_left fun same => unseen (same ▸ known)
    case isFalse unknown =>
      have unknown : first ∉ seen := by simpa using unknown
      rw [List.mem_cons, ih, List.mem_cons, List.mem_cons, not_or]
      by_cases same : path = first
      · simp [same, unknown]
      · simp [same]

theorem nodup_fresh (seen paths : List Text) : (fresh seen paths).Nodup := by
  induction paths generalizing seen with
  | nil => exact List.nodup_nil
  | cons first rest ih =>
    rw [fresh]
    split
    · exact ih seen
    · exact List.nodup_cons.2 ⟨fun again => ((mem_fresh rest).1 again).2 List.mem_cons_self, ih _⟩

theorem fresh_append (seen paths more : List Text) :
    fresh seen (paths ++ more) = fresh seen paths ++ fresh ((fresh seen paths).reverse ++ seen) more := by
  induction paths generalizing seen with
  | nil => rfl
  | cons first rest ih =>
    rw [List.cons_append, fresh, fresh]
    split
    · exact ih seen
    · rw [ih, List.reverse_cons, List.append_assoc]
      rfl

/-- The modules that the imports of units mean, in order. -/
def targets (level : List SourceUnit) : List Text := level.flatMap fun u => u.program.imports.map u.target

theorem libraryRequests_eq (seen paths : List Text) :
    libraryRequests seen paths = ((fresh seen paths).reverse ++ seen, (fresh seen paths).map (⟨·, none⟩)) := by
  induction paths generalizing seen with
  | nil => rfl
  | cons first rest ih =>
    rw [libraryRequests, fresh]
    split
    · exact ih seen
    · simp [ih]

theorem unitRequests_paths (u : SourceUnit) (seen : List Text) (imports : List Import) :
    (unitRequests u seen imports).1 = (fresh seen (imports.map u.target)).reverse ++ seen ∧
      (unitRequests u seen imports).2.map (·.path) = fresh seen (imports.map u.target) := by
  induction imports generalizing seen with
  | nil => exact ⟨rfl, rfl⟩
  | cons i rest ih =>
    rw [unitRequests, List.map_cons, fresh]
    dsimp only
    split
    · exact ih seen
    · simp [ih]

theorem requests_paths (seen : List Text) (level : List SourceUnit) :
    (requests seen level).1 = (fresh seen (targets level)).reverse ++ seen ∧
      (requests seen level).2.map (·.path) = fresh seen (targets level) := by
  induction level generalizing seen with
  | nil => exact ⟨rfl, rfl⟩
  | cons u rest ih =>
    obtain ⟨ownSeen, own⟩ := unitRequests_paths u seen u.program.imports
    obtain ⟨moreSeen, more⟩ := ih (unitRequests u seen u.program.imports).1
    rw [ownSeen] at moreSeen more
    have all : targets (u :: rest) = u.program.imports.map u.target ++ targets rest := rfl
    simp only [requests, ownSeen, List.map_append, own, moreSeen, more, all, fresh_append, List.reverse_append,
      List.append_assoc, and_self]

/-- The libraries come first in link order, and the entry last. -/
theorem linkOrder_entry {libs deps : List SourceUnit} {entry : SourceUnit} (first : ∀ u ∈ libs, u.isLibrary = true)
    (isEntry : entry.isLibrary = false) (later : ∀ u ∈ deps, u.isLibrary = false) :
    linkOrder (libs ++ entry :: deps) = libs ++ deps.reverse ++ [entry] := by
  have libraries : (libs ++ entry :: deps).filter (·.isLibrary) = libs := by
    rw [List.filter_append, List.filter_cons_of_neg (by simp [isEntry]), List.filter_eq_self.2 first,
      List.filter_eq_nil_iff.2 (by simpa using later), List.append_nil]
  have others : (libs ++ entry :: deps).filter (!·.isLibrary) = entry :: deps := by
    rw [List.filter_append, List.filter_eq_nil_iff.2 (by simpa using first), List.nil_append,
      List.filter_cons_of_pos (by simp [isEntry]), List.filter_eq_self.2 (by simpa using later)]
  unfold linkOrder
  rw [libraries, others]

/-! ## The import closure -/

/-- Modules in memory, with the libraries and the entry from which imports are followed. -/
structure Graph where
  texts : TextTable
  libraries : List Text
  entry : SourceUnit

namespace Graph

variable (g : Graph)

/-- The unit of a module in memory, if there is such a module and it parses. -/
def unit? (isLibrary : Bool) (path : Text) : Option SourceUnit := do
  let source ← g.texts.find? path
  let program ← (Program.ofSource path.shown source).toOption
  return ⟨path, source, program, isLibrary⟩

/-- The program of a module; that of the entry is given. -/
def program? (path : Text) : Option Program :=
  if path = g.entry.path then some g.entry.program else (g.unit? false path).map (·.program)

/-- A parsed module has an import that means another. -/
def Imports (path target : Text) : Prop :=
  ∃ p, g.program? path = some p ∧ ∃ i ∈ p.imports, ModulePath.ofImport path i.path = target

/-- A module is reached from the entry or a library by that many imports. -/
inductive Steps : Nat → Text → Prop where
  | entry : Steps 0 g.entry.path
  | library {path : Text} (isLibrary : path ∈ g.libraries) : Steps 0 path
  | import {n : Nat} {path target : Text} (reached : Steps n path) (imports : g.Imports path target) :
    Steps (n + 1) target

/-- A module belongs to the import closure. -/
def Reachable (path : Text) : Prop := ∃ n, g.Steps n path

/-- The least number of imports by which a module is reached. -/
def Distance (path : Text) (n : Nat) : Prop := g.Steps n path ∧ ∀ m < n, ¬g.Steps m path

/-- A module has been reached by at most that many imports. -/
def Within (n : Nat) (path : Text) : Prop := ∃ m ≤ n, g.Steps m path

variable {g}

theorem unit?_eq_some {isLibrary : Bool} {path : Text} {u : SourceUnit} (found : g.unit? isLibrary path = some u) :
    u.path = path ∧ u.isLibrary = isLibrary ∧ g.texts.find? path = some u.source ∧
      Program.ofSource path.shown u.source = .ok u.program := by
  unfold unit? at found
  obtain ⟨source, stored, found⟩ := Option.bind_eq_some_iff.1 found
  obtain ⟨program, parsed, found⟩ := Option.bind_eq_some_iff.1 found
  cases found
  refine ⟨rfl, rfl, stored, ?_⟩
  cases ended : Program.ofSource path.shown source with
  | error d => rw [ended] at parsed; cases parsed
  | ok p =>
    rw [ended] at parsed
    cases parsed
    rfl

/-- Whether a module is fetched as a library makes no difference to its program. -/
theorem unit?_program (isLibrary : Bool) (path : Text) :
    (g.unit? isLibrary path).map (·.program) = (g.unit? false path).map (·.program) := by
  unfold unit?
  cases g.texts.find? path with
  | none => rfl
  | some source => cases h : (Program.ofSource path.shown source).toOption <;> simp [h]

theorem program?_of_unit? {isLibrary : Bool} {path : Text} (other : path ≠ g.entry.path) :
    g.program? path = (g.unit? isLibrary path).map (·.program) := by
  rw [program?, if_neg other, unit?_program isLibrary]

theorem program?_entry : g.program? g.entry.path = some g.entry.program := if_pos rfl

theorem Steps.distance {n : Nat} {path : Text} (reached : g.Steps n path) : ∃ m ≤ n, g.Distance path m := by
  induction n using Nat.strongRecOn with
  | _ n ih =>
    by_cases nearer : ∃ m < n, g.Steps m path
    · obtain ⟨m, less, reached⟩ := nearer
      obtain ⟨k, le, least⟩ := ih m less reached
      exact ⟨k, by omega, least⟩
    · exact ⟨n, Nat.le_refl n, reached, fun m less again => nearer ⟨m, less, again⟩⟩

theorem Distance.unique {path : Text} {m n : Nat} (one : g.Distance path m) (two : g.Distance path n) : m = n := by
  rcases Nat.lt_trichotomy m n with less | same | more
  · exact absurd one.1 (two.2 m less)
  · exact same
  · exact absurd two.1 (one.2 n more)

/-- What is one import further away is imported by what is that far away. -/
theorem distance_succ {n : Nat} {path : Text} :
    g.Distance path (n + 1) ↔ (∃ a, g.Distance a n ∧ g.Imports a path) ∧ ¬g.Within n path := by
  constructor
  · rintro ⟨⟨⟩ | ⟨⟩ | @⟨_, a, _, reached, imports⟩, least⟩
    refine ⟨⟨a, ⟨reached, fun m less nearer => ?_⟩, imports⟩, ?_⟩
    · exact least (m + 1) (by omega) (nearer.import imports)
    · rintro ⟨m, le, again⟩
      exact least m (by omega) again
  · rintro ⟨⟨a, reached, imports⟩, far⟩
    exact ⟨reached.1.import imports, fun m less again => far ⟨m, by omega, again⟩⟩

/-! ## The walk -/

variable (g)

/-- The units of the modules that the units of a level need and that have not been seen, level by level. -/
def collect? : Nat → List Text → List SourceUnit → Option (List SourceUnit)
  | 0, _, _ => none
  | fuel + 1, seen, level =>
    let wanted := fresh seen (targets level)
    if wanted.isEmpty then some []
    else do
      let next ← wanted.mapM (g.unit? false)
      let rest ← collect? fuel (wanted.reverse ++ seen) next
      return next ++ rest

/-- After `n` levels, what was seen is at most `n` imports away, and the last level is what is `n` imports away. -/
structure Frontier (n : Nat) (seen : List Text) (level : List SourceUnit) : Prop where
  known : ∀ path, path ∈ seen ↔ g.Within n path
  farthest : ∀ path, path ∈ level.map (·.path) ↔ g.Distance path n
  programs : ∀ u ∈ level, g.program? u.path = some u.program

variable {g} {n fuel : Nat} {seen : List Text} {level next : List SourceUnit}

theorem Frontier.entry_seen (frontier : g.Frontier n seen level) : g.entry.path ∈ seen :=
  (frontier.known _).2 ⟨0, Nat.zero_le n, .entry⟩

/-- The modules wanted next are those one import further away. -/
theorem Frontier.wanted (frontier : g.Frontier n seen level) (path : Text) :
    path ∈ fresh seen (targets level) ↔ g.Distance path (n + 1) := by
  rw [mem_fresh, distance_succ, frontier.known]
  refine and_congr_left fun _ => ⟨fun wanted => ?_, fun imported => ?_⟩
  · obtain ⟨u, among, wanted⟩ := List.mem_flatMap.1 wanted
    obtain ⟨i, imported, same⟩ := List.mem_map.1 wanted
    have reached := (frontier.farthest _).1 (List.mem_map_of_mem among)
    exact ⟨u.path, reached, u.program, frontier.programs u among, i, imported, same⟩
  · obtain ⟨a, reached, p, parsed, i, among, same⟩ := imported
    obtain ⟨u, inLevel, rfl⟩ := List.mem_map.1 ((frontier.farthest a).2 reached)
    rw [frontier.programs u inLevel] at parsed
    cases parsed
    exact List.mem_flatMap.2 ⟨u, inLevel, List.mem_map.2 ⟨i, among, same⟩⟩

theorem Frontier.wanted_ne_entry (frontier : g.Frontier n seen level) {path : Text}
    (wanted : path ∈ fresh seen (targets level)) : path ≠ g.entry.path :=
  fun same => ((mem_fresh _).1 wanted).2 (same ▸ frontier.entry_seen)

theorem within_succ {path : Text} : g.Within (n + 1) path ↔ g.Distance path (n + 1) ∨ g.Within n path := by
  constructor
  · rintro ⟨m, le, reached⟩
    obtain ⟨k, le', least⟩ := reached.distance
    rcases Nat.lt_or_ge n k with far | near
    · exact .inl ((by omega : k = n + 1) ▸ least)
    · exact .inr ⟨k, near, least.1⟩
  · rintro (least | ⟨m, le, reached⟩)
    · exact ⟨n + 1, Nat.le_refl _, least.1⟩
    · exact ⟨m, by omega, reached⟩

theorem units_of_mapM {isLibrary : Bool} {paths : List Text} {units : List SourceUnit}
    (fetched : paths.mapM (g.unit? isLibrary) = some units) :
    units.map (·.path) = paths ∧ ∀ u ∈ units, g.unit? isLibrary u.path = some u := by
  induction paths generalizing units with
  | nil => cases fetched; simp
  | cons path rest ih =>
    rw [List.mapM_cons] at fetched
    obtain ⟨u, one, fetched⟩ := Option.bind_eq_some_iff.1 fetched
    obtain ⟨us, others, fetched⟩ := Option.bind_eq_some_iff.1 fetched
    cases fetched
    obtain ⟨paths, each⟩ := ih others
    have same : u.path = path := (unit?_eq_some one).1
    exact ⟨by rw [List.map_cons, paths, same], List.forall_mem_cons.2 ⟨same ▸ one, each⟩⟩

theorem mapM_eq_none {isLibrary : Bool} {paths : List Text} :
    paths.mapM (g.unit? isLibrary) = none ↔ ∃ path ∈ paths, g.unit? isLibrary path = none := by
  induction paths with
  | nil => simp
  | cons path rest ih =>
    rw [List.mapM_cons, List.exists_mem_cons_iff, ← ih]
    cases g.unit? isLibrary path with
    | none => simp
    | some u => cases rest.mapM (g.unit? isLibrary) <;> simp

theorem Frontier.advance (frontier : g.Frontier n seen level)
    (fetched : (fresh seen (targets level)).mapM (g.unit? false) = some next) :
    g.Frontier (n + 1) ((fresh seen (targets level)).reverse ++ seen) next := by
  obtain ⟨paths, each⟩ := units_of_mapM fetched
  refine ⟨fun path => ?_, fun path => ?_, fun u among => ?_⟩
  · rw [List.mem_append, List.mem_reverse, frontier.wanted, frontier.known, within_succ]
  · rw [paths, frontier.wanted]
  · have wanted : u.path ∈ fresh seen (targets level) := paths ▸ List.mem_map_of_mem among
    rw [program?_of_unit? (frontier.wanted_ne_entry wanted), each u among, Option.map_some]

/-- If a level needs nothing new, the whole closure has been seen. -/
theorem Frontier.closed (frontier : g.Frontier n seen level) (nothing : fresh seen (targets level) = [])
    (path : Text) : g.Reachable path ↔ path ∈ seen := by
  rw [frontier.known]
  have ended : ∀ path, ¬g.Distance path (n + 1) := fun path far => by
    have wanted := (frontier.wanted path).2 far
    rw [nothing] at wanted
    cases wanted
  constructor
  · rintro ⟨k, reached⟩
    induction reached with
    | entry => exact ⟨0, Nat.zero_le n, .entry⟩
    | library isLibrary => exact ⟨0, Nat.zero_le n, .library isLibrary⟩
    | «import» _ imports ih =>
      obtain ⟨m, le, reached⟩ := ih
      exact (within_succ.1 ⟨m + 1, by omega, reached.import imports⟩).resolve_left (ended _)
  · rintro ⟨m, -, reached⟩
    exact ⟨m, reached⟩

/-- The units found beyond what was seen: the rest of the closure, each module once, nearer ones first. -/
structure Collected (g : Graph) (seen : List Text) (deps : List SourceUnit) : Prop where
  distinct : (deps.map (·.path)).Nodup
  covers : ∀ path, path ∈ deps.map (·.path) ↔ g.Reachable path ∧ path ∉ seen
  fetched : ∀ u ∈ deps, g.unit? false u.path = some u
  nearest : deps.Pairwise fun u v => ∀ i j, g.Distance u.path i → g.Distance v.path j → i ≤ j

theorem Frontier.collects {deps : List SourceUnit} (frontier : g.Frontier n seen level)
    (found : g.collect? fuel seen level = some deps) : g.Collected seen deps := by
  induction fuel generalizing n seen level deps with
  | zero => cases found
  | succ fuel ih =>
    rw [collect?] at found
    split at found
    case isTrue nothing =>
      cases found
      have closed := frontier.closed (List.isEmpty_iff.1 nothing)
      exact ⟨List.nodup_nil, fun path => by simp [closed], by simp, List.Pairwise.nil⟩
    case isFalse =>
      obtain ⟨next, fetched, found⟩ := Option.bind_eq_some_iff.1 found
      obtain ⟨rest, others, found⟩ := Option.bind_eq_some_iff.1 found
      cases found
      have advanced := frontier.advance fetched
      obtain ⟨distinct, covers, each, nearest⟩ := ih advanced others
      obtain ⟨paths, units⟩ := units_of_mapM fetched
      have atNext : ∀ u ∈ next, g.Distance u.path (n + 1) := fun u among =>
        (advanced.farthest _).1 (List.mem_map_of_mem among)
      have beyond : ∀ u ∈ rest, ¬g.Within (n + 1) u.path := fun u among within =>
        ((covers _).1 (List.mem_map_of_mem among)).2 ((advanced.known _).2 within)
      refine ⟨?_, fun path => ?_, fun u among => ?_, ?_⟩
      · rw [List.map_append, paths]
        refine List.nodup_append'.2 ⟨nodup_fresh _ _, distinct, fun path wanted later => ?_⟩
        exact ((covers path).1 later).2 (List.mem_append_left _ (List.mem_reverse.2 wanted))
      · rw [List.map_append, List.mem_append, paths, covers, List.mem_append, List.mem_reverse, not_or]
        constructor
        · rintro (wanted | ⟨reached, -, unseen⟩)
          · exact ⟨⟨n + 1, ((frontier.wanted path).1 wanted).1⟩, ((mem_fresh _).1 wanted).2⟩
          · exact ⟨reached, unseen⟩
        · rintro ⟨reached, unseen⟩
          by_cases wanted : path ∈ fresh seen (targets level)
          · exact .inl wanted
          · exact .inr ⟨reached, wanted, unseen⟩
      · exact (List.mem_append.1 among).elim (units u) (each u)
      · refine List.pairwise_append.2 ⟨?_, nearest, fun u first v second i j near far => ?_⟩
        · refine List.pairwise_of_forall_mem_list fun u first v second i j near far => ?_
          have one := near.unique (atNext u first)
          have other := far.unique (atNext v second)
          omega
        · rw [near.unique (atNext u first)]
          by_contra less
          exact beyond v second ⟨j, by omega, far.1⟩

/-- The number of texts whose modules have not been seen. -/
def unseen (g : Graph) (seen : List Text) : Nat := (g.texts.filter fun e => !seen.contains e.1).length

theorem unseen_lt {isLibrary : Bool} {u : SourceUnit} {more : List Text}
    (fetched : g.unit? isLibrary u.path = some u) (first : u.path ∉ seen) (now : u.path ∈ more) :
    g.unseen (more ++ seen) < g.unseen seen := by
  obtain ⟨-, -, stored, -⟩ := unit?_eq_some fetched
  obtain ⟨before, after, texts, -⟩ := List.lookup_eq_some_iff.1 stored
  have fewer : (g.texts.filter fun e => !(more ++ seen).contains e.1) =
      (g.texts.filter fun e => !seen.contains e.1).filter fun e => !more.contains e.1 := by
    rw [List.filter_filter]
    refine List.filter_congr fun e _ => ?_
    simp
  rw [unseen, unseen, fewer, List.length_filter_lt_length_iff_exists]
  exact ⟨(u.path, u.source), by simp [texts, first], by simpa using now⟩

/-- With more levels than there are modules left, the walk only fails at a module without a program. -/
theorem Frontier.collect?_eq_none (frontier : g.Frontier n seen level) (enough : g.unseen seen < fuel)
    (failed : g.collect? fuel seen level = none) : ∃ path, g.Reachable path ∧ g.program? path = none := by
  induction fuel generalizing n seen level with
  | zero => omega
  | succ fuel ih =>
    rw [collect?] at failed
    split at failed
    case isTrue => cases failed
    case isFalse some_ =>
      cases fetched : (fresh seen (targets level)).mapM (g.unit? false) with
      | none =>
        obtain ⟨path, wanted, missing⟩ := mapM_eq_none.1 fetched
        refine ⟨path, ⟨n + 1, ((frontier.wanted path).1 wanted).1⟩, ?_⟩
        rw [program?_of_unit? (frontier.wanted_ne_entry wanted), missing, Option.map_none]
      | some next =>
        obtain ⟨paths, each⟩ := units_of_mapM fetched
        refine ih (frontier.advance fetched) ?_ ?_
        · obtain ⟨path, wanted⟩ := List.exists_mem_of_ne_nil _ (fun nothing => some_ (List.isEmpty_iff.2 nothing))
          obtain ⟨u, among, rfl⟩ := List.mem_map.1 (paths.symm ▸ wanted)
          have less := unseen_lt (each u among) ((mem_fresh _).1 wanted).2 (List.mem_reverse.2 wanted)
          omega
        · rw [fetched] at failed
          cases rest : g.collect? fuel ((fresh seen (targets level)).reverse ++ seen) next with
          | none => rfl
          | some deps => rw [Option.bind_eq_bind, Option.bind_some, rest] at failed; cases failed

/-! ## From the libraries and the entry -/

theorem steps_zero {path : Text} : g.Steps 0 path ↔ path = g.entry.path ∨ path ∈ g.libraries := by
  constructor
  · rintro (_ | isLibrary)
    · exact .inl rfl
    · exact .inr isLibrary
  · rintro (rfl | isLibrary)
    · exact .entry
    · exact .library isLibrary

/-- The walk starts from the libraries, each once, and the entry. -/
theorem frontier_zero {libs : List SourceUnit}
    (fetched : (fresh [g.entry.path] g.libraries).mapM (g.unit? true) = some libs) :
    g.Frontier 0 ((fresh [g.entry.path] g.libraries).reverse ++ [g.entry.path]) (libs ++ [g.entry]) := by
  obtain ⟨paths, each⟩ := units_of_mapM fetched
  have first : ∀ path, path ∈ fresh [g.entry.path] g.libraries ∨ path = g.entry.path ↔ g.Steps 0 path := fun path => by
    rw [steps_zero, mem_fresh, List.mem_singleton]
    tauto
  refine ⟨fun path => ?_, fun path => ?_, fun u among => ?_⟩
  · simp [Within, ← first]
  · rw [List.map_append, List.mem_append, paths, List.map_singleton, List.mem_singleton, first]
    simp [Distance]
  · rcases List.mem_append.1 among with isLibrary | isEntry
    · have wanted : u.path ∈ fresh [g.entry.path] g.libraries := paths ▸ List.mem_map_of_mem isLibrary
      have other : u.path ≠ g.entry.path := by simpa using ((mem_fresh _).1 wanted).2
      rw [program?_of_unit? other, each u isLibrary, Option.map_some]
    · rw [List.mem_singleton.1 isEntry]
      exact program?_entry

/-- A module of the closure is missing or does not parse, or an import asks for a name that its module does not
declare. -/
def Broken (g : Graph) : Prop :=
  (∃ path, g.Reachable path ∧ g.program? path = none) ∨
    ∃ path p q, ∃ i ∈ p.imports, ∃ name ∈ i.names, g.Reachable path ∧ g.program? path = some p ∧
      g.program? (ModulePath.ofImport path i.path) = some q ∧ name.text ∉ q.declaredNames

/-- The units of the closure, each module once: libraries, the entry, then the rest in the order of their distance. -/
structure Lists (g : Graph) (libs deps : List SourceUnit) : Prop where
  distinct : ((libs ++ g.entry :: deps).map (·.path)).Nodup
  covers : ∀ path, path ∈ (libs ++ g.entry :: deps).map (·.path) ↔ g.Reachable path
  libraries : ∀ u ∈ libs, u.path ∈ g.libraries ∧ g.unit? true u.path = some u
  dependencies : ∀ u ∈ deps, u.path ∉ g.libraries ∧ g.unit? false u.path = some u
  nearest : deps.Pairwise fun u v => ∀ i j, g.Distance u.path i → g.Distance v.path j → i ≤ j

variable (g) in
/-- The units of the closure without regard to the names that are imported. -/
def closure? (levels : Nat) : Option (List SourceUnit) := do
  let libraries := fresh [g.entry.path] g.libraries
  let libs ← libraries.mapM (g.unit? true)
  let deps ← g.collect? levels (libraries.reverse ++ [g.entry.path]) (libs ++ [g.entry])
  return libs ++ [g.entry] ++ deps

theorem lists_of_closure? {levels : Nat} {units : List SourceUnit} (found : g.closure? levels = some units) :
    ∃ libs deps, units = libs ++ g.entry :: deps ∧ g.Lists libs deps := by
  obtain ⟨libs, fetched, found⟩ := Option.bind_eq_some_iff.1 found
  obtain ⟨deps, collected, found⟩ := Option.bind_eq_some_iff.1 found
  cases found
  have frontier := frontier_zero fetched
  obtain ⟨distinct, covers, each, nearest⟩ := frontier.collects collected
  obtain ⟨paths, isUnit⟩ := units_of_mapM fetched
  have starts : ∀ path, path ∈ (libs ++ [g.entry]).map (·.path) ↔ g.Steps 0 path := fun path => by
    rw [frontier.farthest]
    simp [Distance]
  have later : ∀ path ∈ deps.map (·.path), ¬g.Steps 0 path := fun path far first =>
    ((covers path).1 far).2 ((frontier.known path).2 ⟨0, Nat.le_refl 0, first⟩)
  have split : libs ++ g.entry :: deps = libs ++ [g.entry] ++ deps := by simp
  refine ⟨libs, deps, split.symm, ?_, fun path => ?_, fun u among => ⟨?_, isUnit u among⟩,
    fun u among => ⟨fun isLibrary => ?_, each u among⟩, nearest⟩
  · have start : ((libs ++ [g.entry]).map (·.path)).Nodup := by
      rw [List.map_append, paths, List.map_singleton, List.nodup_append']
      refine ⟨nodup_fresh _ _, List.nodup_singleton _, fun path wanted isEntry => ?_⟩
      exact ((mem_fresh _).1 wanted).2 isEntry
    rw [split, List.map_append]
    exact List.nodup_append'.2 ⟨start, distinct, fun path first far => later path far ((starts path).1 first)⟩
  · rw [split, List.map_append, List.mem_append, starts, covers, frontier.known]
    constructor
    · rintro (first | ⟨reached, -⟩)
      · exact ⟨0, first⟩
      · exact reached
    · intro reached
      by_cases first : g.Steps 0 path
      · exact .inl first
      · exact .inr ⟨reached, by simpa [Within] using first⟩
  · have wanted : u.path ∈ fresh [g.entry.path] g.libraries := paths ▸ List.mem_map_of_mem among
    exact ((mem_fresh _).1 wanted).1
  · exact later u.path (List.mem_map_of_mem among) (.library isLibrary)

theorem closure?_eq_none {levels : Nat} (enough : g.texts.length < levels) (failed : g.closure? levels = none) :
    ∃ path, g.Reachable path ∧ g.program? path = none := by
  unfold closure? at failed
  cases fetched : (fresh [g.entry.path] g.libraries).mapM (g.unit? true) with
  | none =>
    obtain ⟨path, wanted, missing⟩ := mapM_eq_none.1 fetched
    obtain ⟨isLibrary, other⟩ := (mem_fresh _).1 wanted
    refine ⟨path, ⟨0, .library isLibrary⟩, ?_⟩
    rw [program?_of_unit? (by simpa using other), missing, Option.map_none]
  | some libs =>
    have start := frontier_zero fetched
    refine start.collect?_eq_none (Nat.lt_of_le_of_lt (List.length_filter_le _ _) enough) ?_
    dsimp only at failed
    rw [fetched] at failed
    exact Option.eq_none_iff_forall_ne_some.2 (by simpa using failed)

section Lists

variable {libs deps : List SourceUnit}

theorem Lists.program (lists : g.Lists libs deps) {u : SourceUnit} (among : u ∈ libs ++ g.entry :: deps) :
    g.program? u.path = some u.program := by
  by_cases isEntry : u.path = g.entry.path
  · rw [List.inj_on_of_nodup_map lists.distinct among (by simp) isEntry]
    exact program?_entry
  · rcases List.mem_append.1 among with first | later
    · rw [program?_of_unit? isEntry, (lists.libraries u first).2, Option.map_some]
    · rcases List.mem_cons.1 later with rfl | later
      · exact absurd rfl isEntry
      · rw [program?_of_unit? isEntry, (lists.dependencies u later).2, Option.map_some]

/-- Each module of the closure has its unit. -/
theorem Lists.unit (lists : g.Lists libs deps) {path : Text} (reached : g.Reachable path) :
    ∃ u, (libs ++ g.entry :: deps).find? (·.path == path) = some u ∧ u.path = path ∧
      g.program? path = some u.program := by
  obtain ⟨u, among, same⟩ := List.mem_map.1 ((lists.covers path).2 reached)
  cases found : (libs ++ g.entry :: deps).find? (·.path == path) with
  | none =>
    have none_ := List.find?_eq_none.1 found u among
    simp [same] at none_
  | some v =>
    have same : v.path = path := by simpa using List.find?_some found
    exact ⟨v, rfl, same, same ▸ lists.program (List.mem_of_find?_eq_some found)⟩

/-- The units fit together exactly if every import asks for declared names only. -/
theorem Lists.undeclaredImport? (lists : g.Lists libs deps) :
    (Modules.undeclaredImport? (libs ++ g.entry :: deps)).isSome ↔ g.Broken := by
  have reached : ∀ {u}, u ∈ libs ++ g.entry :: deps → g.Reachable u.path := fun among =>
    (lists.covers _).1 (List.mem_map_of_mem among)
  rw [Option.isSome_iff_exists]
  constructor
  · rintro ⟨d, found⟩
    obtain ⟨u, among, found⟩ := List.exists_of_findSome?_eq_some found
    obtain ⟨i, imported, found⟩ := List.exists_of_findSome?_eq_some found
    obtain ⟨target, isTarget, found⟩ := Option.bind_eq_some_iff.1 found
    obtain ⟨name, asked, -⟩ := Option.bind_eq_some_iff.1 found
    have same : target.path = u.target i := by simpa using List.find?_some isTarget
    refine .inr ⟨u.path, u.program, target.program, i, imported, name, List.mem_of_find?_eq_some asked, reached among,
      lists.program among, ?_, by simpa using List.find?_some asked⟩
    have parsed := lists.program (List.mem_of_find?_eq_some isTarget)
    rwa [same] at parsed
  · rintro (⟨path, reached, missing⟩ | ⟨path, p, q, i, imported, name, asked, reached, parsed, parsed', undeclared⟩)
    · obtain ⟨u, -, -, parsed⟩ := lists.unit reached
      rw [missing] at parsed
      cases parsed
    · obtain ⟨u, found, rfl, same⟩ := lists.unit reached
      cases same.symm.trans parsed
      obtain ⟨n, steps⟩ := reached
      obtain ⟨target, isTarget, -, same'⟩ := lists.unit ⟨n + 1, steps.import ⟨_, parsed, i, imported, rfl⟩⟩
      cases same'.symm.trans parsed'
      rw [← Option.isSome_iff_exists, Modules.undeclaredImport?, List.findSome?_isSome_iff]
      refine ⟨u, List.mem_of_find?_eq_some found, ?_⟩
      rw [List.findSome?_isSome_iff]
      refine ⟨i, imported, ?_⟩
      have some_ : (i.names.find? fun n => !target.program.declaredNames.contains n.text).isSome :=
        List.find?_isSome.2 ⟨name, asked, by simpa using undeclared⟩
      obtain ⟨n, first⟩ := Option.isSome_iff_exists.1 some_
      rw [SourceUnit.target, isTarget, Option.bind_eq_bind, Option.bind_some, first]
      rfl

/-- Linking puts the libraries first and the entry last. -/
theorem Lists.linkOrder (lists : g.Lists libs deps) (isEntry : g.entry.isLibrary = false) :
    Modules.linkOrder (libs ++ g.entry :: deps) = libs ++ deps.reverse ++ [g.entry] :=
  linkOrder_entry (fun u among => (unit?_eq_some (lists.libraries u among).2).2.1) isEntry
    fun u among => (unit?_eq_some (lists.dependencies u among).2).2.1

end Lists

/-- The closure cannot be had exactly if it is broken. -/
theorem closure?_filter_eq_none {levels : Nat} (enough : g.texts.length < levels) :
    (g.closure? levels).filter (fun units => (Modules.undeclaredImport? units).isNone) = none ↔ g.Broken := by
  cases found : g.closure? levels with
  | none => exact iff_of_true rfl (.inl (closure?_eq_none enough found))
  | some units =>
    obtain ⟨libs, deps, rfl, lists⟩ := lists_of_closure? found
    rw [← lists.undeclaredImport?, Option.filter_some]
    cases Modules.undeclaredImport? (libs ++ g.entry :: deps) <;> simp

end Graph

end ClassScript.Modules
