import ClassScript.Modules.Workspace
import ClassScript.Proofs.ImportClosure
import ClassScript.Environment

/-!
Resolving an entry and linking its units. A fetcher that answers from texts in memory, whatever it remembers on the way
(`Fetcher.Serves`), finds the import closure of these texts, in whatever order the fetches of one level complete
(`resolution_covers_closure`).
-/

namespace ClassScript.Modules

/-! ## Computations with a known outcome -/

section Answers

variable {σ ε α β : Type} {Kept : σ → Prop}

/-- From every state that is kept, a computation ends in such a state, with this value or with some error. -/
def Answers (Kept : σ → Prop) (x : StateM σ (Except ε α)) (value : Option α) : Prop :=
  ∀ s, Kept s → Kept (x.run s).2 ∧ (x.run s).1.toOption = value

theorem answers_ok (value : α) : Answers Kept (return (.ok value : Except ε α)) (some value) :=
  fun _ kept => ⟨kept, rfl⟩

theorem answers_error (e : ε) : Answers Kept (return (.error e : Except ε α)) none :=
  fun _ kept => ⟨kept, rfl⟩

theorem Answers.bind {ε' : Type} {x : StateM σ (Except ε α)} {value : Option α}
    {next : Except ε α → StateM σ (Except ε' β)} {result : α → Option β} (first : Answers Kept x value)
    (failed : ∀ e, Answers Kept (next (.error e)) none) (ok : ∀ a, Answers Kept (next (.ok a)) (result a)) :
    Answers Kept (x >>= next) (value.bind result) := by
  intro s kept
  obtain ⟨kept, same⟩ := first s kept
  have run : (x >>= next).run s = (next (x.run s).1).run (x.run s).2 := rfl
  rw [run]
  cases ended : (x.run s).1 with
  | error e =>
    rw [ended] at same
    subst same
    exact failed e _ kept
  | ok a =>
    rw [ended] at same
    subst same
    exact ok a _ kept

end Answers

/-! ## Fetching -/

section Fetching

variable {σ : Type} {Kept : σ → Prop} {f : Fetcher (StateM σ)} {g : Graph}

/-- A fetcher loads the texts of a table, and its programs are what texts parse to. -/
structure Fetcher.Serves (f : Fetcher (StateM σ)) (Kept : σ → Prop) (texts : TextTable) : Prop where
  loads (path : Text) : Answers Kept (f.load path) (texts.find? path)
  parses (file : String) (source : Text) : Answers Kept (f.parse file source) (Program.ofSource file source).toOption

/-- Loading from a table and parsing each time serves that table. -/
theorem serves_ofTable (texts : TextTable) :
    Fetcher.Serves ⟨Loader.ofTable texts, fun file source => return Program.ofSource file source⟩ (fun _ : σ => True)
      texts where
  loads path := fun s _ => by
    refine ⟨trivial, ?_⟩
    simp only [Loader.ofTable]
    cases texts.find? path <;> rfl
  parses file source := fun _ _ => ⟨trivial, rfl⟩

theorem answers_fetch (serves : f.Serves Kept g.texts) (isLibrary : Bool) (r : Request) :
    Answers Kept (fetch f isLibrary r) (g.unit? isLibrary r.path) := by
  refine (serves.loads r.path).bind (fun cause => answers_error _) fun source => ?_
  exact (serves.parses r.path.shown source).bind (fun d => answers_error _) fun program => answers_ok _

theorem answers_fetchAll (serves : f.Serves Kept g.texts) (isLibrary : Bool) (wanted : List Request) :
    Answers Kept (fetchAll f isLibrary wanted) ((wanted.map (·.path)).mapM (g.unit? isLibrary)) := by
  induction wanted with
  | nil => exact answers_ok []
  | cons r rest ih =>
    rw [List.map_cons, List.mapM_cons]
    refine (answers_fetch serves isLibrary r).bind (fun d => answers_error d) fun u => ?_
    exact ih.bind (fun d => answers_error d) fun us => answers_ok (u :: us)

variable {m : Type → Type} [Monad m]

/-- How the modules of one level are fetched. -/
abbrev LevelFetch (m : Type → Type) := Bool → List Request → m (Except Diagnostic (List SourceUnit))

/-- Fetches modules in the order in which the fetches complete, up to the first that fails. Each unit is put in the
place of its request. -/
def fetchInto (f : Fetcher m) (isLibrary : Bool) :
    List (Request × Nat) → List (Option SourceUnit) → m (Except Diagnostic (List (Option SourceUnit)))
  | [], places => return .ok places
  | (r, place) :: rest, places => do
    match ← fetch f isLibrary r with
    | .error d => return .error d
    | .ok u => fetchInto f isLibrary rest (places.set place (some u))

/-- Fetches the modules of one level, whose fetches complete in the given order. -/
def fetchCompleting (f : Fetcher m) (order : List Request → List (Request × Nat)) : LevelFetch m :=
  fun isLibrary wanted => do
    match ← fetchInto f isLibrary (order wanted) (List.replicate wanted.length none) with
    | .error d => return .error d
    | .ok places => return .ok places.reduceOption

/-- The places of a level after all its fetches. -/
def place (g : Graph) (isLibrary : Bool) (places : List (Option SourceUnit)) (r : Request × Nat) :
    List (Option SourceUnit) := places.set r.2 (g.unit? isLibrary r.1.path)

theorem answers_fetchInto (serves : f.Serves Kept g.texts) (isLibrary : Bool) (order : List (Request × Nat))
    (places : List (Option SourceUnit)) :
    Answers Kept (fetchInto f isLibrary order places)
      (if order.all fun r => (g.unit? isLibrary r.1.path).isSome then some (order.foldl (place g isLibrary) places)
        else none) := by
  induction order generalizing places with
  | nil =>
    exact answers_ok places
  | cons first rest ih =>
    have value : (if (first :: rest).all fun r => (g.unit? isLibrary r.1.path).isSome then
          some ((first :: rest).foldl (place g isLibrary) places) else none) =
        (g.unit? isLibrary first.1.path).bind fun u =>
          if rest.all fun r => (g.unit? isLibrary r.1.path).isSome then
            some (rest.foldl (place g isLibrary) (places.set first.2 (some u))) else none := by
      rw [List.all_cons, List.foldl_cons, place]
      cases g.unit? isLibrary first.1.path <;> rfl
    rw [value]
    exact (answers_fetch serves isLibrary first.1).bind (fun d => answers_error d) fun u => ih _

/-- Where each request is fetched once, it makes no difference when. -/
theorem foldl_place {isLibrary : Bool} {order : List (Request × Nat)} {wanted : List Request}
    (perm : order.Perm wanted.zipIdx) (places : List (Option SourceUnit)) :
    order.foldl (place g isLibrary) places = wanted.zipIdx.foldl (place g isLibrary) places := by
  refine perm.foldl_eq' (fun r first r' second places => ?_) places
  have known := perm.mem_iff.1 first
  have known' := perm.mem_iff.1 second
  rw [List.mem_zipIdx_iff_getElem?] at known known'
  unfold place
  by_cases same : r.2 = r'.2
  · rw [same, known'] at known
    rw [same, Option.some.inj known]
  · exact List.set_comm _ _ same

theorem foldl_place_zipIdx (isLibrary : Bool) (wanted : List Request) (before : List (Option SourceUnit)) :
    (wanted.zipIdx before.length).foldl (place g isLibrary) (before ++ List.replicate wanted.length none) =
      before ++ wanted.map fun r => g.unit? isLibrary r.path := by
  induction wanted generalizing before with
  | nil => rfl
  | cons r rest ih =>
    have more := ih (before ++ [g.unit? isLibrary r.path])
    rw [List.length_append, List.length_singleton, List.append_assoc, List.append_assoc] at more
    simpa [place, List.replicate_succ] using more

theorem answers_fetchCompleting (serves : f.Serves Kept g.texts) {order : List Request → List (Request × Nat)}
    (complete : ∀ wanted, (order wanted).Perm wanted.zipIdx) (isLibrary : Bool) (wanted : List Request) :
    Answers Kept (fetchCompleting f order isLibrary wanted) ((wanted.map (·.path)).mapM (g.unit? isLibrary)) := by
  have placed : (order wanted).foldl (place g isLibrary) (List.replicate wanted.length none) =
      wanted.map fun r => g.unit? isLibrary r.path := by
    rw [foldl_place (complete wanted)]
    exact foldl_place_zipIdx isLibrary wanted []
  have same : ((wanted.map (·.path)).mapM (g.unit? isLibrary)) =
      (if (order wanted).all fun r => (g.unit? isLibrary r.1.path).isSome then
        some ((order wanted).foldl (place g isLibrary) (List.replicate wanted.length none)) else none).bind
          fun places => some places.reduceOption := by
    rw [placed]
    cases fetched : (wanted.map (·.path)).mapM (g.unit? isLibrary) with
    | none =>
      obtain ⟨path, asked, missing⟩ := Graph.mapM_eq_none.1 fetched
      obtain ⟨r, among, rfl⟩ := List.mem_map.1 asked
      obtain ⟨i, here⟩ := List.getElem?_of_mem among
      have among : (r, i) ∈ order wanted := (complete wanted).mem_iff.2 (List.mem_zipIdx_iff_getElem?.2 here)
      rw [if_neg fun all => by simpa [missing] using List.all_eq_true.1 all _ among]
      rfl
    | some units =>
      obtain ⟨paths, each⟩ := Graph.units_of_mapM fetched
      have found : (wanted.map fun r => g.unit? isLibrary r.path) = units.map some := by
        have again := congrArg (List.map (g.unit? isLibrary)) paths
        rw [List.map_map, List.map_map] at again
        exact again.symm.trans (List.map_congr_left each)
      have all : ∀ r ∈ order wanted, (g.unit? isLibrary r.1.path).isSome := fun r among => by
        have known := List.mem_zipIdx_iff_getElem?.1 ((complete wanted).mem_iff.1 among)
        have unit : g.unit? isLibrary r.1.path ∈ units.map some :=
          found ▸ List.mem_map_of_mem (List.mem_of_getElem? known)
        obtain ⟨u, -, same⟩ := List.mem_map.1 unit
        exact same ▸ rfl
      have kept : (units.map some).reduceOption = units := by
        change (units.map some).filterMap id = units
        rw [List.filterMap_map]
        exact List.filterMap_some
      rw [if_pos (List.all_eq_true.2 all), found, Option.bind_some, kept]
  rw [same]
  exact (answers_fetchInto serves isLibrary (order wanted) _).bind (fun d => answers_error d) fun places => answers_ok _

/-! ## Level by level -/

/-- Follows imports like `followImports`, with any way to fetch a level. -/
def followWith (fetchLevel : LevelFetch m) :
    Nat → List Text → List SourceUnit → m (Except Diagnostic (List SourceUnit))
  | 0, _, _ => return .error (DependencyFault.tooDeep.diagnostic Span.none "")
  | fuel + 1, seen, level => do
    let (seen, wanted) := requests seen level
    if wanted.isEmpty then return .ok []
    else
      match ← fetchLevel false wanted with
      | .error d => return .error d
      | .ok next =>
        match ← followWith fetchLevel fuel seen next with
        | .error d => return .error d
        | .ok rest => return .ok (next ++ rest)

/-- Resolves like `resolve`, with any way to fetch a level. -/
def resolveWith (fetchLevel : LevelFetch m) (libraries : List Text) (fuel : Nat) (entry : SourceUnit) :
    m (Except Diagnostic (List SourceUnit)) := do
  let (seen, wanted) := libraryRequests [entry.path] libraries
  match ← fetchLevel true wanted with
  | .error d => return .error d
  | .ok libs =>
    let first := libs ++ [entry]
    match ← followWith fetchLevel fuel seen first with
    | .error d => return .error d
    | .ok rest =>
      let units := first ++ rest
      match undeclaredImport? units with
      | some d => return .error d
      | none => return .ok units

theorem followImports_eq (f : Fetcher m) (fuel : Nat) (seen : List Text) (level : List SourceUnit) :
    followImports f fuel seen level = followWith (fetchAll f) fuel seen level := by
  induction fuel generalizing seen level with
  | zero => rfl
  | succ fuel ih =>
    have same : followImports f fuel = followWith (fetchAll f) fuel := by
      funext seen level
      exact ih seen level
    unfold followImports followWith
    generalize followImports f fuel = next at same
    subst same
    rfl

/-- Fetching the modules of a level one after the other is one way to fetch it. -/
theorem resolve_eq (f : Fetcher m) (libraries : List Text) (fuel : Nat) (entry : SourceUnit) :
    resolve f libraries fuel entry = resolveWith (fetchAll f) libraries fuel entry := by
  have same : followImports f = followWith (fetchAll f) := by
    funext fuel seen level
    exact followImports_eq f fuel seen level
  unfold resolve resolveWith
  generalize followImports f = follow at same
  subst same
  rfl

variable {fetchLevel : LevelFetch (StateM σ)}

theorem answers_followWith
    (fetches : ∀ isLibrary wanted,
      Answers Kept (fetchLevel isLibrary wanted) ((wanted.map (·.path)).mapM (g.unit? isLibrary)))
    (fuel : Nat) (seen : List Text) (level : List SourceUnit) :
    Answers Kept (followWith fetchLevel fuel seen level) (g.collect? fuel seen level) := by
  induction fuel generalizing seen level with
  | zero => exact answers_error _
  | succ fuel ih =>
    obtain ⟨known, paths⟩ := requests_paths seen level
    simp only [followWith, Graph.collect?]
    rw [known, ← paths, List.isEmpty_map]
    split
    · exact answers_ok []
    · refine (fetches false _).bind (fun d => answers_error d) fun next => ?_
      exact (ih _ next).bind (fun d => answers_error d) fun rest => answers_ok (next ++ rest)

/-- The units of the closure, if all imported names are declared. -/
theorem answers_resolveWith
    (fetches : ∀ isLibrary wanted,
      Answers Kept (fetchLevel isLibrary wanted) ((wanted.map (·.path)).mapM (g.unit? isLibrary)))
    (fuel : Nat) :
    Answers Kept (resolveWith fetchLevel g.libraries fuel g.entry)
      ((g.closure? fuel).filter fun units => (undeclaredImport? units).isNone) := by
  have paths : (libraryRequests [g.entry.path] g.libraries).2.map (·.path) = fresh [g.entry.path] g.libraries := by
    rw [libraryRequests_eq, List.map_map]
    exact List.map_id _
  have fetched := fetches true (libraryRequests [g.entry.path] g.libraries).2
  rw [paths] at fetched
  have value : (g.closure? fuel).filter (fun units => (undeclaredImport? units).isNone) =
      ((fresh [g.entry.path] g.libraries).mapM (g.unit? true)).bind fun libs =>
        (g.collect? fuel ((fresh [g.entry.path] g.libraries).reverse ++ [g.entry.path]) (libs ++ [g.entry])).bind
          fun rest => if (undeclaredImport? (libs ++ [g.entry] ++ rest)).isNone then some (libs ++ [g.entry] ++ rest)
            else none := by
    dsimp only [Graph.closure?, Option.bind_eq_bind]
    cases (fresh [g.entry.path] g.libraries).mapM (g.unit? true) with
    | none => rfl
    | some libs =>
      dsimp only [Option.bind_some]
      cases g.collect? fuel ((fresh [g.entry.path] g.libraries).reverse ++ [g.entry.path]) (libs ++ [g.entry]) with
      | none => rfl
      | some rest => rfl
  rw [value]
  refine fetched.bind (fun d => answers_error d) fun libs => ?_
  simp only [libraryRequests_eq]
  refine (answers_followWith fetches fuel _ _).bind (fun d => answers_error d) fun rest => ?_
  dsimp only
  cases undeclaredImport? (libs ++ [g.entry] ++ rest) with
  | none => exact answers_ok _
  | some d => exact answers_error d

end Fetching

end Modules

/-! ## Workspaces -/

namespace Workspace

/-- The texts a workspace has at present: the prelude and the files. -/
def current (w : Workspace) : TextTable := (Prelude.path, Prelude.source) :: w.files

/-- The texts of a workspace: those it has at present, then those the store remembers. -/
def texts (w : Workspace) : TextTable := w.current ++ w.store.getD []

/-- What a workspace has parsed is what the texts parse to, and its texts are those of a table. -/
structure Holds (texts : TextTable) (w : Workspace) : Prop where
  parsed : ∀ e ∈ w.parsed, Program.ofSource e.1.1 e.1.2 = .ok e.2
  same : ∀ path, w.texts.find? path = texts.find? path

theorem holds_ofFiles (files : TextTable) (remembers : Bool) :
    Holds (ofFiles files remembers).texts (ofFiles files remembers) := ⟨by simp [ofFiles], fun _ => rfl⟩

/-- A workspace allows for more levels of imports than it has texts. -/
theorem texts_length_lt_levels (w : Workspace) : w.texts.length < w.levels := by
  rw [texts, current, levels, List.length_append, List.length_cons]
  omega

theorem find?_texts (w : Workspace) (path : Text) :
    w.texts.find? path = (w.current.find? path).or ((w.store.getD []).find? path) := by
  rw [texts, TextTable.find?, List.lookup_append]
  rfl

theorem loadCurrent_run (w : Workspace) (path : Text) :
    ((loadCurrent path).run w).2 = w ∧ ((loadCurrent path).run w).1.toOption = w.current.find? path := by
  have run : (loadCurrent path).run w = StateT.run (m := Id)
      (Loader.orElse (Loader.ofLibrary Prelude.path Prelude.source) (Loader.ofTable w.files) path) w := rfl
  rw [run, current, TextTable.find?, List.lookup_cons]
  unfold Loader.orElse Loader.ofLibrary Loader.ofTable TextTable.find?
  cases path == (Prelude.path : Text) with
  | true => exact ⟨rfl, rfl⟩
  | false =>
    cases w.files.lookup path with
    | none => exact ⟨rfl, rfl⟩
    | some text => exact ⟨rfl, rfl⟩

/-- Remembering a text that a workspace has at present changes none of its texts. -/
theorem find?_insert {w : Workspace} {path text : Text} (found : w.current.find? path = some text) (store : TextTable)
    (other : Text) :
    (w.current.find? other).or ((store.insert path text).find? other) =
      (w.current.find? other).or (store.find? other) := by
  by_cases same : other = path
  · rw [same, found, Option.some_or, Option.some_or]
  · have unchanged : (store.insert path text).find? other = store.find? other := by
      rw [TextTable.insert, TextTable.find?, List.lookup_cons, (beq_eq_false_iff_ne.2 same)]
      exact lookup_filter_ne same store
    rw [unchanged]

theorem load_unstored {w : Workspace} (unstored : w.store = none) (path : Text) :
    (load path).run w = (loadCurrent path).run w := by
  simp only [load, StateT.run_bind, StateT.run_get, pure_bind, unstored]

/-- With a store, a text that is there is given and remembered, and for any other the store stands in. -/
theorem load_stored {w : Workspace} {t : TextTable} (stored : w.store = some t) (path : Text) :
    (∃ text, w.current.find? path = some text ∧
      (load path).run w = (.ok text, { w with store := some (t.insert path text) })) ∨
    (w.current.find? path = none ∧ ((load path).run w).2 = w ∧ ((load path).run w).1.toOption = t.find? path) := by
  obtain ⟨stays, loaded⟩ := loadCurrent_run w path
  cases ended : ((loadCurrent path).run w).1 with
  | error e =>
    have both : (loadCurrent path).run w = (pure (.error e, w) : Id _) := Prod.ext ended stays
    rw [both] at loaded
    refine .inr ⟨loaded.symm, ?_⟩
    cases remembered : t.find? path with
    | none =>
      have run : (load path).run w = (.error e, w) := by
        simp [load, stored, Loader.remembering, both, remembered]
        rfl
      rw [run]
      exact ⟨rfl, rfl⟩
    | some text =>
      have run : (load path).run w = (.ok text, w) := by
        simp [load, stored, Loader.remembering, both, remembered]
        rfl
      rw [run]
      exact ⟨rfl, rfl⟩
  | ok text =>
    have both : (loadCurrent path).run w = (pure (.ok text, w) : Id _) := Prod.ext ended stays
    rw [both] at loaded
    refine .inl ⟨text, loaded.symm, ?_⟩
    simp [load, stored, Loader.remembering, both]
    rfl

/-- Loading leaves the texts of a workspace as they are. -/
theorem load_run (w : Workspace) (path : Text) :
    ((load path).run w).1.toOption = w.texts.find? path ∧ ((load path).run w).2.parsed = w.parsed ∧
      ∀ other, ((load path).run w).2.texts.find? other = w.texts.find? other := by
  cases store : w.store with
  | none =>
    obtain ⟨stays, loaded⟩ := loadCurrent_run w path
    rw [load_unstored store, stays, loaded, find?_texts, store]
    exact ⟨(Option.or_none).symm, rfl, fun _ => rfl⟩
  | some t =>
    rw [find?_texts, store, Option.getD_some]
    obtain ⟨text, loaded, run⟩ | ⟨missing, stays, remembered⟩ := load_stored store path
    · rw [run, loaded]
      refine ⟨rfl, rfl, fun other => ?_⟩
      rw [find?_texts, find?_texts, store]
      exact find?_insert loaded t other
    · rw [stays, remembered, missing]
      exact ⟨rfl, rfl, fun _ => rfl⟩

/-- Each program that is kept is what its text parses to. -/
def Sound (w : Workspace) : Prop := ∀ e ∈ w.parsed, Program.ofSource e.1.1 e.1.2 = .ok e.2

/-- It makes no difference which programs are dropped. -/
theorem Sound.keep {w : Workspace} (sound : w.Sound) {file : String} {text : Text} {p : Program}
    (parses : Program.ofSource file text = .ok p) : (w.keep file text p).Sound := by
  intro e member
  obtain rfl | other := List.mem_cons.1 (List.mem_of_mem_take member)
  · exact parses
  · exact sound e (List.mem_filter.1 other).1

/-- Parsing gives what the text parses to, whatever is kept, and at most changes what is kept. -/
theorem parse_run {w : Workspace} (sound : w.Sound) (file : String) (text : Text) :
    ((parse file text).run w).1 = Program.ofSource file text ∧
      ((parse file text).run w).2.Sound ∧ ∃ parsed, ((parse file text).run w).2 = { w with parsed } := by
  cases found : w.parsed.lookup (file, text) with
  | some p =>
    obtain ⟨before, after, parsed, -⟩ := List.lookup_eq_some_iff.1 found
    have parses : Program.ofSource file text = .ok p := sound ((file, text), p) (by simp [parsed])
    have run : (parse file text).run w = (.ok p, w.keep file text p) := by
      simp [parse, found]
      rfl
    rw [run]
    exact ⟨parses.symm, sound.keep parses, _, rfl⟩
  | none =>
    cases ended : Program.ofSource file text with
    | error d =>
      have run : (parse file text).run w = (.error d, w) := by
        simp [parse, found, ended]
        rfl
      rw [run]
      exact ⟨rfl, sound, w.parsed, rfl⟩
    | ok p =>
      have run : (parse file text).run w = (.ok p, w.keep file text p) := by
        simp [parse, found, ended]
        rfl
      rw [run]
      exact ⟨rfl, sound.keep ended, _, rfl⟩

/-- A workspace serves its texts, whatever it has parsed and remembers. -/
theorem serves (texts : TextTable) : Modules.Fetcher.Serves fetcher (Holds texts) texts where
  loads path := fun w holds => by
    obtain ⟨loaded, parsed, same⟩ := load_run w path
    exact ⟨⟨parsed ▸ holds.parsed, fun other => (same other).trans (holds.same other)⟩, loaded.trans (holds.same path)⟩
  parses file source := fun w holds => by
    obtain ⟨parses, sound, parsed, run⟩ := parse_run holds.parsed file source
    have same : (fetcher.parse file source).run w = (parse file source).run w := rfl
    rw [same, parses]
    rw [run] at sound ⊢
    exact ⟨⟨sound, holds.same⟩, rfl⟩

end Workspace

/-! ## The main result -/

namespace Modules

/-- Resolving fails exactly if the import closure is broken. Otherwise it gives the units of the closure, each once, and
linking puts together their statements, of each unit in order and with its path. In whatever order the fetches of the
levels complete, resolving fails alike or gives the same units. -/
theorem resolution_covers_closure {σ : Type} {Kept : σ → Prop} {f : Fetcher (StateM σ)} {g : Graph}
    (serves : f.Serves Kept g.texts) {s : σ} (kept : Kept s) (isEntry : g.entry.isLibrary = false) {levels : Nat}
    (enough : g.texts.length < levels) :
    ((∃ d, ((resolve f g.libraries levels g.entry).run s).1 = .error d) ↔ g.Broken) ∧
      (∀ units, ((resolve f g.libraries levels g.entry).run s).1 = .ok units →
        ∃ libs deps, units = libs ++ g.entry :: deps ∧ g.Lists libs deps ∧
          (link units).statements = (libs ++ deps.reverse ++ [g.entry]).flatMap fun u =>
            u.program.statements.map (⟨u.path.shown, ·⟩)) ∧
      ∀ order : List Request → List (Request × Nat), (∀ wanted, (order wanted).Perm wanted.zipIdx) →
        ((resolveWith (fetchCompleting f order) g.libraries levels g.entry).run s).1.toOption =
          ((resolve f g.libraries levels g.entry).run s).1.toOption := by
  have value : ((resolve f g.libraries levels g.entry).run s).1.toOption =
      (g.closure? levels).filter fun units => (undeclaredImport? units).isNone := by
    rw [resolve_eq]
    exact (answers_resolveWith (answers_fetchAll serves) levels s kept).2
  refine ⟨?_, fun units ended => ?_, fun order complete => ?_⟩
  · rw [← Graph.closure?_filter_eq_none enough, ← value]
    cases ((resolve f g.libraries levels g.entry).run s).1 with
    | error d => exact iff_of_true ⟨d, rfl⟩ rfl
    | ok units => exact iff_of_false (by rintro ⟨d, ended⟩; cases ended) (by rintro ⟨⟩)
  · rw [ended] at value
    obtain ⟨found, -⟩ := Option.filter_eq_some_iff.1 value.symm
    obtain ⟨libs, deps, rfl, lists⟩ := Graph.lists_of_closure? found
    refine ⟨libs, deps, rfl, lists, ?_⟩
    have statements : (link (libs ++ g.entry :: deps)).statements =
        (linkOrder (libs ++ g.entry :: deps)).flatMap fun u => u.program.statements.map (⟨u.file, ·⟩) := by
      unfold link
      dsimp only
      split <;> rfl
    rw [statements, lists.linkOrder isEntry]
    rfl
  · rw [value]
    exact (answers_resolveWith (answers_fetchCompleting serves complete) levels s kept).2

end Modules

/-- `import { Point } from "shapes/point"; new Point();` in a workspace where `shapes/point` and `shapes/unit` import
each other. -/
def pointFiles : TextTable :=
  [("shapes/point.clasp", "import { Unit } from \"./unit\"; class Point {}"),
    ("shapes/unit.clasp", "import { Point } from \"../shapes/point\"; class Unit {}"),
    ("std/core.clasp", "class Core {}")]

/-- The closure of the entry with the library `std/core.clasp`. -/
def pointGraph : Modules.Graph :=
  let source : Text := "import { Point } from \"shapes/point\"; new Point();"
  { texts := (Workspace.ofFiles pointFiles true).texts, libraries := ["std/core.clasp"]
    entry := ⟨"main.clasp", source, ((Program.ofSource "main.clasp" source).toOption).getD default, false⟩ }

/-- The workspace with these files. -/
def pointWorkspace : Workspace := .ofFiles pointFiles true

theorem pointGraph_resolves :
    ¬pointGraph.Broken ∧ ∃ units libs deps,
      ((Modules.resolve Workspace.fetcher pointGraph.libraries pointWorkspace.levels pointGraph.entry).run
        pointWorkspace).1 = .ok units ∧
      units = libs ++ pointGraph.entry :: deps ∧ pointGraph.Lists libs deps ∧
      units.map (·.file) = ["std/core.clasp", "main.clasp", "shapes/point.clasp", "shapes/unit.clasp"] ∧
      (Modules.link units).statements.map (·.file) =
        ["std/core.clasp", "shapes/unit.clasp", "shapes/unit.clasp", "shapes/point.clasp", "shapes/point.clasp",
          "main.clasp", "main.clasp"] ∧
      ((Modules.resolveWith (Modules.fetchCompleting Workspace.fetcher fun wanted => wanted.zipIdx.reverse)
        pointGraph.libraries pointWorkspace.levels pointGraph.entry).run pointWorkspace).1.toOption = some units := by
  obtain ⟨broken, covers, anyOrder⟩ := Modules.resolution_covers_closure (g := pointGraph) (s := pointWorkspace)
    (Workspace.serves _) (Workspace.holds_ofFiles pointFiles true) rfl pointWorkspace.texts_length_lt_levels
  have later := anyOrder (fun wanted => wanted.zipIdx.reverse) fun wanted => List.reverse_perm _
  have files : ((Modules.resolve Workspace.fetcher pointGraph.libraries pointWorkspace.levels pointGraph.entry).run
      pointWorkspace).1.toOption.map (fun units =>
        (units.map (·.file), (Modules.link units).statements.map (·.file))) =
      some (["std/core.clasp", "main.clasp", "shapes/point.clasp", "shapes/unit.clasp"],
        ["std/core.clasp", "shapes/unit.clasp", "shapes/unit.clasp", "shapes/point.clasp", "shapes/point.clasp",
          "main.clasp", "main.clasp"]) := by decide +kernel
  cases ended : ((Modules.resolve Workspace.fetcher pointGraph.libraries pointWorkspace.levels pointGraph.entry).run
      pointWorkspace).1 with
  | error d =>
    rw [ended] at files
    cases files
  | ok units =>
    obtain ⟨libs, deps, split, lists, -⟩ := covers units ended
    rw [ended] at files
    obtain ⟨paths, places⟩ := Prod.mk.inj (Option.some.inj files)
    refine ⟨fun fails => ?_, units, libs, deps, rfl, split, lists, paths, places, later.trans (by rw [ended]; rfl)⟩
    obtain ⟨d, failed⟩ := broken.2 fails
    cases ended.symm.trans failed

end ClassScript
