import ClassScript.Proofs.Indifference

/-!
What a workspace keeps cannot be told from what it answers (`caching_is_transparent`). A workspace without a store
answers every check and every run like one in which nothing has been loaded, and a workspace with a store loads the text
that is there, or else the one that was loaded last.
-/

namespace ClassScript

namespace Workspace

/-! ## Histories -/

/-- A change of the files, or a load. -/
inductive Deed where
  | write (path text : Text)
  | delete (path : Text)
  | load (path : Text)

/-- What is done with a workspace. -/
inductive Event where
  | deed (d : Deed)
  | check (path source : Text)
  | run (path source : Text) (around : Surroundings) (entryClass entryMethod : String)

/-- What comes back. -/
inductive Answer where
  | done
  | loaded (r : Except LoadFault Text)
  | checked (r : Except Report Checked)
  | ran (r : RunRecord)

/-- Does one of the simple things. -/
def Deed.perform : Deed → StateM Workspace Answer
  | .write path text => do
    modify fun w => w.write path text
    return .done
  | .delete path => do
    modify fun w => w.delete path
    return .done
  | .load path => return .loaded (← Workspace.load path)

/-- Does one thing. -/
def Event.perform (libraries : List Text) : Event → StateM Workspace Answer
  | .deed d => d.perform
  | .check path source => return .checked (← Workspace.check libraries path source)
  | .run path source around entryClass entryMethod =>
    return .ran (← Workspace.execute libraries path source around entryClass entryMethod)

/-- The workspace after a history, oldest first. -/
def after (libraries : List Text) (w : Workspace) (history : List Event) : Workspace :=
  history.foldl (fun w e => ((e.perform libraries).run w).2) w

/-- The files after a change. -/
def Deed.edit (files : TextTable) : Deed → TextTable
  | .write path text => files.insert path text
  | .delete path => files.erase path
  | .load _ => files

/-- The files after an event. -/
def Event.edit (files : TextTable) : Event → TextTable
  | .deed d => d.edit files
  | .check .. | .run .. => files

/-- The files after a history. -/
def filesAfter (files : TextTable) (history : List Event) : TextTable := history.foldl Event.edit files

/-- The text of a path that an answer gives. -/
def Deed.given? (path : Text) : Deed → Answer → Option Text
  | .load path', .loaded r => if path = path' then r.toOption else none
  | _, _ => none

/-- The text that the last successful load of a path gave. -/
def lastLoaded? (path : Text) : Workspace → List Deed → Option Text
  | _, [] => none
  | w, d :: rest =>
    (lastLoaded? path (d.perform.run w).2 rest).or (d.given? path (d.perform.run w).1)

/-! ## Without a store -/

/-- A workspace with these files and without a store. -/
structure Plain (files : TextTable) (w : Workspace) : Prop where
  files : w.files = files
  unstored : w.store = none
  sound : w.Sound

theorem plain_ofFiles (files : TextTable) : Plain files (ofFiles files false) := ⟨rfl, rfl, by simp [Sound, ofFiles]⟩

/-- Two workspaces with these files. -/
def BothPlain (files : TextTable) (w w' : Workspace) : Prop := Plain files w ∧ Plain files w'

section Answers

variable {files : TextTable}

theorem indifferent_load (path : Text) : Indifferent (BothPlain files) (load path) := by
  rintro w w' ⟨plain, plain'⟩
  have run {w : Workspace} (plain : Plain files w) : (load path).run w = StateT.run (m := Id)
      (Loader.orElse (Loader.ofLibrary Prelude.path Prelude.source) (Loader.ofTable files) path) w := by
    rw [load_unstored plain.unstored, ← plain.files]
    rfl
  rw [run plain, run plain']
  unfold Loader.orElse Loader.ofLibrary Loader.ofTable
  cases path == (Prelude.path : Text) with
  | true => exact ⟨rfl, plain, plain'⟩
  | false =>
    cases files.find? path with
    | none => exact ⟨rfl, plain, plain'⟩
    | some text => exact ⟨rfl, plain, plain'⟩

theorem indifferent_parse (file : String) (text : Text) : Indifferent (BothPlain files) (parse file text) := by
  rintro w w' ⟨plain, plain'⟩
  have ran {w : Workspace} (plain : Plain files w) : ((parse file text).run w).1 = Program.ofSource file text ∧
      Plain files ((parse file text).run w).2 := by
    obtain ⟨parses, sound, parsed, run⟩ := parse_run plain.sound file text
    rw [run] at sound ⊢
    exact ⟨parses, plain.files, plain.unstored, sound⟩
  exact ⟨(ran plain).1.trans (ran plain').1.symm, (ran plain).2, (ran plain').2⟩

theorem indifferent_assemble (libraries : List Text) (path source : Text) :
    Indifferent (BothPlain files) (assemble libraries path source) := by
  rintro w w' ⟨plain, plain'⟩
  have run {w : Workspace} (plain : Plain files w) : (assemble libraries path source).run w =
      (Modules.assemble fetcher libraries (ofFiles files false).levels path source).run w := by
    have levels : w.levels = (ofFiles files false).levels := by
      rw [levels, levels, plain.files, plain.unstored]
      rfl
    rw [← levels]
    rfl
  rw [run plain, run plain']
  exact Modules.indifferent_assemble indifferent_load indifferent_parse libraries _ path source w w' ⟨plain, plain'⟩

theorem indifferent_check (libraries : List Text) (path source : Text) :
    Indifferent (BothPlain files) (check libraries path source) :=
  (indifferent_assemble libraries path source).orEnd (fun _ => .pure _) fun _ => .pure _

theorem indifferent_execute (libraries : List Text) (path source : Text) (around : Surroundings)
    (entryClass entryMethod : String) :
    Indifferent (BothPlain files) (execute libraries path source around entryClass entryMethod) :=
  (indifferent_assemble libraries path source).orEnd (fun _ => .pure _) fun _ => .pure _

/-- Two workspaces with the same files give the same answer, and then have the same files again. -/
theorem perform_plain (libraries : List Text) (e : Event) {w w' : Workspace} (plain : Plain files w)
    (plain' : Plain files w') :
    ((e.perform libraries).run w).1 = ((e.perform libraries).run w').1 ∧
      Plain (e.edit files) ((e.perform libraries).run w).2 := by
  have ended {α : Type} {x : StateM Workspace α} (indifferent : Indifferent (BothPlain files) x) (answer : α → Answer) :
      ((do return answer (← x)).run w).1 = ((do return answer (← x)).run w').1 ∧
        Plain files ((do return answer (← x)).run w).2 := by
    obtain ⟨same, after, -⟩ := indifferent.bind (fun a => .pure (answer a)) w w' ⟨plain, plain'⟩
    exact ⟨same, after⟩
  match e with
  | .deed (.write path text) =>
    exact ⟨rfl, congrArg (·.insert path text) plain.files, plain.unstored, plain.sound⟩
  | .deed (.delete path) =>
    exact ⟨rfl, congrArg (·.erase path) plain.files, plain.unstored, plain.sound⟩
  | .deed (.load path) => exact ended (indifferent_load path) _
  | .check path source => exact ended (indifferent_check libraries path source) _
  | .run path source around entryClass entryMethod =>
    exact ended (indifferent_execute libraries path source around entryClass entryMethod) _

theorem plain_after (libraries : List Text) (history : List Event) {w : Workspace} (plain : Plain files w) :
    Plain (filesAfter files history) (after libraries w history) := by
  induction history generalizing files w with
  | nil => exact plain
  | cons e rest ih => exact ih (perform_plain libraries e plain plain).2

end Answers

/-! ## With a store -/

/-- What a deed does to a workspace with a store: the store has the text that a load gave. -/
theorem perform_stored {w : Workspace} {t : TextTable} (stored : w.store = some t) (d : Deed) (path : Text) :
    (d.perform.run w).2.files = d.edit w.files ∧
      ∃ t', (d.perform.run w).2.store = some t' ∧
        t'.find? path = (d.given? path (d.perform.run w).1).or (t.find? path) := by
  cases d with
  | write path' text => exact ⟨rfl, t, stored, rfl⟩
  | delete path' => exact ⟨rfl, t, stored, rfl⟩
  | load path' =>
    have answer : ((Deed.load path').perform.run w).1 = .loaded ((load path').run w).1 := rfl
    have state : ((Deed.load path').perform.run w).2 = ((load path').run w).2 := rfl
    rw [answer, state, Deed.given?, Deed.edit]
    obtain ⟨text, -, run⟩ | ⟨-, stays, remembered⟩ := load_stored stored path'
    · rw [run]
      refine ⟨rfl, _, rfl, ?_⟩
      rw [TextTable.insert, TextTable.find?, List.lookup_cons]
      by_cases same : path = path'
      · rw [beq_iff_eq.2 same, if_pos same]
        rfl
      · rw [beq_eq_false_iff_ne.2 same, if_neg same]
        exact lookup_filter_ne same t
    · rw [stays, remembered]
      refine ⟨rfl, t, stored, ?_⟩
      by_cases same : path = path'
      · rw [if_pos same, same, Option.or_self]
      · rw [if_neg same, Option.none_or]

theorem load_after (libraries : List Text) (path : Text) (history : List Deed) {w : Workspace} {t : TextTable}
    (stored : w.store = some t) :
    ((load path).run (after libraries w (history.map .deed))).1.toOption =
      ((ofFiles (filesAfter w.files (history.map .deed)) true).current.find? path).or
        ((lastLoaded? path w history).or (t.find? path)) := by
  induction history generalizing w t with
  | nil =>
    obtain ⟨loaded, -⟩ := load_run w path
    rw [find?_texts, stored] at loaded
    exact loaded
  | cons d rest ih =>
    obtain ⟨files, t', stored', known⟩ := perform_stored stored d path
    have more := ih stored'
    rw [files, known] at more
    rw [lastLoaded?, Option.or_assoc]
    exact more

/-! ## The main result -/

/-- Without a store, whatever was written, deleted, loaded, checked and run before, everything is answered as by a
workspace of the present files in which nothing was loaded, and resolving any entry gives the same, in whatever order
the fetches of a level complete. With a store, a load gives the text that is there at present, or else the one that the
last successful load of the path gave, and fails if there is neither. -/
theorem caching_is_transparent (libraries : List Text) (files : TextTable) :
    (∀ (history : List Event) (e : Event),
      let w := after libraries (ofFiles files false) history
      let fresh := ofFiles (filesAfter files history) false
      ((e.perform libraries).run w).1 = ((e.perform libraries).run fresh).1 ∧
        ∀ (order : List Modules.Request → List (Modules.Request × Nat)) (levels : Nat) (entry : SourceUnit),
          let resolved := Modules.resolveWith (Modules.fetchCompleting fetcher order) libraries levels entry
          (resolved.run w).1 = (resolved.run fresh).1) ∧
      ∀ (history : List Deed) (path : Text),
        let w := after libraries (ofFiles files true) (history.map .deed)
        let current := (ofFiles (filesAfter files (history.map .deed)) true).current
        ((load path).run w).1.toOption = (current.find? path).or (lastLoaded? path (ofFiles files true) history) := by
  refine ⟨fun history e => ?_, fun history path => ?_⟩
  · have plain := plain_after libraries history (plain_ofFiles files)
    have fresh := plain_ofFiles (filesAfter files history)
    refine ⟨(perform_plain libraries e plain fresh).1, fun order levels entry => ?_⟩
    have fetches : ∀ isLibrary wanted,
        Indifferent (BothPlain (filesAfter files history)) (Modules.fetchCompleting fetcher order isLibrary wanted) :=
      Modules.indifferent_fetchCompleting indifferent_load indifferent_parse order
    exact (Modules.indifferent_resolveWith fetches libraries levels entry _ _ ⟨plain, fresh⟩).1
  · have loaded := load_after libraries path history (w := ofFiles files true) rfl
    have nothing : TextTable.find? [] path = none := rfl
    rw [nothing, Option.or_none] at loaded
    exact loaded

end Workspace

end ClassScript
