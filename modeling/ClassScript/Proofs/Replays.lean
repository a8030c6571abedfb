import ClassScript.Command.Shell
import ClassScript.Proofs.Continuations
import ClassScript.Proofs.Extensions
import ClassScript.Proofs.Indifference
import ClassScript.Proofs.LinkOrder
import Mathlib.Data.List.Flatten

/-!
# Replayed inputs

An interactive session runs all inputs it has kept for each new one, and shows what is printed behind as many bytes as it
has shown. If nothing that a later input brings along takes effect in front of the earlier ones, or is looked up by them,
every replay prints first what the one before printed, and the session shows what its inputs print as one program
(`Shell.shows_each_output_once`). Each replay may run at another time and have its arrays in other places, so the programs
are taken not to show either (`Assembly.Unaffected`).
-/

namespace ClassScript

/-! ## Assembled programs -/

namespace Modules

section Assembling

variable {σ ε ε' α β : Type}

/-- Whenever a computation gives a value, it has the property. -/
def GivesOnly (x : StateM σ (Except ε α)) (P : α → Prop) : Prop := ∀ s a, (x.run s).1 = .ok a → P a

theorem givesOnly_ok {a : α} {P : α → Prop} (holds : P a) : GivesOnly (return .ok a : StateM σ (Except ε α)) P := by
  intro s b same
  cases same
  exact holds

theorem givesOnly_error {e : ε} {P : α → Prop} : GivesOnly (return .error e : StateM σ (Except ε α)) P := nofun

theorem GivesOnly.bind {x : StateM σ (Except ε α)} {next : Except ε α → StateM σ (Except ε' β)} {P : α → Prop}
    {Q : β → Prop} (first : GivesOnly x P) (failed : ∀ e, GivesOnly (next (.error e)) Q)
    (rest : ∀ a, P a → GivesOnly (next (.ok a)) Q) : GivesOnly (x >>= next) Q := by
  intro s b same
  have run : (x >>= next).run s = (next (x.run s).1).run (x.run s).2 := rfl
  rw [run] at same
  cases ended : (x.run s).1 with
  | error e =>
    rw [ended] at same
    exact failed e _ b same
  | ok a =>
    rw [ended] at same
    exact rest a (first s a ended) _ b same

/-- What a unit is read from. -/
def origin (u : SourceUnit) : Text × Text × Bool := (u.path, u.source, u.isLibrary)

/-- The unit is read from its text. -/
def Fetched (isLibrary : Bool) (u : SourceUnit) : Prop :=
  u.isLibrary = isLibrary ∧ Program.ofSource u.path.shown u.source = .ok u.program

variable {load : Loader (StateM σ)} {isLibrary : Bool}

/-- Fetching, where texts are read each time. -/
def reading (load : Loader (StateM σ)) : Fetcher (StateM σ) := ⟨load, fun file text => return Program.ofSource file text⟩

theorem givesOnly_fetchAll (wanted : List Request) :
    GivesOnly (fetchAll (reading load) isLibrary wanted) fun units => ∀ u ∈ units, Fetched isLibrary u := by
  induction wanted with
  | nil => exact givesOnly_ok (List.forall_mem_nil _)
  | cons r rest ih =>
    have fetched : GivesOnly (fetch (reading load) isLibrary r) (Fetched isLibrary) := by
      refine GivesOnly.bind (P := fun _ => True) (fun _ _ _ => trivial) (fun _ => givesOnly_error) fun source _ => ?_
      have read : GivesOnly ((reading load).parse r.path.shown source) fun p => Program.ofSource r.path.shown source = .ok p :=
        fun _ _ same => same
      exact read.bind (fun _ => givesOnly_error) fun program read => givesOnly_ok ⟨rfl, read⟩
    refine fetched.bind (fun _ => givesOnly_error) fun u isFetched => ?_
    exact ih.bind (fun _ => givesOnly_error) fun us areFetched => givesOnly_ok (List.forall_mem_cons.2 ⟨isFetched, areFetched⟩)

theorem givesOnly_followImports (fuel : Nat) (seen : List Text) (level : List SourceUnit) :
    GivesOnly (followImports (reading load) fuel seen level) fun units => ∀ u ∈ units, Fetched false u := by
  induction fuel generalizing seen level with
  | zero => exact givesOnly_error
  | succ fuel ih =>
    unfold followImports
    dsimp only
    split
    · exact givesOnly_ok (List.forall_mem_nil _)
    · refine (givesOnly_fetchAll _).bind (fun _ => givesOnly_error) fun next areFetched => ?_
      exact (ih _ _).bind (fun _ => givesOnly_error) fun rest others => givesOnly_ok (List.forall_mem_append.2 ⟨areFetched, others⟩)

/-- Libraries come first, then the entry and what it needs. -/
theorem givesOnly_resolve (libraries : List Text) (fuel : Nat) (entry : SourceUnit) :
    GivesOnly (resolve (reading load) libraries fuel entry) fun units => ∃ libs deps, units = libs ++ entry :: deps ∧
      (∀ u ∈ libs, Fetched true u) ∧ ∀ u ∈ deps, Fetched false u := by
  refine (givesOnly_fetchAll _).bind (fun _ => givesOnly_error) fun libs areLibraries => ?_
  refine (givesOnly_followImports _ _ _).bind (fun _ => givesOnly_error) fun rest areOthers => ?_
  dsimp only
  split
  · exact givesOnly_error
  · exact givesOnly_ok ⟨libs, rest, by simp, areLibraries, areOthers⟩

end Assembling

end Modules

namespace Assembly

open Modules

/-- The modules that take effect in front of the entry. -/
def modules (a : Assembly) : List SourceUnit := (linkOrder a.units).dropLast

/-- The entry is read from the text, and takes effect last. -/
structure Spells (path source : Text) (a : Assembly) : Prop where
  named : a.entry.path = path
  read : Program.ofSource path.shown source = .ok a.entry.program
  last : linkOrder a.units = a.modules ++ [a.entry]
  fetched : ∀ u ∈ a.modules, Fetched u.isLibrary u

theorem givesOnly_assemble {σ : Type} {load : Loader (StateM σ)} (libraries : List Text) (fuel : Nat) (path source : Text) :
    GivesOnly (Modules.assemble (reading load) libraries fuel path source) (Spells path source) := by
  unfold Modules.assemble
  dsimp only
  split
  · exact givesOnly_error
  · next program read =>
    refine (givesOnly_resolve _ _ _).bind (fun _ => givesOnly_error) fun units shape => ?_
    obtain ⟨libs, deps, rfl, first, later⟩ := shape
    have order : linkOrder (libs ++ ⟨path, source, program, false⟩ :: deps) = _ :=
      linkOrder_entry (fun u found => (first u found).1) rfl fun u found => (later u found).1
    have modules : (Assembly.mk ⟨path, source, program, false⟩ (libs ++ ⟨path, source, program, false⟩ :: deps)).modules =
        libs ++ deps.reverse := by rw [modules, order, List.dropLast_concat]
    refine givesOnly_ok ⟨rfl, read, by rw [modules, order], fun u found => ?_⟩
    rw [modules] at found
    rcases List.mem_append.1 found with found | found
    · exact ⟨rfl, (first u found).2⟩
    · exact ⟨rfl, (later u (List.mem_reverse.1 found)).2⟩

theorem Spells.statements {path source : Text} {a : Assembly} (spells : a.Spells path source) :
    a.program.statements = a.modules.flatMap placed ++ placed a.entry := by
  rw [program, link_statements, spells.last, List.flatMap_append, List.flatMap_singleton]

/-- The program of the modules alone. -/
def preamble (a : Assembly) : LinkedProgram := ⟨a.entry.file, a.modules.flatMap placed, Span.none⟩

/-- What takes effect in front of the entry is the same with another entry, though there may be more modules, and so is
what the names stand for that the first program may look up. -/
structure Keeps (a a' : Assembly) : Prop where
  longer : a.preamble.statements.length ≤ a'.preamble.statements.length
  actions : a'.preamble.actions = a.preamble.actions
  declared {name : String} : a.program.Looks name → a'.program.bareDeclaration? name = a.program.bareDeclaration? name

theorem Keeps.goesOn {a a' : Assembly} (keeps : a.Keeps a') {path source source' : Text} (spells : a.Spells path source)
    (spells' : a'.Spells path source')
    (goOn : Stmt.GoOn (a.entry.program.statements.map Stmt.bare) (a'.entry.program.statements.map Stmt.bare)) :
    a.program.GoesOn a'.program := by
  have file : a'.entry.file = a.entry.file := by rw [SourceUnit.file, SourceUnit.file, spells.named, spells'.named]
  constructor
  · have actions {b : Assembly} {source : Text} (spells : b.Spells path source) : b.program.actions =
        b.preamble.actions ++ (placed b.entry).filter fun s => !s.statement.isDeclaration && !s.statement.isImport := by
      rw [LinkedProgram.actions, spells.statements, List.filter_append]
      rfl
    rw [actions spells, actions spells', keeps.actions, List.map_append, List.map_append, placed, placed, file]
    exact goOn.placed.append _
  · exact keeps.declared
  · have entry := goOn.length_le
    rw [List.length_map, List.length_map] at entry
    have modules : (a.modules.flatMap placed).length ≤ (a'.modules.flatMap placed).length := keeps.longer
    rw [spells.statements, spells'.statements, List.length_append, List.length_append, placed, placed, List.length_map,
      List.length_map]
    omega

theorem eq_of_origins {us us' : List SourceUnit} (fetched : ∀ u ∈ us, Fetched u.isLibrary u)
    (fetched' : ∀ u ∈ us', Fetched u.isLibrary u) (same : us.map origin = us'.map origin) : us = us' := by
  let read (o : Text × Text × Bool) : SourceUnit :=
    ⟨o.1, o.2.1, (Program.ofSource o.1.shown o.2.1).toOption.getD default, o.2.2⟩
  have again {us : List SourceUnit} (fetched : ∀ u ∈ us, Fetched u.isLibrary u) : (us.map origin).map read = us := by
    rw [List.map_map]
    refine (List.map_congr_left fun u found => ?_).trans (List.map_id us)
    dsimp only [Function.comp, origin, read, id]
    rw [(fetched u found).2]
    rfl
  rw [← again fetched, same, again fetched']

/-- Entries that declare nothing keep each other's programs, if the modules come from the same texts. -/
theorem Spells.keeps {a a' : Assembly} {path source source' : Text} (spells : a.Spells path source)
    (spells' : a'.Spells path source') (same : a.modules.map origin = a'.modules.map origin)
    (none : a.entry.program.declaredNames = []) (none' : a'.entry.program.declaredNames = []) : a.Keeps a' := by
  have modules := eq_of_origins spells.fetched spells'.fetched same
  have declarations {a : Assembly} {source : Text} (spells : a.Spells path source)
      (none : a.entry.program.declaredNames = []) : a.program.declarations = a.preamble.declarations := by
    rw [LinkedProgram.declarations, spells.statements, List.filterMap_append]
    refine (congrArg _ (List.filterMap_eq_nil_iff.2 fun q found => ?_)).trans (List.append_nil _)
    obtain ⟨s, written, rfl⟩ := List.mem_map.1 found
    have undeclared := List.filterMap_eq_nil_iff.1 none s written
    cases s with
    | declares d => cases undeclared
    | _ => rfl
  refine ⟨?_, ?_, fun _ => ?_⟩
  · exact Nat.le_of_eq (congrArg (fun modules => (modules.flatMap placed).length) modules)
  · unfold preamble
    rw [modules]
    rfl
  · rw [LinkedProgram.bareDeclaration?, LinkedProgram.bareDeclaration?, declarations spells none, declarations spells' none']
    unfold preamble
    rw [modules]
    rfl

/-- In all these surroundings the program prints the same, and fails in all of them or in none: it shows neither the time
nor where its arrays lie. -/
def Unaffected (a : Assembly) (around : Surroundings → Prop) (cls name : String) : Prop :=
  ∀ u u', around u → around u' → (a.execute u cls name).output = (a.execute u' cls name).output ∧
    (a.execute u cls name).result.isOk = (a.execute u' cls name).result.isOk

/-- A program that was run to its end. -/
theorem execute_ok {a : Assembly} {u : Surroundings} {cls name : String} {v : Value × Heap}
    (ended : (a.execute u cls name).result = .ok v) : ∃ v i,
      (Interpreter.on u).runEntry a.program cls name = (.ok v, i) ∧
        (a.execute u cls name).output = i.state.output.toList := by
  unfold execute at ended ⊢
  split at ended
  · cases ended
  · unfold run at ended ⊢
    rcases ran : (Interpreter.on u).runEntry a.program cls name with ⟨r, i⟩
    rw [ran] at ended
    dsimp only at ended ⊢
    split at ended
    · exact ⟨_, i, rfl, rfl⟩
    · cases ended
    · cases ended

/-- A program that runs to its end in some surroundings does so in all, with the same output. -/
theorem Unaffected.execute {a : Assembly} {around : Surroundings → Prop} {cls name : String}
    (unaffected : a.Unaffected around cls name) {u u' : Surroundings} (possible : around u) (possible' : around u')
    {out : Bytes} {v : Value × Heap} (ran : a.execute u cls name = ⟨out, .ok v⟩) :
    ∃ v', a.execute u' cls name = ⟨out, .ok v'⟩ := by
  obtain ⟨output, isOk⟩ := unaffected u u' possible possible'
  rw [ran] at output isOk
  rcases again : a.execute u' cls name with ⟨out', e | v'⟩
  · rw [again] at isOk
    cases isOk
  · rw [again] at output
    exact ⟨v', by rw [show out = out' from output]⟩

end Assembly

/-! ## Inputs -/

namespace Shell

section Inputs

variable {m : Type → Type} [Monad m]

/-- Takes complete inputs, one after the other. -/
def acceptAll (shell : Shell m) : List Text → m (Screen × Shell m)
  | [] => return (.blank, shell)
  | input :: rest => do
    let (screen, shell) ← shell.accept input
    let (more, shell) ← shell.acceptAll rest
    return (screen ++ more, shell)

/-- The inputs that lines make up: each goes on as long as more braces are opened than closed. -/
def inputsOf (pending : Text) : List Text → List Text
  | [] => if pending.isEmpty then [] else [pending]
  | line :: rest =>
    if braceDepth (withLine pending line) ≤ 0 then withLine pending line :: inputsOf [] rest
    else inputsOf (withLine pending line) rest

theorem withLine_ne_nil (pending line : Text) : withLine pending line ≠ [] :=
  List.append_ne_nil_of_right_ne_nil _ (by decide)

/-- What is run for inputs, all of which are kept, behind a history. -/
def replays (history : List Text) : List Text → List Text
  | [] => []
  | input :: rest => source history input :: replays (history ++ [input]) rest

/-- Inputs as one program: what is run for the last of them. -/
def wholeProgram (inputs : List Text) : Text := source inputs.dropLast (inputs.getLastD [])

/-- Inputs on lines of their own. -/
def joined (inputs : List Text) : Text := ("\n" : Text).intercalate inputs

theorem joined_concat {inputs : List Text} (some : inputs ≠ []) (input : Text) :
    joined (inputs ++ [input]) = joined inputs ++ .char '\n' :: input := by
  induction inputs with
  | nil => exact absurd rfl some
  | cons first rest ih =>
    cases rest with
    | nil =>
      rw [joined, joined, List.singleton_append, List.intercalate_cons_cons, List.intercalate_singleton,
        List.intercalate_singleton, List.append_assoc]
      rfl
    | cons second rest =>
      have behind := ih (List.cons_ne_nil _ _)
      rw [joined, joined, List.cons_append] at behind ⊢
      rw [List.cons_append, List.intercalate_cons_cons, behind, List.intercalate_cons_cons, List.append_assoc, List.append_assoc,
        List.append_assoc]

/-- What is run for a complete input is the history and the input, behind a blank line if there is no history. -/
theorem source_eq (history : List Text) {input : Text} (complete : isExpression input = false) :
    ∃ blank, (∀ g ∈ blank, Lexer.isSpace g = true) ∧ source history input = blank ++ joined (history ++ [input]) := by
  have written : source history input = joined history ++ ("\n" ++ input : Text) := by
    rw [source, if_neg (ne_true_of_eq_false complete)]
    rfl
  cases history with
  | nil =>
    refine ⟨"\n", by decide, ?_⟩
    rw [written, joined, joined, List.nil_append, List.intercalate_singleton]
    rfl
  | cons first rest =>
    refine ⟨[], List.forall_mem_nil _, ?_⟩
    rw [written, joined_concat (List.cons_ne_nil _ _)]
    rfl

theorem accept_complete (shell : Shell m) {input : Text} (complete : isExpression input.trim = false) :
    shell.accept input = { shell with pending := [] }.perform input.trim := by
  have other (word : Text) (isWord : isExpression word = true) : ¬ input.trim = word := fun same => by
    rw [same, isWord] at complete
    cases complete
  have some : input.trim.isEmpty = false := by
    rw [List.isEmpty_eq_false_iff]
    exact other [] rfl
  unfold accept
  dsimp only
  rw [some]
  simp [other ":quit" rfl, other ":q" rfl, other ":reset" rfl]

end Inputs

/-! ## Sessions -/

variable {σ : Type} {Kept : σ → Prop} {session : Session (StateM σ)} {assembled : Text → Option Assembly}

/-- From every state that is kept, the session assembles the same programs, and finds some surroundings. -/
structure Steady (Kept : σ → Prop) (session : Session (StateM σ)) (assembled : Text → Option Assembly) : Prop where
  assembles : ∀ source, Modules.Answers Kept (session.assemble fileName source) (assembled source)
  looks : ∀ s, Kept s → Kept (session.surroundings.run s).2

/-- A session is steady if what it loads is the same from every state that is kept. -/
theorem steady_of_loads (loads : ∀ path, Indifferent (fun s t => Kept s ∧ Kept t) (session.load path))
    (looks : ∀ s, Kept s → Kept (session.surroundings.run s).2) {s : σ} (kept : Kept s) :
    Steady Kept session fun source => ((session.assemble fileName source).run s).1.toOption where
  assembles source t kept' := by
    have assembled : Indifferent (fun s t => Kept s ∧ Kept t) (session.assemble fileName source) :=
      Modules.indifferent_assemble loads (fun _ _ => .pure _) _ _ _ _
    obtain ⟨same, both⟩ := assembled t s ⟨kept', kept⟩
    exact ⟨both.1, congrArg Except.toOption same⟩
  looks := looks

/-- The session may run programs in these surroundings. -/
def Meets (Kept : σ → Prop) (session : Session (StateM σ)) (u : Surroundings) : Prop :=
  ∃ s, Kept s ∧ (session.surroundings.run s).1 = u

/-- A source text is accepted: it is assembled, checked and run to its end in some surroundings, and prints `out`. -/
def Prints (Kept : σ → Prop) (session : Session (StateM σ)) (assembled : Text → Option Assembly) (source : Text) (out : Bytes) :
    Prop :=
  ∃ a u v, assembled source = some a ∧ Meets Kept session u ∧
    a.execute u session.project.entryClass session.project.entryMethod = ⟨out, .ok v⟩

/-- A run is refused, or it is the run of what the session assembles, in some surroundings. -/
theorem execute_run (steady : Steady Kept session assembled) {s : σ} (kept : Kept s) (source : Text) :
    ∃ r s₁, (session.execute fileName source).run s = (r, s₁) ∧ Kept s₁ ∧
      ((assembled source = none ∧ ∃ e, r.result = .error e) ∨ ∃ a u, assembled source = some a ∧ Meets Kept session u ∧
        r = a.execute u session.project.entryClass session.project.entryMethod) := by
  obtain ⟨kept₁, found⟩ := steady.assembles source s kept
  rcases ran : (session.assemble fileName source).run s with ⟨r, s₁⟩
  rw [ran] at kept₁ found
  unfold Session.execute
  rw [StateT.run_bind, ran]
  cases r with
  | error report => exact ⟨_, s₁, rfl, kept₁, .inl ⟨found.symm, _, rfl⟩⟩
  | ok a => exact ⟨_, (session.surroundings.run s₁).2, rfl, steady.looks s₁ kept₁, .inr ⟨a, _, found.symm, ⟨s₁, kept₁, rfl⟩, rfl⟩⟩

/-- What is accepted is accepted from every state that is kept, and prints the same, if nothing else depends on the
surroundings. -/
theorem Prints.execute (steady : Steady Kept session assembled) {source : Text} {out : Bytes}
    (prints : Prints Kept session assembled source out)
    (unaffected : ∀ a ∈ assembled source,
      a.Unaffected (Meets Kept session) session.project.entryClass session.project.entryMethod)
    {s : σ} (kept : Kept s) : ∃ v, ((session.execute fileName source).run s).1 = ⟨out, .ok v⟩ := by
  obtain ⟨a, u, v, isSome, met, ended⟩ := prints
  obtain ⟨r, s₁, ran, -, ⟨isNone, -⟩ | ⟨a', u', isSome', met', same⟩⟩ := execute_run steady kept source
  · cases isNone.symm.trans isSome
  · cases isSome'.symm.trans isSome
    rw [ran, same]
    exact (unaffected a isSome).execute met met' ended

/-- A complete input is kept if its run comes to its end. -/
theorem accept_run (shell : Shell (StateM σ)) {input : Text} (complete : isExpression input.trim = false) {r : RunRecord}
    {s s₁ : σ} (ran : (shell.session.execute fileName (source shell.history input.trim)).run s = (r, s₁)) :
    (shell.accept input).run s = match r.result with
      | .error failure => ((⟨r.output.drop shell.seen, failure ++ "\n"⟩, { shell with pending := [] }), s₁)
      | .ok _ => ((⟨r.output.drop shell.seen, []⟩,
          { shell with pending := [], history := shell.history ++ [input.trim], seen := r.output.length }), s₁) := by
  rw [accept_complete shell complete, perform, StateT.run_bind, ran, complete]
  rcases r with ⟨out, failure | ⟨v, h⟩⟩ <;> rfl

theorem acceptAll_cons_run {shell shell₁ shell₂ : Shell (StateM σ)} {input : Text} {rest : List Text} {s s₁ s₂ : σ}
    {screen more : Screen} (accepted : (shell.accept input).run s = ((screen, shell₁), s₁))
    (behind : (shell₁.acceptAll rest).run s₁ = ((more, shell₂), s₂)) :
    (shell.acceptAll (input :: rest)).run s = ((screen ++ more, shell₂), s₂) := by
  have run : (shell.acceptAll (input :: rest)).run s =
      ((shell.accept input).run s >>= fun p => (p.1.2.acceptAll rest).run p.2 >>= fun q =>
        pure ((p.1.1 ++ q.1.1, q.1.2), q.2) : Id _) := rfl
  rw [run, accepted]
  exact congrArg (fun read => ((screen ++ read.1.1, read.1.2), read.2)) behind

theorem accept_running {shell shell' : Shell (StateM σ)} {input : Text} (complete : isExpression input.trim = false) {s s' : σ}
    {screen : Screen} (entered : (shell.accept input).run s = ((screen, shell'), s')) :
    shell'.ended = shell.ended ∧ shell'.pending = [] := by
  rcases ran : (shell.session.execute fileName (source shell.history input.trim)).run s with ⟨r, s₂⟩
  rw [accept_run shell complete ran] at entered
  split at entered <;> cases entered <;> exact ⟨rfl, rfl⟩

theorem feedAll_cons_run {shell shell₁ shell₂ : Shell (StateM σ)} {line : Text} {rest : List Text} {s s₁ s₂ : σ}
    {screen more : Screen} (fed : (shell.feed line).run s = ((screen, shell₁), s₁))
    (behind : (shell₁.feedAll rest).run s₁ = ((more, shell₂), s₂)) (running : shell₁.ended = none) :
    (shell.feedAll (line :: rest)).run s = ((screen ++ more, shell₂), s₂) := by
  have run : (shell.feedAll (line :: rest)).run s =
      ((shell.feed line).run s >>= fun p => (if p.1.2.ended.isSome then pure p.1 else
        p.1.2.feedAll rest >>= fun q => pure (p.1.1 ++ q.1, q.2) : StateM σ _).run p.2 : Id _) := rfl
  rw [run, fed]
  show (if shell₁.ended.isSome then pure (screen, shell₁) else
    shell₁.feedAll rest >>= fun q => pure (screen ++ q.1, q.2) : StateM σ _).run s₁ = _
  rw [running, if_neg (by simp)]
  exact congrArg (fun read => ((screen ++ read.1.1, read.1.2), read.2)) behind

theorem append_blank (screen : Screen) : screen ++ Screen.blank = screen :=
  congrArg₂ Screen.mk (List.append_nil screen.out) (List.append_nil screen.errors)

/-- Taking lines is taking the inputs that they make up. -/
theorem feedAll_run {shell shell' : Shell (StateM σ)} {lines : List Text} (short : ∀ line ∈ lines, line.width ≤ maxLine)
    (complete : ∀ input ∈ inputsOf shell.pending lines, isExpression input.trim = false) (running : shell.ended = none)
    {s s' : σ} {screen : Screen} (entered : (shell.feedAll lines).run s = ((screen, shell'), s')) :
    ∃ taken : Shell (StateM σ), ({ shell with pending := [] }.acceptAll (inputsOf shell.pending lines)).run s =
      ((screen, taken), s') ∧ shell' = { taken with ended := some .success } := by
  induction lines generalizing shell s screen with
  | nil =>
    rw [feedAll] at entered
    unfold inputsOf at complete ⊢
    split at entered
    · next none =>
      cases entered
      rw [if_pos none]
      have cleared : { shell with pending := [] } = shell := by rw [← List.isEmpty_iff.1 none]
      exact ⟨_, by rw [cleared]; rfl, by rw [running]; rfl⟩
    · next some =>
      rw [if_neg some] at complete ⊢
      have first := complete _ List.mem_cons_self
      rcases accepted : (shell.accept shell.pending).run s with ⟨⟨screen₁, shell₁⟩, s₁⟩
      obtain ⟨ended, -⟩ := accept_running first accepted
      rw [StateT.run_bind, accepted] at entered
      cases entered
      refine ⟨shell₁, ?_, by rw [ended, running]; rfl⟩
      have taken := acceptAll_cons_run accepted (show (shell₁.acceptAll []).run s₁ = ((.blank, shell₁), s₁) from rfl)
      rw [append_blank] at taken
      exact taken
  | cons line rest ih =>
    obtain ⟨short, shortRest⟩ := List.forall_mem_cons.1 short
    have fed := feed_eq shell short
    rw [inputsOf] at complete ⊢
    split at fed
    · next closed =>
      rw [if_pos closed] at complete ⊢
      obtain ⟨first, complete⟩ := List.forall_mem_cons.1 complete
      rcases accepted : (shell.accept (withLine shell.pending line)).run s with ⟨⟨screen₁, shell₁⟩, s₁⟩
      rcases behind : (shell₁.feedAll rest).run s₁ with ⟨⟨more, shell₂⟩, s₂⟩
      obtain ⟨ended, none⟩ := accept_running first accepted
      rw [feedAll_cons_run (by rw [fed, accepted]) behind (ended.trans running)] at entered
      cases entered
      rw [← none] at complete
      obtain ⟨taken, acceptedRest, same⟩ := ih shortRest complete (ended.trans running) behind
      have cleared : { shell₁ with pending := [] } = shell₁ := by rw [← none]
      rw [cleared, none] at acceptedRest
      exact ⟨taken, acceptAll_cons_run accepted acceptedRest, same⟩
    · next open_ =>
      rw [if_neg open_] at complete ⊢
      rcases behind : ({ shell with pending := withLine shell.pending line }.feedAll rest).run s with ⟨⟨more, shell₂⟩, s₂⟩
      rw [feedAll_cons_run (by rw [fed]; rfl) behind running] at entered
      cases entered
      exact @ih { shell with pending := withLine shell.pending line } shortRest complete running _ _ behind

/-- At most the input is kept that is taken. -/
theorem accept_history_le {shell shell' : Shell (StateM σ)} {input : Text} (complete : isExpression input.trim = false) {s s' : σ}
    {screen : Screen} (entered : (shell.accept input).run s = ((screen, shell'), s')) :
    shell'.history.length ≤ shell.history.length + 1 := by
  rcases ran : (shell.session.execute fileName (source shell.history input.trim)).run s with ⟨r, s₂⟩
  rw [accept_run shell complete ran] at entered
  split at entered <;> cases entered
  · exact Nat.le_succ _
  · exact Nat.le_of_eq (List.length_append)

/-- No more inputs are kept than there are. -/
theorem acceptAll_history_le {shell shell' : Shell (StateM σ)} {inputs : List Text}
    (complete : ∀ input ∈ inputs, isExpression input.trim = false) {s s' : σ} {screen : Screen}
    (entered : (shell.acceptAll inputs).run s = ((screen, shell'), s')) :
    shell'.history.length ≤ shell.history.length + inputs.length := by
  induction inputs generalizing shell s screen with
  | nil =>
    cases entered
    exact Nat.le_refl _
  | cons input rest ih =>
    obtain ⟨first, complete⟩ := List.forall_mem_cons.1 complete
    rcases accepted : (shell.accept input).run s with ⟨⟨screen₁, shell₁⟩, s₁⟩
    rcases behind : (shell₁.acceptAll rest).run s₁ with ⟨⟨more, shell₂⟩, s₂⟩
    rw [acceptAll_cons_run accepted behind] at entered
    cases entered
    have le := ih complete behind
    have one := accept_history_le first accepted
    rw [List.length_cons]
    omega

theorem inputsOf_ne_nil {pending : Text} (some : pending ≠ []) (lines : List Text) : inputsOf pending lines ≠ [] := by
  induction lines generalizing pending with
  | nil => simp [inputsOf, some]
  | cons line rest ih =>
    rw [inputsOf]
    split
    · exact List.cons_ne_nil _ _
    · exact ih (withLine_ne_nil pending line)

/-- A line that cannot be read ends the session, so that some input is not kept. -/
theorem feedAll_history_lt {shell shell' : Shell (StateM σ)} {lines : List Text} (long : ∃ line ∈ lines, maxLine < line.width)
    (complete : ∀ input ∈ inputsOf shell.pending lines, isExpression input.trim = false) (running : shell.ended = none)
    {s s' : σ} {screen : Screen} (entered : (shell.feedAll lines).run s = ((screen, shell'), s')) :
    shell'.history.length < shell.history.length + (inputsOf shell.pending lines).length := by
  induction lines generalizing shell s screen with
  | nil => exact absurd long (by simp)
  | cons line rest ih =>
    by_cases short : line.width ≤ maxLine
    · have long : ∃ line ∈ rest, maxLine < line.width := by
        obtain ⟨l, member, long⟩ := long
        obtain rfl | member := List.mem_cons.1 member
        · exact absurd short (Nat.not_le.2 long)
        · exact ⟨l, member, long⟩
      have fed := feed_eq shell short
      rw [inputsOf] at complete ⊢
      split at fed
      · next closed =>
        rw [if_pos closed] at complete ⊢
        obtain ⟨first, complete⟩ := List.forall_mem_cons.1 complete
        rcases accepted : (shell.accept (withLine shell.pending line)).run s with ⟨⟨screen₁, shell₁⟩, s₁⟩
        rcases behind : (shell₁.feedAll rest).run s₁ with ⟨⟨more, shell₂⟩, s₂⟩
        obtain ⟨ended, none⟩ := accept_running first accepted
        rw [feedAll_cons_run (by rw [fed, accepted]) behind (ended.trans running)] at entered
        cases entered
        rw [← none] at complete
        have lt := ih long complete (ended.trans running) behind
        have one := accept_history_le first accepted
        rw [none] at lt
        rw [List.length_cons]
        omega
      · next open_ =>
        rw [if_neg open_] at complete ⊢
        rcases behind : ({ shell with pending := withLine shell.pending line }.feedAll rest).run s with ⟨⟨more, shell₂⟩, s₂⟩
        rw [feedAll_cons_run (by rw [fed]; rfl) behind running] at entered
        cases entered
        exact @ih { shell with pending := withLine shell.pending line } long complete running _ _ behind
    · have kept : shell'.history = shell.history := by
        rw [feedAll, feed, if_pos (Nat.not_le.1 short)] at entered
        cases entered
        rfl
      have some : inputsOf shell.pending (line :: rest) ≠ [] := by
        rw [inputsOf]
        split
        · exact List.cons_ne_nil _ _
        · exact inputsOf_ne_nil (withLine_ne_nil shell.pending line) rest
      rw [kept]
      exact Nat.lt_add_of_pos_right (List.length_pos_iff.2 some)

theorem prefix_getLastD {before : Bytes} {outs : List Bytes} (prefixes : (before :: outs).IsChain (· <+: ·)) :
    before <+: outs.getLastD before := by
  induction outs generalizing before with
  | nil => exact List.prefix_rfl
  | cons out outs ih =>
    obtain ⟨first, prefixes⟩ := List.isChain_cons_cons.1 prefixes
    rw [List.getLastD_cons]
    exact first.trans (ih prefixes)

/-- If all inputs are kept, all that is run for them is accepted. If each of these runs prints first what the one before
printed, what is shown is what the last one prints behind what has been shown. -/
theorem acceptAll_prints (steady : Steady Kept session assembled)
    {inputs : List Text} (complete : ∀ input ∈ inputs, isExpression input.trim = false) {shell shell' : Shell (StateM σ)}
    {s s' : σ} (kept : Kept s) {screen : Screen} (entered : (shell.acceptAll inputs).run s = ((screen, shell'), s'))
    (isSession : shell.session = session) (accepted : shell'.history = shell.history ++ inputs.map Text.trim) :
    ∃ outs, List.Forall₂ (Prints Kept session assembled) (replays shell.history (inputs.map Text.trim)) outs ∧
      ∀ before : Bytes, shell.seen = before.length → (before :: outs).IsChain (· <+: ·) →
        screen = ⟨(outs.getLastD before).drop before.length, []⟩ := by
  induction inputs generalizing shell s screen with
  | nil =>
    cases entered
    refine ⟨[], .nil, fun before _ _ => ?_⟩
    rw [List.getLastD_nil, List.drop_length]
    rfl
  | cons input rest ih =>
    obtain ⟨first, complete⟩ := List.forall_mem_cons.1 complete
    rcases taken : (shell.accept input).run s with ⟨⟨screen₁, shell₁⟩, s₁⟩
    rcases behind : (shell₁.acceptAll rest).run s₁ with ⟨⟨more, shell₂⟩, s₂⟩
    rw [acceptAll_cons_run taken behind] at entered
    cases entered
    obtain ⟨r, s₂, ran, kept₂, ended⟩ := execute_run steady kept (source shell.history input.trim)
    rw [← isSession] at ran
    rw [accept_run shell first ran] at taken
    -- A run that fails keeps nothing, so that there are fewer inputs in the end.
    have refused {e : Bytes} (isError : r.result = .error e) : False := by
      rw [isError] at taken
      cases taken
      have le := acceptAll_history_le complete behind
      rw [accepted, List.length_append, List.length_map, List.length_cons] at le
      dsimp only at le
      omega
    obtain ⟨-, e, isError⟩ | ⟨a, u, isSome, met, same⟩ := ended
    · exact (refused isError).elim
    rcases result : r.result with e | v
    · exact (refused result).elim
    · have prints : Prints Kept session assembled (source shell.history input.trim) r.output :=
        ⟨a, u, v, isSome, met, by rw [← same, ← result]⟩
      rw [result] at taken
      cases taken
      obtain ⟨outs, each, shown⟩ := ih complete kept₂ behind isSession (by
        rw [accepted, List.map_cons, List.append_assoc, List.singleton_append])
      refine ⟨r.output :: outs, .cons prints each, fun before seen prefixes => ?_⟩
      obtain ⟨begun, prefixes⟩ := List.isChain_cons_cons.1 prefixes
      rw [shown r.output rfl prefixes, seen, List.getLastD_cons]
      obtain ⟨new, out⟩ := begun
      obtain ⟨newer, last⟩ := prefix_getLastD prefixes
      have all : (outs.getLastD r.output).drop before.length = new ++ newer := by
        rw [← last, ← out, List.append_assoc, List.drop_left]
      rw [all, ← last, List.drop_left, ← out, List.drop_left]
      rfl

/-- What is new in each of these outputs, where so many bytes have been shown. -/
def news (seen : Nat) : List Bytes → Bytes
  | [] => []
  | out :: outs => out.drop seen ++ news out.length outs

/-- If all that is run for the inputs is accepted, they are all kept. -/
theorem acceptAll_keeps (steady : Steady Kept session assembled) {inputs : List Text}
    (complete : ∀ input ∈ inputs, isExpression input.trim = false) {shell : Shell (StateM σ)}
    (isSession : shell.session = session)
    (unaffected : ∀ source ∈ replays shell.history (inputs.map Text.trim), ∀ a ∈ assembled source,
      a.Unaffected (Meets Kept session) session.project.entryClass session.project.entryMethod) {outs : List Bytes}
    (each : List.Forall₂ (Prints Kept session assembled) (replays shell.history (inputs.map Text.trim)) outs)
    {s : σ} (kept : Kept s) :
    ∃ taken s', (shell.acceptAll inputs).run s = ((⟨news shell.seen outs, []⟩, taken), s') ∧
      taken.history = shell.history ++ inputs.map Text.trim := by
  induction inputs generalizing shell s outs with
  | nil =>
    cases each
    exact ⟨shell, s, rfl, (List.append_nil _).symm⟩
  | cons input rest ih =>
    obtain ⟨first, complete⟩ := List.forall_mem_cons.1 complete
    obtain ⟨unaffectedFirst, unaffected⟩ := List.forall_mem_cons.1 unaffected
    obtain ⟨out, outs, prints, behind, rfl⟩ := List.forall₂_cons_left_iff.1 each
    obtain ⟨r, s₁, ran, kept₁, -⟩ := execute_run steady kept (source shell.history input.trim)
    obtain ⟨v, ended⟩ := prints.execute steady unaffectedFirst kept
    rw [ran] at ended
    obtain rfl : r = ⟨out, .ok v⟩ := ended
    rw [← isSession] at ran
    obtain ⟨taken, s', took, history⟩ := @ih complete { shell with
      pending := [], history := shell.history ++ [input.trim], seen := out.length } isSession unaffected outs behind s₁ kept₁
    refine ⟨taken, s', acceptAll_cons_run (accept_run shell first ran) took, history.trans ?_⟩
    rw [List.append_assoc, List.singleton_append, List.map_cons]

/-- Lines are all kept as inputs if all that is run for them is accepted, and no line is too long. -/
theorem feedAll_keeps (steady : Steady Kept session assembled) {lines inputs : List Text}
    (short : ∀ line ∈ lines, line.width ≤ maxLine) (entered : (inputsOf [] lines).map Text.trim = inputs)
    (complete : ∀ input ∈ inputs, isExpression input = false)
    (unaffected : ∀ source ∈ replays [] inputs, ∀ a ∈ assembled source,
      a.Unaffected (Meets Kept session) session.project.entryClass session.project.entryMethod) {outs : List Bytes}
    (each : List.Forall₂ (Prints Kept session assembled) (replays [] inputs) outs) (json : Bool) {s : σ} (kept : Kept s) :
    ∃ shell s', ((new session json).feedAll lines).run s = ((⟨news 0 outs, []⟩, shell), s') ∧ shell.history = inputs := by
  subst entered
  have complete : ∀ input ∈ inputsOf [] lines, isExpression input.trim = false := List.forall_mem_map.1 complete
  rcases ran : ((new session json).feedAll lines).run s with ⟨⟨screen, shell⟩, s'⟩
  obtain ⟨taken, took, rfl⟩ := feedAll_run short complete rfl ran
  obtain ⟨taken', s'', took', history⟩ :=
    @acceptAll_keeps _ _ _ _ steady _ complete (new session json) rfl unaffected _ each _ kept
  cases took.symm.trans took'
  exact ⟨_, _, rfl, history⟩

theorem spells_of_assembled (steady : Steady Kept session assembled) {s : σ} (kept : Kept s) {source : Text} {a : Assembly}
    (isSome : assembled source = some a) : a.Spells fileName source := by
  obtain ⟨-, found⟩ := steady.assembles source s kept
  rw [isSome] at found
  cases assembling : ((session.assemble fileName source).run s).1 with
  | error report =>
    rw [assembling] at found
    cases found
  | ok b =>
    rw [assembling] at found
    cases found
    exact Assembly.givesOnly_assemble _ _ _ _ s a assembling

/-- A later replay adds nothing that takes effect in front of an earlier one or is looked up by it, and what an entry method
prints is not in its way. -/
def Apart (Kept : σ → Prop) (session : Session (StateM σ)) (a a' : Assembly) : Prop :=
  a.Keeps a' ∧ ∀ u, Meets Kept session u →
    a.program.EntersQuietly u session.project.entryClass session.project.entryMethod

/-- What an accepted input prints is what a replay prints first that adds nothing in front of it. -/
theorem prints_begin (steady : Steady Kept session assembled) {s : σ} (kept : Kept s) {history : List Text} {input next : Text}
    (complete : isExpression input = false) (complete' : isExpression next = false)
    (unaffected : ∀ a ∈ assembled (source (history ++ [input]) next),
      a.Unaffected (Meets Kept session) session.project.entryClass session.project.entryMethod)
    (apart : ∀ a ∈ assembled (source history input), ∀ a' ∈ assembled (source (history ++ [input]) next),
      Apart Kept session a a') {out out' : Bytes}
    (prints : Prints Kept session assembled (source history input) out)
    (prints' : Prints Kept session assembled (source (history ++ [input]) next) out') : out <+: out' := by
  obtain ⟨a, u, v, isSome, met, ran⟩ := prints
  obtain ⟨a', u', v', isSome', met', ran'⟩ := prints'
  -- The second replay would print the same where the first one ran.
  obtain ⟨v', ran'⟩ := (unaffected a' isSome').execute met' met ran'
  have spells {source : Text} {a : Assembly} (isSome : assembled source = some a) : a.Spells fileName source :=
    spells_of_assembled steady kept isSome
  obtain ⟨keeps, quiet⟩ := apart a isSome a' isSome'
  obtain ⟨blank, blanks, written⟩ := source_eq history complete
  have written' : source (history ++ [input]) next = joined (history ++ [input]) ++ .char '\n' :: next := by
    rw [source, if_neg (ne_true_of_eq_false complete')]
    rfl
  have goOn := Program.continues blanks (written ▸ (spells isSome).read) (written' ▸ (spells isSome').read)
  obtain ⟨w, i, entered, printed⟩ := Assembly.execute_ok (congrArg RunRecord.result ran)
  obtain ⟨w', i', entered', printed'⟩ := Assembly.execute_ok (congrArg RunRecord.result ran')
  rw [ran] at printed
  rw [ran'] at printed'
  rw [show out = _ from printed, show out' = _ from printed']
  exact entered_output_goes_on (keeps.goesOn (spells isSome) (spells isSome') goOn) (quiet u met) entered entered'

/-- Of replays that add nothing in front, each prints first what the one before printed. -/
theorem replays_begin (steady : Steady Kept session assembled) {s : σ} (kept : Kept s) {history rest : List Text} {input : Text}
    (complete : ∀ x ∈ input :: rest, isExpression x = false)
    (unaffected : ∀ source ∈ replays history (input :: rest), ∀ a ∈ assembled source,
      a.Unaffected (Meets Kept session) session.project.entryClass session.project.entryMethod)
    (apart : (replays history (input :: rest)).IsChain fun source source' =>
      ∀ a ∈ assembled source, ∀ a' ∈ assembled source', Apart Kept session a a')
    {outs : List Bytes} (each : List.Forall₂ (Prints Kept session assembled) (replays history (input :: rest)) outs) :
    outs.IsChain (· <+: ·) := by
  induction rest generalizing history input outs with
  | nil =>
    obtain ⟨out, rfl⟩ := List.length_eq_one_iff.1 each.length_eq.symm
    exact .singleton out
  | cons next rest ih =>
    obtain ⟨first, complete⟩ := List.forall_mem_cons.1 complete
    obtain ⟨-, unaffected⟩ := List.forall_mem_cons.1 unaffected
    obtain ⟨apartNext, apart⟩ := List.isChain_cons_cons.1 apart
    obtain ⟨out, outs, prints, behind, rfl⟩ := List.forall₂_cons_left_iff.1 each
    obtain ⟨out', outs, prints', -, rfl⟩ := List.forall₂_cons_left_iff.1 behind
    have begins := prints_begin steady kept first (complete next List.mem_cons_self)
      (unaffected _ List.mem_cons_self) apartNext prints prints'
    exact .cons_cons begins (ih complete unaffected apart behind)

theorem replays_getLastD (history inputs : List Text) {input last : Text} :
    (replays history (input :: inputs)).getLastD last =
      source (history ++ (input :: inputs).dropLast) ((input :: inputs).getLastD []) := by
  induction inputs generalizing history input last with
  | nil => simp [replays]
  | cons next inputs ih =>
    rw [replays, List.getLastD_cons, ih, List.dropLast_cons_of_ne_nil (List.cons_ne_nil _ _)]
    simp

theorem forall₂_getLastD {α β : Type} {R : α → β → Prop} {l : List α} {l' : List β} (each : List.Forall₂ R l l')
    (some : l ≠ []) (a : α) (b : β) : R (l.getLastD a) (l'.getLastD b) := by
  induction each generalizing a b with
  | nil => exact absurd rfl some
  | @cons x y l l' related each ih =>
    rw [List.getLastD_cons, List.getLastD_cons]
    cases each with
    | nil => exact related
    | cons _ _ => exact ih (List.cons_ne_nil _ _) x y

/-- Of complete inputs that are all kept, a session shows what they print as one program, each output once and none of it
lost, whenever that program is run: as long as the files stay the same, no replay shows when it runs or where its arrays lie,
and what each replay brings along for the last input takes effect behind the inputs before it, which look up nothing of it and
whose entry method prints nothing. -/
theorem shows_each_output_once (steady : Steady Kept session assembled) {lines inputs : List Text}
    (entered : (inputsOf [] lines).map Text.trim = inputs) (some : inputs ≠ [])
    (complete : ∀ input ∈ inputs, isExpression input = false)
    (unaffected : ∀ source ∈ replays [] inputs, ∀ a ∈ assembled source,
      a.Unaffected (Meets Kept session) session.project.entryClass session.project.entryMethod)
    (apart : (replays [] inputs).IsChain fun source source' =>
      ∀ a ∈ assembled source, ∀ a' ∈ assembled source', Apart Kept session a a')
    {json : Bool} {shell : Shell (StateM σ)} {s s' : σ} (kept : Kept s) {screen : Screen}
    (ran : ((new session json).feedAll lines).run s = ((screen, shell), s')) (accepted : shell.history = inputs) :
    screen.errors = [] ∧ ∀ s, Kept s →
      ∃ v, ((session.execute fileName (wholeProgram inputs)).run s).1 = ⟨screen.out, .ok v⟩ := by
  have complete' : ∀ input ∈ inputsOf [] lines, isExpression input.trim = false := List.forall_mem_map.1 (entered ▸ complete)
  have short : ∀ line ∈ lines, line.width ≤ maxLine := by
    refine fun line member => Nat.not_lt.1 fun long => ?_
    have lt := feedAll_history_lt ⟨line, member, long⟩ complete' rfl ran
    rw [accepted, ← entered, List.length_map] at lt
    exact absurd lt (by simp [new])
  obtain ⟨taken, took, rfl⟩ := feedAll_run short complete' rfl ran
  obtain ⟨outs, each, shown⟩ := acceptAll_prints steady complete' kept took rfl (accepted.trans entered.symm)
  have each : List.Forall₂ (Prints Kept session assembled) (replays [] ((inputsOf [] lines).map Text.trim)) outs := each
  rw [entered] at each
  obtain ⟨input, rest, rfl⟩ := List.exists_cons_of_ne_nil some
  have prefixes : outs.IsChain (· <+: ·) := replays_begin steady kept complete unaffected apart each
  have begins : ([] :: outs).IsChain (· <+: ·) := by
    cases outs with
    | nil => exact .singleton []
    | cons out outs => exact .cons_cons List.nil_prefix prefixes
  have whole : Prints Kept session assembled (wholeProgram (input :: rest)) (outs.getLastD []) := by
    have last := forall₂_getLastD each (List.cons_ne_nil _ _) [] []
    rwa [replays_getLastD] at last
  have last : wholeProgram (input :: rest) ∈ replays [] (input :: rest) := by
    rw [wholeProgram, ← List.nil_append (List.dropLast _), ← @replays_getLastD [] rest input [], replays, List.getLastD_cons]
    exact List.getLastD_mem_cons
  rw [shown [] rfl begins]
  exact ⟨rfl, fun s kept => whole.execute steady (unaffected _ last) kept⟩

/-- Surroundings that differ in the time and in where arrays lie. -/
def aroundAt (later : Bool) : Surroundings := if later then ⟨1, fun n => 0x100 + 8 * n⟩ else ⟨0, fun n => 0x800 + 16 * n⟩

/-- A session with the usual settings that finds no file but the library, and other surroundings at each run. -/
def bareSession : Session (StateM Bool) where
  project := Project.ofDirectory "/"
  files := {
    workingDir := "/"
    read := fun _ => return .error .missing
    write := fun _ _ => return .error .missing
    isThere := fun _ => return false
    canStore := fun _ => return false
    store := return []
    setStore := fun _ => return () }
  surroundings := modifyGet fun later => (aroundAt later, !later)

/-- What it assembles. -/
def assembledBare (source : Text) : Option Assembly := ((bareSession.assemble fileName source).run false).1.toOption

theorem steady_bare : Steady (fun _ => True) bareSession assembledBare := by
  refine steady_of_loads (fun path => ?_) (fun _ _ => trivial) trivial
  refine Indifferent.orEnd (fun _ _ _ => ⟨rfl, trivial, trivial⟩) (fun e => ?_) fun text => .pure _
  exact fun _ _ _ => ⟨rfl, trivial, trivial⟩

/-- Only the library stands in front of the entry, which declares nothing, and there is no entry class. -/
def Declarationless (a : Assembly) : Prop :=
  a.modules.map Modules.origin = [((Prelude.path : Text), Prelude.source, true)] ∧ a.entry.program.declaredNames = [] ∧
    bareSession.project.entryClass ∉ a.program.declarations.map fun d => d.2.name.text

/-- Its run in one of the surroundings. -/
def runBare (a : Assembly) (later : Bool) : RunRecord :=
  a.execute (aroundAt later) bareSession.project.entryClass bareSession.project.entryMethod

instance (a : Assembly) : Decidable (Declarationless a) := inferInstanceAs (Decidable (_ ∧ _ ∧ _))

/-- The text is assembled, and what is assembled comes to its end and prints `out` in both surroundings. -/
def AlwaysPrints (source : Text) (out : Bytes) : Prop :=
  (assembledBare source).isSome ∧
    ∀ a ∈ assembledBare source, ∀ later, (runBare a later).output = out ∧ (runBare a later).result.isOk

instance (source : Text) (out : Bytes) : Decidable (AlwaysPrints source out) := inferInstanceAs (Decidable (_ ∧ _))

theorem AlwaysPrints.unaffected {source : Text} {out : Bytes} (always : AlwaysPrints source out) {a : Assembly}
    (found : a ∈ assembledBare source) :
    a.Unaffected (Meets (fun _ => True) bareSession) bareSession.project.entryClass bareSession.project.entryMethod := by
  rintro _ _ ⟨later, -, rfl⟩ ⟨later', -, rfl⟩
  obtain ⟨output, ended⟩ := always.2 a found later
  obtain ⟨output', ended'⟩ := always.2 a found later'
  exact ⟨output.trans output'.symm, ended.trans ended'.symm⟩

theorem AlwaysPrints.prints {source : Text} {out : Bytes} (always : AlwaysPrints source out) :
    Prints (fun _ => True) bareSession assembledBare source out := by
  obtain ⟨isSome, every⟩ := always
  obtain ⟨a, found⟩ := Option.isSome_iff_exists.1 isSome
  obtain ⟨output, ended⟩ := every a found false
  rcases ran : runBare a false with ⟨out', e | v⟩
  · rw [ran] at ended
    cases ended
  · rw [ran] at output
    exact ⟨a, aroundAt false, v, found, ⟨false, trivial, rfl⟩, ran.trans (by rw [show out' = out from output])⟩

/-- Such a session keeps all its inputs if each replay prints the same in both surroundings. -/
theorem keeps_printing {lines inputs : List Text} {outs : List Bytes} (short : ∀ line ∈ lines, line.width ≤ maxLine)
    (entered : (inputsOf [] lines).map Text.trim = inputs) (complete : ∀ input ∈ inputs, isExpression input = false)
    (each : List.Forall₂ AlwaysPrints (replays [] inputs) outs) :
    (∀ source ∈ replays [] inputs, ∀ a ∈ assembledBare source,
      a.Unaffected (Meets (fun _ => True) bareSession) bareSession.project.entryClass bareSession.project.entryMethod) ∧
    ∃ shell s', ((new bareSession false).feedAll lines).run false = ((⟨news 0 outs, []⟩, shell), s') ∧
      shell.history = inputs := by
  have unaffected : ∀ source ∈ replays [] inputs, ∀ a ∈ assembledBare source,
      a.Unaffected (Meets (fun _ => True) bareSession) bareSession.project.entryClass bareSession.project.entryMethod := by
    intro source member a found
    obtain ⟨k, within, rfl⟩ := List.getElem_of_mem member
    exact (each.get within (each.length_eq ▸ within)).unaffected found
  exact ⟨unaffected, feedAll_keeps steady_bare short entered complete unaffected
    (each.imp fun _ _ always => always.prints) false trivial⟩

/-- An input with markup that ends in a statement without alternative, and its alternative as the next input. -/
def letterLines : List Text :=
  ["let page = vdom <p>(a</p>; System.print(\"a\"); if (false) \x7b page; \x7d", "else \x7b System.print(\"b\"); \x7d"]

/-- The entry class with its method, and an input that prints. -/
def entryLines : List Text :=
  ["class App \x7b public static main() \x7b System.print(\"a\"); \x7d \x7d", "System.print(\"b\");"]

theorem letters_print : ∀ p ∈ (replays [] letterLines).zip [Bytes.ofString "a", Bytes.ofString "ab"],
    AlwaysPrints p.1 p.2 ∧ ∀ a ∈ assembledBare p.1, Declarationless a := by
  simp only [AlwaysPrints, letterLines, assembledBare, Session.assemble, Session.load, Declarationless]
  -- The characters of the library are spelled out, since reading them off its encoding takes long.
  refine (?spelled : ?library = Prelude.source) ▸ ?_
  case spelled =>
    conv_rhs =>
      simp only [Prelude.source, Prelude.lines, List.flatMap_cons, List.flatMap_nil]
      repeat rw [Text.ofString_ofList]
  decide +kernel

theorem entries_print :
    ∀ p ∈ (replays [] entryLines).zip [Bytes.ofString "a", Bytes.ofString "ba"], AlwaysPrints p.1 p.2 := by
  simp only [AlwaysPrints, entryLines, assembledBare, Session.assemble, Session.load]
  refine (?spelled : ?library = Prelude.source) ▸ ?_
  case spelled =>
    conv_rhs =>
      simp only [Prelude.source, Prelude.lines, List.flatMap_cons, List.flatMap_nil]
      repeat rw [Text.ofString_ofList]
  decide +kernel

theorem letters_are_shown_once :
    ∃ shell, (((new bareSession false).feedAll letterLines).run false).1 = (⟨Bytes.ofString "ab", []⟩, shell) ∧
      shell.history = letterLines ∧ ∀ later,
        ∃ v, ((bareSession.execute fileName (wholeProgram letterLines)).run later).1 = ⟨Bytes.ofString "ab", .ok v⟩ := by
  have each : List.Forall₂ AlwaysPrints (replays [] letterLines) [Bytes.ofString "a", Bytes.ofString "ab"] :=
    List.forall₂_iff_zip.2 ⟨rfl, fun member => (letters_print _ member).1⟩
  obtain ⟨unaffected, shell, s, ran, kept⟩ :=
    keeps_printing (by decide +kernel : ∀ line ∈ letterLines, line.width ≤ maxLine) (by decide +kernel) (by decide +kernel) each
  have apart : (replays [] letterLines).IsChain fun source source' =>
      ∀ a ∈ assembledBare source, ∀ a' ∈ assembledBare source', Apart (fun _ => True) bareSession a a' := by
    refine .cons_cons (fun a found a' found' => ?_) (.singleton _)
    obtain ⟨modules, none, unentered⟩ := (letters_print _ List.mem_cons_self).2 a found
    obtain ⟨modules', none', -⟩ := (letters_print _ (List.mem_cons_of_mem _ List.mem_cons_self)).2 a' found'
    constructor
    · exact (spells_of_assembled (s := false) steady_bare trivial found).keeps
        (spells_of_assembled (s := false) steady_bare trivial found') (modules.trans modules'.symm) none none'
    · refine fun u _ => Interpreter.runEntry_of_unentered (.inr fun d member same => unentered ?_) _
      exact same ▸ List.mem_map_of_mem member
  obtain ⟨-, whole⟩ := shows_each_output_once steady_bare (by decide +kernel) (by decide) (by decide +kernel) unaffected apart
    trivial ran kept
  exact ⟨shell, congrArg Prod.fst ran, kept, fun later => whole later trivial⟩

/-- An entry method is called behind all statements, so what it prints is in the way of what a later input prints: that is
lost, and what the method prints is shown again. -/
theorem entry_output_is_shown_again :
    ∃ shell, (((new bareSession false).feedAll entryLines).run false).1 = (⟨Bytes.ofString "aa", []⟩, shell) ∧
      (inputsOf [] entryLines).map Text.trim = entryLines ∧ (∀ input ∈ entryLines, isExpression input = false) ∧
        shell.history = entryLines ∧
          ((bareSession.execute fileName (wholeProgram entryLines)).run false).1.output = Bytes.ofString "ba" := by
  have each : List.Forall₂ AlwaysPrints (replays [] entryLines) [Bytes.ofString "a", Bytes.ofString "ba"] :=
    List.forall₂_iff_zip.2 ⟨rfl, fun member => entries_print _ member⟩
  have entered : (inputsOf [] entryLines).map Text.trim = entryLines := by decide +kernel
  have complete : ∀ input ∈ entryLines, isExpression input = false := by decide +kernel
  obtain ⟨unaffected, shell, s, ran, kept⟩ := keeps_printing (by decide +kernel) entered complete each
  have last : wholeProgram entryLines ∈ replays [] entryLines := List.mem_cons_of_mem _ (List.mem_singleton.2 rfl)
  have whole : AlwaysPrints (wholeProgram entryLines) (Bytes.ofString "ba") :=
    entries_print (_, _) (List.mem_cons_of_mem _ (List.mem_singleton.2 rfl))
  obtain ⟨v, ended⟩ := whole.prints.execute steady_bare (unaffected _ last) (s := false) trivial
  exact ⟨shell, congrArg Prod.fst ran, entered, complete, kept, congrArg RunRecord.output ended⟩

end Shell

end ClassScript
