import ClassScript.Proofs.ClassTable

/-!
# Programs that go on

A program goes on as another one if that one has further statements behind the same ones, perhaps with a longer
alternative in the last of them, and declares nothing more under a name that the code of the first looks up
(`LinkedProgram.GoesOn`). Then the run of the second does what that of the first does, and more: a computation that comes
to an end comes to the same end in a world with more declarations (`Carries`), and what is printed stays (`Prints`). So
what a program prints that runs to its end is where the output of every program begins as which it goes on
(`output_goes_on`).
-/

namespace ClassScript

/-! ## Statements that go on -/

/-- Statements of files go on as others, with more behind them and perhaps a longer alternative in the last. -/
inductive Placed.GoOn : List Placed → List Placed → Prop
  | more {ps : List Placed} : GoOn [] ps
  | prolonged {file : String} {s s' : Stmt} {ps : List Placed} : s.Prolongs s' → GoOn [⟨file, s⟩] (⟨file, s'⟩ :: ps)
  | cons {p : Placed} {ps ps' : List Placed} : GoOn ps ps' → GoOn (p :: ps) (p :: ps')

theorem Placed.GoOn.append {ps ps' : List Placed} (goOn : Placed.GoOn ps ps') (front : List Placed) :
    Placed.GoOn (front ++ ps) (front ++ ps') := by
  induction front with
  | nil => exact goOn
  | cons p front ih => exact .cons ih

/-- If statements go on as others, so does what takes effect of them. -/
theorem Stmt.GoOn.placed {file : String} {ss ss' : List Stmt}
    (goOn : Stmt.GoOn (ss.map Stmt.bare) (ss'.map Stmt.bare)) :
    Placed.GoOn (((ss.map (Placed.mk file)).filter fun p => !p.statement.isDeclaration && !p.statement.isImport).map Placed.bare)
      (((ss'.map (Placed.mk file)).filter fun p => !p.statement.isDeclaration && !p.statement.isImport).map Placed.bare) := by
  have written (ss : List Stmt) :
      ((ss.map (Placed.mk file)).filter fun p => !p.statement.isDeclaration && !p.statement.isImport).map Placed.bare =
        ((ss.map Stmt.bare).filter fun s => !s.isDeclaration && !s.isImport).map (Placed.mk file) := by
    have kept (s : Stmt) : (!s.bare.isDeclaration && !s.bare.isImport) = (!s.isDeclaration && !s.isImport) := by
      cases s <;> rfl
    simp only [List.filter_map, List.map_map, Function.comp_def, kept]
    rfl
  rw [written, written]
  generalize ss.map Stmt.bare = first at goOn
  generalize ss'.map Stmt.bare = longer at goOn
  induction goOn with
  | more => exact .more
  | prolonged prolongs =>
    -- Only a branch has a longer alternative, and it takes effect with either.
    cases prolongs with
    | alternative => exact .prolonged .alternative
    | nested prolongs => exact .prolonged (.nested prolongs)
  | @cons s ss ss' _ ih =>
    rw [List.filter_cons, List.filter_cons]
    split
    · exact .cons ih
    · exact ih

namespace Evaluation

variable {α α' β β' : Type} {ok : String → Prop} {w w' : World} {s : State}

/-! ## Computations in a larger world -/

/-- Why a computation stops, without spans. -/
def Stop.bare : Stop → Stop
  | .failed d => .failed d.bare
  | stop => stop

/-- Unless the first computation did not end, the second one ended alike, in the bare state. -/
def Carried (ok : String → Prop) (first second : Except Stop α × State) : Prop :=
  first.1 = .error .endless ∨ Held ok first.2 ∧ second = (first.1.mapError Stop.bare, first.2.bare)

/-- What the first computation does in the first world, the second one does in the second, from bare states. -/
def Carries (ok : String → Prop) (w w' : World) (x y : Run α) : Prop :=
  ∀ s, Held ok s → Carried ok (x w s) (y w' s.bare)

theorem carries_pure (a : α) : Carries ok w w' (pure a : Run α) (pure a) := fun _ held => .inr ⟨held, rfl⟩

theorem carries_throw (stop : Stop) : Carries ok w w' (throw stop : Run α) (throw stop.bare) := fun _ held =>
  .inr ⟨held, rfl⟩

theorem carries_bind {x y : Run α} {f g : α → Run β} (first : Carries ok w w' x y)
    (rest : ∀ a, Carries ok w w' (f a) (g a)) : Carries ok w w' (x >>= f) (y >>= g) := by
  intro s held
  have begun := first s held
  rw [bind_run, bind_run]
  rcases ran : x w s with ⟨stop | a, t⟩
  · rw [ran] at begun
    rcases begun with endless | ⟨held', same⟩
    · exact .inl (congrArg Except.error (Except.error.inj endless))
    · rw [same]
      exact .inr ⟨held', rfl⟩
  · rw [ran] at begun
    rcases begun with endless | ⟨held', same⟩
    · cases endless
    · rw [same]
      exact rest a t held'

theorem carries_attempt_bind {x y : Run α} {f g : Except Diagnostic α → Run β} (first : Carries ok w w' x y)
    (failed : ∀ d, Carries ok w w' (f (.error d)) (g (.error d.bare)))
    (rest : ∀ a, Carries ok w w' (f (.ok a)) (g (.ok a))) : Carries ok w w' (attempt x >>= f) (attempt y >>= g) := by
  intro s held
  have begun := first s held
  rw [bind_run, bind_run]
  unfold attempt
  rcases ran : x w s with ⟨(d | _ | slot) | a, t⟩
  · rw [ran] at begun
    rcases begun with endless | ⟨held', same⟩
    · cases endless
    · rw [same]
      exact failed d t held'
  · exact .inl rfl
  · rw [ran] at begun
    rcases begun with endless | ⟨held', same⟩
    · cases endless
    · rw [same]
      exact .inr ⟨held', rfl⟩
  · rw [ran] at begun
    rcases begun with endless | ⟨held', same⟩
    · cases endless
    · rw [same]
      exact rest a t held'

theorem carries_covering {x y : Run α} (inner : Carries ok w w' x y) :
    Carries ok w w' (covering x) (covering y) := by
  refine carries_attempt_bind inner (fun d => ?_) fun a => carries_pure _
  dsimp only
  have code : d.bare.code = d.code := rfl
  rw [code]
  split
  · exact carries_throw (.failed d)
  · exact carries_pure _

theorem carries_probing {x y : Run α} (inner : Carries ok w w' x y) :
    Carries ok w w' (probing x) (probing y) :=
  carries_attempt_bind inner (fun _ => carries_pure _) fun _ => carries_pure _

theorem carries_checkCancelled (span : Span) :
    Carries ok w w' (checkCancelled span) (checkCancelled Span.none) := by
  intro s held
  have held' (t : State) (heap : t.heap = s.heap) (interfaces : t.interfaces = s.interfaces) : Held ok t :=
    ⟨fun found => held.closures (heap ▸ found), fun found => held.classes (heap ▸ found),
      fun member => held.interfaces (interfaces ▸ member)⟩
  have allowance : s.bare.allowance = s.allowance := rfl
  rw [checkCancelled_eq, checkCancelled_eq, allowance]
  rcases s.allowance with _ | _ | n
  · exact .inr ⟨held' _ rfl rfl, rfl⟩
  · exact .inr ⟨held' _ rfl rfl, rfl⟩
  · exact .inr ⟨held' _ rfl rfl, rfl⟩

/-- That a larger world carries on is respected by evaluation. -/
theorem respected_carries (further : w.Extends ok w') : Respected ok w w' fun x y => Carries ok w w' x y where
  further := further
  pure := carries_pure
  bind := carries_bind
  get_bind rest s held := rest s held s held
  read_bind rest := rest
  modifyGet {_ f g} mirrored s held := by
    obtain ⟨minor, same⟩ := mirrored s
    refine .inr ⟨minor.held held, ?_⟩
    have changed : (modifyGet g : Run _) w' s.bare = (.ok (g s.bare).1, (g s.bare).2) := rfl
    rw [changed, same]
    rfl
  restoring {_ x y restore} inner minor same s held := by
    have begun := inner s held
    unfold restoring
    rcases ran : x w s with ⟨r, t⟩
    rw [ran] at begun
    rcases begun with endless | ⟨held', again⟩
    · exact .inl endless
    · rw [again]
      exact .inr ⟨(minor t).held held', congrArg (r.mapError Stop.bare, ·) (same t)⟩
  failed d := carries_throw (.failed d)
  deadScope slot := carries_throw (.deadScope slot)
  endless _ _ _ := .inl rfl
  checkCancelled := carries_checkCancelled
  covering := carries_covering

theorem carries_registering (name : String) {c : ClassDef} (within : c.decl.Within ok) :
    Carries ok w w' (registering name c) (registering name c.bare) := by
  refine fun s held => .inr ⟨⟨held.closures, fun {i d} found => ?_, held.interfaces⟩, ?_⟩
  · have found : (s.heap.classes.push c)[i]? = some d := found
    rw [Array.getElem?_push] at found
    split at found
    · cases found
      exact within
    · exact held.classes found
  · have size : s.bare.heap.classes.size = s.heap.classes.size := Array.size_map
    have pushed : s.bare.heap.classes.push c.bare = (s.heap.classes.push c).map ClassDef.bare := Array.map_push.symm
    have known : registering name c.bare w' s.bare = (.ok s.bare.heap.classes.size, s.bare.withClass name c.bare) := rfl
    rw [known, State.withClass, size, pushed]
    rfl

theorem carries_orForget {x y : Run α} (name : String) (inner : Carries ok w w' x y) :
    Carries ok w w' (orForget name x) (orForget name y) := by
  refine carries_attempt_bind inner (fun d => ?_) fun _ => carries_pure _
  exact fun s held => .inr ⟨⟨held.closures, held.classes, held.interfaces⟩, rfl⟩

/-- Evaluation in a larger world does the same, and may take more nested steps. -/
theorem evaluator_carries (further : w.Extends ok w') {n n' : Nat} (le : n ≤ n') :
    (evaluator n).Related ok (fun x y => Carries ok w w' x y) (evaluator n') := by
  have rel := respected_carries further
  have found {k k' : Evaluator} (both : k.Related ok (fun x y => Carries ok w w' x y) k') {name : String} (span : Span)
      (allowed : ok name) : Carries ok w w' (classOf k name span) (classOf k' name Span.none) :=
    classOf_related rel both (fun name _ within => carries_registering name within)
      (fun name inner => carries_orForget name inner) allowed span
  exact evaluator_related rel found (fun both _ _ boxed => carries_probing (found both _ (further.boxed boxed))) le

/-! ## What is printed stays -/

/-- A computation only adds to what has been printed. -/
def Prints (w : World) (x : Run α) : Prop := ∀ s, s.output.toList <+: (x w s).2.output.toList

theorem output_bind {x : Run α} {f : α → Run β} (rest : ∀ a, Prints w (f a)) (s : State) :
    (x w s).2.output.toList <+: ((x >>= f) w s).2.output.toList := by
  rw [bind_run]
  rcases x w s with ⟨stop | a, t⟩
  · exact List.prefix_rfl
  · exact rest a t

theorem prints_bind {x : Run α} {f : α → Run β} (first : Prints w x) (rest : ∀ a, Prints w (f a)) :
    Prints w (x >>= f) := fun s => (first s).trans (output_bind rest s)

theorem prints_attempt {x : Run α} (prints : Prints w x) : Prints w (attempt x) := by
  intro s
  have begun := prints s
  unfold attempt
  rcases ran : x w s with ⟨(d | _ | slot) | a, t⟩ <;> rwa [ran] at begun

theorem prints_still {x : Run α} (still : ∀ s, (x w s).2.output = s.output) : Prints w x :=
  fun s => ⟨[], by rw [List.append_nil, still s]⟩

/-- That what is printed stays is respected by evaluation. -/
theorem respected_prints (w : World) : Respected (fun _ => True) w w.bare fun x _ => Prints w x where
  further := w.extends_bare
  pure _ := prints_still fun _ => rfl
  bind := prints_bind
  get_bind rest s := rest s (held_any s) s
  read_bind rest := rest
  modifyGet mirrored s := (mirrored s).minor.output
  restoring inner minor _ s := (inner s).trans (minor _).output
  failed _ := prints_still fun _ => rfl
  deadScope _ := prints_still fun _ => rfl
  endless _ := prints_still fun _ => rfl
  checkCancelled span := by
    refine prints_still fun s => ?_
    rw [checkCancelled_eq]
    rcases s.allowance with _ | _ | n <;> rfl
  covering inner := by
    refine prints_bind (prints_attempt inner) fun r => prints_still fun s => ?_
    cases r with
    | ok v => rfl
    | error d =>
      dsimp only
      split <;> rfl

theorem prints_orForget {x : Run α} (name : String) (inner : Prints w x) : Prints w (orForget name x) := by
  refine prints_bind (prints_attempt inner) fun r => prints_still fun s => ?_
  cases r <;> rfl

theorem evaluator_prints (w : World) (n : Nat) :
    (evaluator n).Related (fun _ => True) (fun x _ => Prints w x) (evaluator n) := by
  have found {k : Evaluator} (both : k.Related (fun _ => True) (fun x _ => Prints w x) k) (name : String) (span : Span) :
      Prints w (classOf k name span) :=
    classOf_related (respected_prints w) both (fun _ _ _ => prints_still fun _ => rfl)
      (fun name inner => prints_orForget name inner) trivial span
  refine evaluator_satisfies (respected_prints w) (fun both name span _ => found both name span) ?_ n
  intro k both v name _
  refine prints_bind (prints_attempt (found both name Span.none)) fun r => prints_still fun s => ?_
  cases r <;> rfl

theorem runAll_prints (w : World) (n : Nat) (actions : List Placed) : Prints w (runAll (evaluator n) actions) :=
  runAll_related (respected_prints w) (evaluator_prints w n) fun _ _ => covers_any _

/-- From every state, the second computation prints first what the first one prints. -/
def PrintsMore (w : World) (x : Run α) (y : Run β) : Prop :=
  ∀ s, (x w s).2.output.toList <+: (y w s).2.output.toList

theorem printsMore_bind {x : Run α} {f g : α → Run β} (rest : ∀ a, PrintsMore w (f a) (g a)) :
    PrintsMore w (x >>= f) (x >>= g) := by
  intro s
  rw [bind_run, bind_run]
  rcases x w s with ⟨stop | a, t⟩
  · exact List.prefix_rfl
  · exact rest a t

/-- If nothing is printed behind the first computation, more may be behind the second. -/
theorem printsMore_then {x : Run α} {y : Run β} {f : α → Run α'} {g : β → Run β'} (first : PrintsMore w x y)
    (still : ∀ a s, (f a w s).2.output = s.output) (prints : ∀ b, Prints w (g b)) : PrintsMore w (x >>= f) (y >>= g) := by
  intro s
  have alone : ((x >>= f) w s).2.output = (x w s).2.output := by
    rw [bind_run]
    rcases x w s with ⟨stop | a, t⟩
    · rfl
    · exact still a t
  rw [alone]
  exact (first s).trans (output_bind prints s)

/-- With a longer alternative a statement prints more. -/
theorem exec_prolonged {first longer : Stmt} (prolongs : first.Prolongs longer) (w : World) (n : Nat) (scope : ScopeId) :
    PrintsMore w ((evaluator n).exec first scope) ((evaluator n).exec longer scope) := by
  induction prolongs generalizing n with
  | @alternative m condition yes no =>
    cases n with
    | zero => exact fun s => List.prefix_rfl
    | succ n =>
      refine printsMore_bind fun _ => printsMore_bind fun holds => ?_
      cases holds
      · exact (evaluator_prints w n).exec scope (covers_any no.walk)
      · exact fun s => List.prefix_rfl
  | nested _ ih =>
    cases n with
    | zero => exact fun s => List.prefix_rfl
    | succ n =>
      refine printsMore_bind fun _ => printsMore_bind fun holds => ?_
      cases holds
      · exact ih n
      · exact fun s => List.prefix_rfl

/-- What statements print is where the output begins of those as which they go on. -/
theorem runAll_goOn {first longer : List Placed} (goOn : Placed.GoOn first longer) (w : World) (n : Nat) :
    PrintsMore w (runAll (evaluator n) first) (runAll (evaluator n) longer) := by
  induction goOn with
  | more => exact runAll_prints w n _
  | @prolonged file _ _ ps prolongs =>
    refine printsMore_bind fun _ => printsMore_then (exec_prolonged prolongs w n Environment.global) (fun o s => ?_) fun o => ?_
    · cases o <;> rfl
    · cases o
      · exact runAll_prints w n ps
      · exact prints_still fun _ => rfl
  | cons _ ih =>
    refine printsMore_bind fun _ => printsMore_bind fun o => ?_
    cases o
    · exact ih
    · exact fun s => List.prefix_rfl

end Evaluation

/-! ## Programs -/

open Evaluation

namespace LinkedProgram

/-- The code of a program may look up a class or an interface under the name. -/
def Looks (p : LinkedProgram) (name : String) : Prop :=
  (∃ q ∈ p.statements, name ∈ q.statement.classNames) ∨ ∃ c : HostClass, c.name = name

/-- The declaration that a name stands for, with its file, without tokens and spans. -/
def bareDeclaration? (p : LinkedProgram) (name : String) : Option (String × Declaration) :=
  (p.declarations.reverse.find? fun d => d.2.name.text == name).map barePlaced

/-- A program goes on as another one: what takes effect in the first goes on as what takes effect in the other, and
each name that the code of the first may look up stands for the same declaration in both. -/
structure GoesOn (p p' : LinkedProgram) : Prop where
  actions : Placed.GoOn (p.actions.map Placed.bare) (p'.actions.map Placed.bare)
  declared {name : String} : p.Looks name → p'.bareDeclaration? name = p.bareDeclaration? name
  longer : p.statements.length ≤ p'.statements.length

/-- Nothing more is printed if the program is entered than if it is run. -/
def EntersQuietly (p : LinkedProgram) (u : Surroundings) (cls name : String) : Prop :=
  ((Interpreter.on u).runEntry p cls name).2.state.output = ((Interpreter.on u).run p).2.state.output

/-- There is no entry point: no class is asked for, or the program declares none of that name. -/
def Unentered (p : LinkedProgram) (cls : String) : Prop := cls = "" ∨ ∀ d ∈ p.declarations, d.2.name.text ≠ cls

end LinkedProgram

namespace Evaluation

variable {α : Type} {p p' : LinkedProgram}

/-- For the code of a program, the world of one as which it goes on has the same declarations. -/
theorem World.extends_ofProgram (goes : p.GoesOn p') (clock : Float) :
    (World.ofProgram p clock).Extends p.Looks (World.ofProgram p' clock).bare where
  declared {name} looks := ((World.ofProgram p' clock).extends_bare.declared trivial).trans (goes.declared looks)
  within {d} member := by
    obtain ⟨q, written, declares⟩ := List.mem_filterMap.1 (List.mem_reverse.1 member)
    refine Declaration.within_of_classNames fun n mentioned => .inl ⟨q, written, ?_⟩
    split at declares
    · next decl same =>
      cases declares
      rwa [same]
    · cases declares
  host c := .inr ⟨c, rfl⟩
  levels := goes.longer
  clock := rfl

/-- What takes effect when a program runs looks up the names of the program. -/
theorem actions_covered (p : LinkedProgram) : ∀ q ∈ p.actions, Covers p.Looks q.statement.walk := fun q member =>
  Stmt.covers_walk fun _ mentioned => .inl ⟨q, (List.mem_filter.1 member).1, mentioned⟩

theorem hasNamed_prints (w : World) (n : Nat) (cls name : String) : Prints w (hasNamed (evaluator n) cls name) := by
  refine prints_bind (prints_still fun _ => rfl) fun known => ?_
  split
  · exact prints_still fun _ => rfl
  · refine prints_bind (prints_attempt ((evaluator_prints w n).classOf Span.none trivial)) fun found => ?_
    cases found with
    | error d => exact prints_still fun _ => rfl
    | ok id => exact prints_bind (prints_still fun _ => rfl) fun m => prints_still fun _ => rfl

theorem invokeNamed_prints (w : World) (n : Nat) (cls name : String) (args : List Value) :
    Prints w (invokeNamed (evaluator n) cls name args) :=
  invokeNamed_related (respected_prints w) (evaluator_prints w n) trivial name args

end Evaluation

namespace Interpreter

variable {p p' : LinkedProgram}

/-- An operation of an interpreter only adds to what has been printed. -/
theorem exec_prints {α : Type} (i : Interpreter) {x : Evaluator → Run α}
    (prints : ∀ w n, Prints w (x (evaluator n))) : i.state.output.toList <+: (i.exec x).2.state.output.toList := by
  unfold exec
  split
  · exact List.prefix_rfl
  · next w _ => exact prints w _ i.state

theorem invoke_prints (i : Interpreter) (cls name : String) (args : List Value) :
    i.state.output.toList <+: (i.invoke cls name args).2.state.output.toList := by
  have watched : i.watch.state.output = i.state.output := by
    unfold watch
    split <;> rfl
  unfold invoke
  split
  · exact exec_prints i fun _ _ => prints_still fun _ => rfl
  · rw [← watched]
    exact exec_prints i.watch fun w n => invokeNamed_prints w n cls name args

/-- Entering a program prints what running it does, and then what its entry method does. -/
theorem runEntry_prints (i : Interpreter) (p : LinkedProgram) (cls name : String) :
    (i.run p).2.state.output.toList <+: (i.runEntry p cls name).2.state.output.toList := by
  have looked (i : Interpreter) : i.state.output.toList <+: (i.findMethod cls name).2.state.output.toList :=
    exec_prints i (x := fun k => hasNamed k cls name) fun w n => hasNamed_prints w n cls name
  rcases ran : i.run p with ⟨r, i₁⟩
  unfold runEntry
  rw [ran]
  split
  · next i₁ same =>
    cases same
    have first := looked i₁
    split
    · exact List.prefix_rfl
    · split
      · next i₂ found =>
        rw [found] at first
        exact first.trans (invoke_prints i₂ cls name [])
      · next i₂ found => rwa [found] at first
      · next stop i₂ found => rwa [found] at first
  · exact List.prefix_rfl

/-- A program that ends when it is entered ends when it is run. -/
theorem run_ok_of_runEntry {i i' : Interpreter} {cls name : String} {v : Value}
    (entered : i.runEntry p cls name = (.ok v, i')) : ∃ v' i₁, i.run p = (.ok v', i₁) := by
  rcases ran : i.run p with ⟨stop | v', i₁⟩
  · rw [runEntry, ran] at entered
    cases entered
  · exact ⟨v', i₁, rfl⟩

/-- A program without an entry point prints the same when it is entered as when it is run. -/
theorem runEntry_of_unentered {i : Interpreter} {cls : String} (unentered : p.Unentered cls) (name : String) :
    (i.runEntry p cls name).2.state.output = (i.run p).2.state.output := by
  have loaded : (i.run p).2.world = some (.ofProgram p i.clock) := by
    rw [run_eq]
    exact world_load i p
  rcases ran : i.run p with ⟨r, i₁⟩
  rw [ran] at loaded
  unfold runEntry
  rw [ran]
  split
  · next i₁ same =>
    cases same
    split
    · rfl
    · next named =>
      have unknown : (World.ofProgram p i.clock).class? cls = none := by
        have undeclared := unentered.resolve_left fun none => named (beq_iff_eq.2 none)
        rw [World.class?, World.declaration?, List.find?_eq_none.2, Option.filter_none]
        exact fun d member => by simpa using undeclared d (List.mem_reverse.1 member)
      have missing : hasNamed (evaluator (maxSteps p)) cls name (.ofProgram p i.clock) i₁.state = (.ok false, i₁.state) := by
        have asked : (read : Run World) (.ofProgram p i.clock) i₁.state = (.ok (.ofProgram p i.clock), i₁.state) := rfl
        rw [hasNamed, bind_run, asked]
        dsimp only
        rw [unknown]
        rfl
      have found : i₁.findMethod cls name = (.ok false, i₁) := by
        rw [findMethod, exec_eq (show i₁.world = _ from loaded)]
        exact (congrArg i₁.outcome missing).trans rfl
      rw [found]
  · rfl

end Interpreter

open Interpreter

/-- A program that is loaded holds no code yet. -/
theorem held_load {ok : String → Prop} (i : Interpreter) (p : LinkedProgram) : Held ok (i.load p).watch.state := by
  obtain ⟨heap, -, interfaces⟩ := state_load i p
  constructor
  · simp [heap, Heap.laidOut]
  · simp [heap, Heap.laidOut]
  · simp [interfaces]

theorem ok_of_outcome {α : Type} {i i' : Interpreter} {ran : Except Stop α × State} {a : α}
    (ended : i.outcome ran = (.ok a, i')) : ran = (.ok a, i'.state) := by
  rcases ran with ⟨stop | a', t⟩ <;> cases ended
  rfl

/-- What a program prints that runs to its end is where the output begins of every program as which it goes on, on the
same machine. -/
theorem output_goes_on {p p' : LinkedProgram} (goes : p.GoesOn p') {u : Surroundings} {v v' : Value} {i i' : Interpreter}
    (ran : (Interpreter.on u).run p = (.ok v, i)) (ran' : (Interpreter.on u).run p' = (.ok v', i')) :
    i.state.output.toList <+: i'.state.output.toList := by
  let s := ((Interpreter.on u).load p).watch.state
  rw [run_eq] at ran ran'
  -- Both are run once more, in the larger world and with the larger bound.
  have first := runAll_related (respected_carries (World.extends_ofProgram goes u.clock))
    (evaluator_carries (World.extends_ofProgram goes u.clock) (Nat.le_max_left (maxSteps p) (maxSteps p')))
    (actions_covered p) s (held_load _ p)
  have second := runAll_related (respected_carries (World.ofProgram p' u.clock).extends_bare)
    (evaluator_carries (World.ofProgram p' u.clock).extends_bare (Nat.le_max_right (maxSteps p) (maxSteps p')))
    (fun q (_ : q ∈ p'.actions) => covers_any q.statement.walk) s (held_load _ p)
  rw [show runAll (evaluator (maxSteps p)) p.actions (.ofProgram p u.clock) s = (.ok v, i.state) from ok_of_outcome ran]
    at first
  rw [show runAll (evaluator (maxSteps p')) p'.actions (.ofProgram p' u.clock) s = (.ok v', i'.state) from
    ok_of_outcome ran'] at second
  obtain endless | ⟨-, again⟩ := first
  · cases endless
  obtain endless | ⟨-, again'⟩ := second
  · cases endless
  have begins := runAll_goOn goes.actions (World.ofProgram p' u.clock).bare (max (maxSteps p) (maxSteps p')) s.bare
  rw [again, again'] at begins
  exact begins

/-- The same when both are entered, if entering the first prints nothing more than running it. -/
theorem entered_output_goes_on {p p' : LinkedProgram} (goes : p.GoesOn p') {cls name : String} {u : Surroundings}
    (quiet : p.EntersQuietly u cls name)
    {v v' : Value} {i i' : Interpreter} (ran : (Interpreter.on u).runEntry p cls name = (.ok v, i))
    (ran' : (Interpreter.on u).runEntry p' cls name = (.ok v', i')) :
    i.state.output.toList <+: i'.state.output.toList := by
  obtain ⟨_, j, begun⟩ := run_ok_of_runEntry ran
  obtain ⟨_, j', begun'⟩ := run_ok_of_runEntry ran'
  have later := runEntry_prints (Interpreter.on u) p' cls name
  rw [LinkedProgram.EntersQuietly, ran, begun] at quiet
  rw [ran', begun'] at later
  rw [show i.state.output = j.state.output from quiet]
  exact (output_goes_on goes begun begun').trans later

end ClassScript
