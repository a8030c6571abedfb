import ClassScript.Proofs.Conducted
import ClassScript.Proofs.Headers
import ClassScript.Proofs.Samples

/-!
Which file a failure names. Running an accepted program keeps the state orderly from statement to statement
(`run_finishes`), so a failure that has a place lies at a node of the program, and in the file of the
statement around that node unless the code was carried along (`failure_lies_in_its_file`). Code that is
carried along is blamed on the file it was called from (`crossing_blames_caller`).
-/

namespace ClassScript

open Evaluation

namespace Evaluation

variable {w : World} {s : State} {k : Evaluator}

/-- How the statements of a program may end: in an orderly state, or at a node that a file answers for. -/
def Finishes (w : World) (s : State) : Except Stop Value × State → Prop
  | (.ok _, s') => Later s s' ∧ Orderly w s' ∧ (w.Plain → Settled s s')
  | (.error (.failed d), _) => d.kind = .execution → w.program.Excuses d.file d.span
  | (.error _, _) => True

/-- A statement of a program may run in its file. -/
theorem sanctions_placed {p : LinkedProgram} {placed : Placed} (member : placed ∈ p.statements) :
    p.Sanctions placed.file placed.statement.sites :=
  fun site within _ home => ⟨placed, member, site, within, rfl, fun stays => (home stays).symm⟩

/-- One statement after the other runs in its file, and leaves an orderly state for the next. -/
theorem runAll_finishes (conducted : k.Conducted w) {actions : List Placed} (within : actions ⊆ w.program.statements)
    (orderly : Orderly w s) : Finishes w s (runAll k actions w s) := by
  induction actions generalizing s with
  | nil => exact ⟨Later.refl s, orderly, fun _ => settled_of_later (Later.refl s)⟩
  | cons a actions ih =>
    have moved : Unaffected s { s with file := a.file } := unaffected_rfl rfl rfl rfl rfl
    have conducts : Conducts w s a.file (k.exec a.statement Environment.global) Anything :=
      conducted.exec (sanctions_placed (within List.mem_cons_self))
    have ended := conducts _ moved.later (moved.orderly orderly) rfl
    unfold runAll
    rw [bind_run]
    show Finishes w s ((k.exec a.statement Environment.global >>= _ : Run Value) w { s with file := a.file })
    rw [bind_run]
    rcases ran : k.exec a.statement Environment.global w { s with file := a.file } with ⟨(d | _ | _) | outcome, t⟩
    · rw [ran] at ended
      exact ended.2
    · trivial
    · trivial
    · rw [ran] at ended
      obtain ⟨kept, settled, -⟩ := ended
      have later : Later s t := moved.later.trans kept.later
      have settled (plain : w.Plain) : Settled s t :=
        (settled_of_later moved.symm.later).trans (settled plain) kept.later
      cases outcome with
      | returned v => exact ⟨later, kept.orderly, settled⟩
      | normal =>
        have rest := ih (fun a' member => within (List.mem_cons_of_mem _ member)) kept.orderly
        dsimp only
        rcases ended : runAll k actions w t with ⟨(d | _ | _) | v, u⟩
        · rw [ended] at rest
          exact rest
        · trivial
        · trivial
        · rw [ended] at rest
          obtain ⟨later', orderly', settled'⟩ := rest
          exact ⟨later.trans later', orderly', fun plain => (settled plain).trans (settled' plain) later'⟩

/-- A program that is loaded has built nothing yet. -/
theorem state_load (i : Interpreter) (p : LinkedProgram) :
    (i.load p).watch.state.heap = .laidOut i.addresses ∧ (i.load p).watch.state.classes = [] ∧
      (i.load p).watch.state.interfaces = [] := by
  unfold Interpreter.watch
  split <;> exact ⟨rfl, rfl, rfl⟩

theorem orderly_load (i : Interpreter) (p : LinkedProgram) : Orderly w (i.load p).watch.state := by
  obtain ⟨heap, known, interfaces⟩ := state_load i p
  constructor
  · simp [known]
  · simp [heap, Heap.laidOut]
  · simp [State.interface?, interfaces]
  · simp [heap, Heap.laidOut]

theorem world_load (i : Interpreter) (p : LinkedProgram) :
    (i.load p).watch.world = some (.ofProgram p i.clock) := by
  unfold Interpreter.watch
  split <;> rfl

end Evaluation

namespace Interpreter

/-- The outcome of a computation as an interpreter reports it. -/
def outcome {α : Type} (i : Interpreter) (ran : Except Stop α × State) : Except Stop α × Interpreter :=
  (ran.1.mapError (·.reported ran.2.file), { i with state := ran.2 })

theorem exec_eq {α : Type} {i : Interpreter} {w : World} (loaded : i.world = some w) (x : Evaluator → Run α) :
    i.exec x = i.outcome (x (evaluator (maxSteps w.program)) w i.state) := by
  obtain ⟨world, clock, addresses, state, limit⟩ := i
  cases loaded
  rfl

theorem run_eq (i : Interpreter) (p : LinkedProgram) :
    i.run p = (i.load p).watch.outcome
      (runAll (evaluator (maxSteps p)) p.actions (.ofProgram p i.clock) (i.load p).watch.state) :=
  exec_eq (world_load i p) _

end Interpreter

theorem run_finishes {p : LinkedProgram} {r : Registry} (describes : r.Describes p) (i : Interpreter) :
    Finishes (.ofProgram p i.clock) (i.load p).watch.state
      (runAll (evaluator (maxSteps p)) p.actions (.ofProgram p i.clock) (i.load p).watch.state) :=
  runAll_finishes (evaluator_conducted (linked_of_describes describes) _) (List.filter_subset_self _) (orderly_load i p)

/-- What a program that has run leaves behind. -/
structure Ran (p : LinkedProgram) (clock : Float) (i : Interpreter) : Prop where
  world : i.world = some (.ofProgram p clock)
  orderly : Orderly (.ofProgram p clock) i.state
  finished : (World.ofProgram p clock).Plain →
    ∀ (id : Nat) (c : ClassDef), i.state.heap.classes[id]? = some c → c.hasMembers = true

theorem ran_of_run {p : LinkedProgram} {r : Registry} (describes : r.Describes p) {i after : Interpreter} {v : Value}
    (ran : i.run p = (.ok v, after)) : Ran p i.clock after := by
  have finished := run_finishes describes i
  rw [Interpreter.run_eq] at ran
  rcases ended : runAll (evaluator (maxSteps p)) p.actions (.ofProgram p i.clock) (i.load p).watch.state with
    ⟨stop | v', s⟩
  · rw [ended] at ran
    cases ran
  · rw [ended] at finished ran
    cases ran
    obtain ⟨later, orderly, settled⟩ := finished
    refine ⟨world_load i p, orderly, fun plain id c found => ?_⟩
    by_contra unfinished
    have early := settled plain id c found (Bool.eq_false_iff.2 unfinished)
    rw [(state_load i p).1] at early
    exact absurd early (Nat.not_lt_zero id)

/-- A failure at run time that has a place lies at a node of the program. It names the file of the statement
around that node, unless the node is in code that is carried along to where it is called from. -/
theorem failure_lies_in_its_file {p : LinkedProgram} {c : Checked} (accepted : p.check = .ok c) (i : Interpreter)
    {d : Diagnostic} {after : Interpreter} (failed : i.run p = (.error (.failed d), after))
    (kind : d.kind = .execution) (placed : d.span ≠ Span.none) :
    ∃ s ∈ p.statements, ∃ site ∈ s.statement.sites,
      site.node.span = d.span ∧ (site.carried = false → s.file = d.file) := by
  have finished := run_finishes (describes_of_check accepted) i
  rw [Interpreter.run_eq] at failed
  have stopped := congrArg Prod.fst failed
  rcases ran : runAll (evaluator (maxSteps p)) p.actions (.ofProgram p i.clock) (i.load p).watch.state with
    ⟨(e | _ | slot) | v, s⟩
  · rw [ran] at finished stopped
    obtain rfl : e = d := by
      simpa [Interpreter.outcome, Except.mapError, Stop.reported] using stopped
    obtain none | ⟨n, same, s, member, site, within, rfl, home⟩ := finished kind
    · exact absurd none placed
    · exact ⟨s, member, site, within, same, home⟩
  · rw [ran] at stopped
    simp [Interpreter.outcome, Except.mapError, Stop.reported] at stopped
  · rw [ran] at stopped
    obtain rfl := Stop.failed.inj (Except.error.inj stopped)
    cases kind
  · rw [ran] at stopped
    cases stopped

/-! ## Code that is called from another file -/

open Sample

/-- The name of the member that is read of null. -/
def readName : Name := ⟨"x", ⟨default, [], ⟨17, 18, 1, 18⟩⟩⟩

/-- A class `Lib` in one file with a static method `run`, which is called in another. -/
def calling (param : String) (body argument : Expr) : LinkedProgram :=
  ⟨"main.clasp",
    [⟨"lib.clasp", .declares (cls "Lib" none [] [method true "run" [param] [.does default body]])⟩,
      ⟨"main.clasp", .does default (call "Lib" "run" [argument])⟩],
    default⟩

/-- `class Lib { public static run(o) { o.x; } }` in one file, and `Lib.run(null);` in another. -/
def staying : LinkedProgram := calling "o" (.member default (.name (named "o")) readName) (.null default)

/-- `class Lib { public static run(f) { f(null); } }` in one file, and `Lib.run((o) -> o.x);` in another. -/
def crossing : LinkedProgram :=
  calling "f" (.call default (.name (named "f")) [.null default])
    (.lambda default [param "o"] none (.value (.member default (.name (named "o")) readName)))

/-- The member that is read of null, blamed on the file of the class. -/
def nullRead : Diagnostic := ⟨.execution, "R004", "cannot read x of null", ⟨17, 18, 1, 18⟩, "lib.clasp"⟩

theorem staying_fails : failure? ((Interpreter.new 0 none).run staying) = some nullRead := by decide +kernel

theorem crossing_fails : failure? ((Interpreter.new 0 none).run crossing) = some nullRead := by decide +kernel

theorem staying_lies_in_its_file :
    ∃ s ∈ staying.statements, ∃ site ∈ s.statement.sites,
      site.node.span = nullRead.span ∧ (site.carried = false → s.file = "lib.clasp") := by
  obtain ⟨c, accepted, -⟩ := exists_accepted (p := staying) (P := fun _ => True) (by decide +kernel)
  exact failure_lies_in_its_file accepted (Interpreter.new 0 none) (eq_of_failure? staying_fails) rfl (by decide)

/-- The lambda stands in the calling file, and its failure is blamed on the file of the class. -/
theorem crossing_blames_caller :
    (∃ c, crossing.check = .ok c) ∧
      (∃ after, (Interpreter.new 0 none).run crossing = (.error (.failed nullRead), after)) ∧
      nullRead.kind = .execution ∧ nullRead.span ≠ Span.none ∧
      ∀ s ∈ crossing.statements, ∀ site ∈ s.statement.sites,
        site.node.span = nullRead.span → s.file ≠ nullRead.file := by
  obtain ⟨c, accepted, -⟩ := exists_accepted (p := crossing) (P := fun _ => True) (by decide +kernel)
  exact ⟨⟨c, accepted⟩, ⟨_, eq_of_failure? crossing_fails⟩, rfl, by decide, by decide +kernel⟩

end ClassScript
