import ClassScript.Modules.Resolve
import ClassScript.Evaluation.Interpreter
import ClassScript.Typing.Program

/-!
An assembly: the units of a program, from which it is linked, and the texts to show with its
diagnostics. It is checked, and a program that was accepted is run.
-/

namespace ClassScript

/-- The entry file and all units that belong to it. -/
structure Assembly where
  entry : SourceUnit
  units : List SourceUnit

namespace Assembly

/-- The linked program. -/
def program (a : Assembly) : LinkedProgram := Modules.link a.units

/-- The text of a file; for an unknown file, that of the entry. -/
def sourceOf (a : Assembly) (file : String) : Text :=
  match a.units.find? fun u => u.file == file with
  | some u => u.source
  | none => a.entry.source

end Assembly

/-- A diagnostic with the text to show for it. -/
structure Report where
  diagnostic : Diagnostic
  source : Text

namespace Report

/-- The report as shown. -/
def text (r : Report) : Bytes := r.diagnostic.rendered r.source

end Report

/-- The report of a diagnostic about an assembled program. -/
def Assembly.report (a : Assembly) (d : Diagnostic) : Report :=
  let d := d.placedIn a.entry.file
  ⟨d, a.sourceOf d.file⟩

variable {m : Type → Type} [Monad m]

/-- Assembles the program of an entry text. Until all modules are known, diagnostics are shown with
the entry text. -/
def Modules.assemble (f : Modules.Fetcher m) (libraries : List Text) (fuel : Nat)
    (path source : Text) : m (Except Report Assembly) := do
  let file := path.shown
  match Program.ofSource file source with
  | .error d => return .error ⟨d.placedIn file, source⟩
  | .ok program =>
    let entry : SourceUnit := ⟨path, source, program, false⟩
    match ← Modules.resolve f libraries fuel entry with
    | .error d => return .error ⟨d.placedIn file, source⟩
    | .ok units => return .ok ⟨entry, units⟩

/-! ## Checking and running -/

/-- What a run of a program leaves behind. -/
structure RunRecord where
  output : Bytes
  result : Except Bytes (Value × Heap)

namespace RunRecord

/-- The record of a program that was not started. -/
def refused (r : Report) : RunRecord := ⟨[], .error r.text⟩

end RunRecord

namespace Assembly

/-- Checks the program. -/
def check (a : Assembly) : Except Report Checked :=
  match a.program.check with
  | .error (.rejected d) => .error (a.report d)
  | .error .endless =>
    let cause := "the types of the program do not end"
    .error (a.report ⟨.internal, "I001", cause, Span.none, a.entry.file⟩)
  | .ok c => .ok c

/-- Runs the program and its entry method. Failures are given as they are shown. -/
def run (a : Assembly) (around : Surroundings) (entryClass entryMethod : String) : RunRecord :=
  let (r, i) := (Interpreter.on around).runEntry a.program entryClass entryMethod
  let output := i.state.output.toList
  match r with
  | .ok v => ⟨output, .ok (v, i.state.heap)⟩
  | .error (.failed d) => ⟨output, .error (a.report d).text⟩
  | .error _ => ⟨output, .error "the program does not end"⟩

/-- Checks the program and runs it if it is accepted. -/
def execute (a : Assembly) (around : Surroundings) (entryClass entryMethod : String) : RunRecord :=
  match a.check with
  | .error r => .refused r
  | .ok _ => a.run around entryClass entryMethod

end Assembly

end ClassScript
