import ClassScript.Proofs.ConfinedPhases
import ClassScript.Proofs.InterfaceMethods

/-!
Where faults of typing are placed. The span of a fault is that of a node of the program, and its file is the one in
which the statement around the node stands (`rejection_lies_in_its_file`). The exception is a method that a class
inherits and that does not fit an interface of the class: the fault is placed at the method, but reported in the file
of the class (`inherited_method_blames_heir`).
-/

namespace ClassScript

open Sample

/-- A fault of typing is placed at a node of a statement. It is reported in the file of the statement, unless the node
is a method that does not fit an interface, and the fault is reported in the file of a class that inherits it. -/
theorem rejection_lies_in_its_file {p : LinkedProgram} {d : Diagnostic} (rejected : p.check = .error (.rejected d)) :
    ∃ s ∈ p.statements, d.span ∈ s.statement.spans ∧ (s.file = d.file ∨ p.BlamesHeir s d) := by
  unfold LinkedProgram.check at rejected
  split at rejected
  · next stop ran =>
    cases rejected
    exact Typing.checkProgram_stays.stops ran
  · cases rejected

/-! ## A fault in its file, and one that is blamed on an heir -/

/-- The fault that a program is rejected for. -/
def rejection? (r : Except Typing.Stop Checked) : Option Diagnostic :=
  match r with
  | .error (.rejected d) => some d
  | _ => none

theorem eq_of_rejection? {r : Except Typing.Stop Checked} {d : Diagnostic} (rejected : rejection? r = some d) :
    r = .error (.rejected d) := by
  rcases r with (d' | _) | c <;> simp_all [rejection?]

/-- `class Lib { public static run() { x; } }` in one file, and `Lib.run();` in another. -/
def straying : LinkedProgram :=
  ⟨"main.clasp",
    [⟨"lib.clasp", .declares (cls "Lib" none [] [method true "run" [] [.does default (.name readName)]])⟩,
      ⟨"main.clasp", .does default (call "Lib" "run" [])⟩],
    default⟩

/-- The name that is not defined. -/
def unknownName : Diagnostic := ⟨.typing, "T001", "undefined name x", ⟨17, 18, 1, 18⟩, "lib.clasp"⟩

theorem straying_lies_in_its_file :
    ∃ s ∈ straying.statements, unknownName.span ∈ s.statement.spans ∧ s.file = "lib.clasp" := by
  have rejected : rejection? straying.check = some unknownName := by decide +kernel
  obtain ⟨s, member, within, inFile | ⟨isConformance, -⟩⟩ := rejection_lies_in_its_file (eq_of_rejection? rejected)
  · exact ⟨s, member, within, inFile⟩
  · exact absurd isConformance (by decide)

/-- `open class Base { public go(a) { } }` in one file, and `interface I { go(); }` and
`class C extends Base implements I { }` in another. -/
def unfitting : LinkedProgram :=
  ⟨"main.clasp",
    [⟨"lib.clasp", .declares (cls "Base" none []
        [{ method false "go" ["a"] [] with mark := ⟨default, ⟨18, 34, 1, 19⟩⟩ }])⟩,
      ⟨"main.clasp", .declares (interface "I" [] [{ method false "go" [] [] with body := none }])⟩,
      ⟨"main.clasp", .declares (implementing "C" (some "Base") ["I"] [])⟩],
    default⟩

/-- The method of `Base` does not fit the interface; the fault is reported in the file of `C`, in which no node has
its span. -/
theorem inherited_method_blames_heir :
    ∃ d, unfitting.check = .error (.rejected d) ∧ d.span ≠ Span.none ∧
      (∃ s ∈ unfitting.statements, d.span ∈ s.statement.spans) ∧
      ∀ s ∈ unfitting.statements, d.span ∈ s.statement.spans → s.file ≠ d.file := by
  have rejected : rejection? unfitting.check =
      some ⟨.typing, "T006", "method go takes 1 parameters, I.go takes 0", ⟨18, 34, 1, 19⟩, "main.clasp"⟩ := by
    decide +kernel
  refine ⟨_, eq_of_rejection? rejected, ?_, ?_, ?_⟩ <;> decide +kernel

end ClassScript
