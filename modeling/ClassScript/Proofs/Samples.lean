import ClassScript.Modules.Assembly

/-!
Small programs. They are put together from declarations that stand nowhere in particular, and what is said of them is
read off an evaluation.
-/

namespace ClassScript

open Evaluation

namespace Sample

/-- A name that stands nowhere in particular. -/
def named (text : String) : Name := ⟨text, default⟩

/-- A parameter without a type or a default value. -/
def param (text : String) : Param := ⟨default, named text, none, none⟩

/-- A type of that name without arguments. -/
def typed (text : String) : TypeExpr := .simple default text false

/-! ## Members -/

/-- A public method. -/
def method (isStatic : Bool) (text : String) (params : List String) (body : List Stmt) : Method :=
  ⟨default, [], { isPublic := true, isStatic }, named text, false, [], params.map param, none, some ⟨default, body⟩⟩

/-- A method that the host implements. -/
def hosted (text : String) (params : List String) : Method :=
  { method false text params [] with body := none }

/-- A constructor without parameters. -/
def constructor (isPrivate : Bool) (body : List Stmt) : Method :=
  ⟨default, [], { isPublic := !isPrivate, isPrivate }, named Builtin.constructorName, true, [], [], none,
    some ⟨default, body⟩⟩

/-- A public static field without a type. -/
def static (text : String) (init : Expr) : Field :=
  ⟨default, [], { isPublic := true, isStatic := true }, named text, none, some init⟩

/-- A public field that is not static. -/
def field (text : String) (init : Expr) : Field := ⟨default, [], { isPublic := true }, named text, none, some init⟩

/-- A public field with a written type. -/
def declared (isStatic : Bool) (text : String) (type : TypeExpr) : Field :=
  ⟨default, [], { isPublic := true, isStatic }, named text, some type, none⟩

/-! ## Declarations and calls -/

/-- A class that may have a superclass. -/
def cls (text : String) (parent : Option String) (fields : List Field) (methods : List Method) : Declaration :=
  ⟨default, [], .ofClass true (parent.map fun p => .simple default p false) [], named text, [], fields, methods⟩

/-- An interface that may extend others. -/
def interface (text : String) (parents : List String) (methods : List Method) : Declaration :=
  ⟨default, [], .ofInterface (parents.map typed), named text, [], [], methods⟩

/-- A class with interfaces. -/
def implementing (text : String) (parent : Option String) (interfaces : List String) (methods : List Method) :
    Declaration :=
  ⟨default, [], .ofClass true (parent.map typed) (interfaces.map typed), named text, [], [], methods⟩

/-- An interface with public fields of the type `number`. -/
def offering (text : String) (fields : List String) : Declaration :=
  { interface text [] [] with
    fields := fields.map fun f => ⟨default, [], { isPublic := true }, named f, some (typed "number"), none⟩ }

/-- A declaration with type parameters. -/
def parametric (params : List String) (d : Declaration) : Declaration := { d with typeParams := params.map named }

/-- The call of a method of what a name stands for. -/
def call (receiver method : String) (args : List Expr) : Expr :=
  .call default (.member default (.name (named receiver)) (named method)) args

end Sample

/-! ## What an evaluation tells -/

/-- What is tested of the symbols of a program holds of an accepted program. -/
theorem exists_accepted {p : LinkedProgram} {P : Checked → Prop} [DecidablePred P]
    (holds : p.check.toOption.any (fun c => P c) = true) : ∃ c, p.check = .ok c ∧ P c := by
  cases checked : p.check with
  | error stop => simp [checked, Except.toOption] at holds
  | ok c => exact ⟨c, rfl, by simpa [checked, Except.toOption] using holds⟩

/-- The failure that a run ends with. -/
def failure? (r : Except Stop Value × Interpreter) : Option Diagnostic :=
  match r.1 with
  | .error (.failed d) => some d
  | _ => none

theorem eq_of_failure? {r : Except Stop Value × Interpreter} {d : Diagnostic} (failed : failure? r = some d) :
    r = (.error (.failed d), r.2) := by
  rcases r with ⟨(e | _ | _) | v, i⟩ <;> simp_all [failure?]

theorem eq_of_result? {r : Except Stop Value × Interpreter} (ended : r.1.toOption.isSome = true) :
    ∃ v, r = (.ok v, r.2) := by
  rcases r with ⟨stop | v, i⟩
  · cases ended
  · exact ⟨v, rfl⟩

theorem eq_void {r : Except Stop Value × Interpreter} (void : r.1.toOption.any Value.isVoid = true) :
    r = (.ok .void, r.2) := by
  obtain ⟨v, ended⟩ := eq_of_result? (Option.isSome_of_any void)
  rw [ended] at void ⊢
  cases v with
  | void => rfl
  | _ => cases void

/-- The state in which the statements of a program leave a new interpreter. -/
def finalState (p : LinkedProgram) : State := ((Interpreter.new 0 none).run p).2.state

end ClassScript
