import ClassScript.Typing.Declarations

/-!
Type checking of a linked program: the declarations, then the top-level statements, then the bodies
of interfaces and of classes. Checking stops at the first fault.
-/

namespace ClassScript

namespace Typing

/-- Types the body of a method in the scope of its owner's members. -/
def checkMethod (outer : Scope) (m : MethodSymbol) : Analysis Unit :=
  match m.decl.body with
  | none => pure ()
  | some body =>
    withTypeParams m.typeParams do
      let params := m.params.map fun p => (⟨p.name, p.type, false⟩ : Binding)
      expecting m.result
        (checkBlock { outer.enter params with inConstructor := m.isConstructor } body)

/-- Types the initial value of a field that has a type written. -/
def checkField (scope : Scope) (f : FieldSymbol) : Analysis Unit := do
  match f.type, f.decl.type, f.decl.init with
  | some want, some _, some e =>
    let got ← infer scope (some want) e
    requireAccepts want got e.span (.badField f.name want got)
  | _, _, _ => pure ()

/-- Types the members of a declaration. -/
def checkDecl (globals : Scope) (d : DeclSymbol) : Analysis Unit :=
  inDecl d do
    if !d.nominal.isInterface then
      requireConforms d
      d.fields.forM fun f => checkField (memberScope globals d f.isStatic) f
    d.methods.forM fun m => checkMethod (memberScope globals d m.isStatic) m

/-- Types the top-level statements; the result is the scope after them. -/
def checkActions (p : LinkedProgram) : Analysis Scope := do
  expecting (← fresh "return")
    (p.actions.foldlM (fun scope a => inFile a.file (check scope a.statement)) .global)

/-- Types a whole program. -/
def checkProgram (p : LinkedProgram) : Analysis Registry := do
  let r ← declare p
  knowing r do
    let globals ← checkActions p
    (r.filter (·.nominal.isInterface)).forM (checkDecl globals)
    (r.filter fun d => !d.nominal.isInterface).forM (checkDecl globals)
  return r

end Typing

/-- The declarations of an accepted program, the types of its expressions without variables, and the
members and constructors that it uses. -/
structure Checked where
  registry : Registry
  types : List (Typing.Place × Ty)
  accesses : List Typing.Access

namespace Checked

/-- The type of the expression that covers a span of a file. -/
def typeAt? (c : Checked) (file : String) (span : Span) : Option Ty :=
  c.types.lookup ⟨file, span.start, span.stop⟩

end Checked

/-- Checks a program, up to the first fault. -/
def LinkedProgram.check (p : LinkedProgram) : Except Typing.Stop Checked :=
  match (Typing.checkProgram p).run ⟨[], p.file, [], .void⟩ ⟨0, [], []⟩ with
  | .error stop => .error stop
  | .ok (registry, progress) =>
    .ok ⟨registry, progress.found.map fun (place, t) => (place, t.erase), progress.accesses⟩

end ClassScript
