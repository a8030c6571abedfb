import ClassScript.Diagnostic
import ClassScript.Typing.Symbols
import ClassScript.Typing.Fault
import ClassScript.Typing.Scope

/-!
Typing as a computation: it reads the declarations, hands out fresh type variables, notes the type
of each expression and the members that are used, and stops at the first cause for rejection.
-/

namespace ClassScript.Typing

/-- What typing knows beside the variables in scope. -/
structure Context where
  registry : Registry
  /-- The file that is typed. -/
  file : String
  /-- Type parameters in scope, innermost first. -/
  typeParams : List (String × TypeVar)
  /-- The type that return statements have to give. -/
  result : Ty

/-- Where an expression stands. No two expressions of a file cover the same text. -/
structure Place where
  file : String
  start : Nat
  stop : Nat
  deriving DecidableEq, Inhabited

/-- A use of a member or constructor. -/
structure Access where
  file : String
  span : Span
  /-- The class or interface that declares what is used. -/
  owner : Nominal
  isPrivate : Bool
  /-- Whether it is a call of the constructor of the superclass. -/
  throughParent : Bool

/-- What typing has handed out and found so far. -/
structure Progress where
  /-- The number of the next type variable. -/
  fresh : Nat
  /-- The types found, newest first. -/
  found : List (Place × Ty)
  /-- The members and constructors used, newest first. -/
  accesses : List Access

/-- Why typing stops. -/
inductive Stop where
  | rejected (d : Diagnostic)
  /-- A question about two types leads to ever more questions. -/
  | endless

/-- A computation with types. -/
abbrev Analysis := ReaderT Context (StateT Progress (Except Stop))

/-- Stops because of a fault at a span of the file. -/
def reject {α : Type} (span : Span) (fault : TypeFault) : Analysis α := do
  throw (.rejected ⟨.typing, fault.code, fault.message, span, (← read).file⟩)

/-- Stops unless a condition holds. -/
def require (condition : Bool) (span : Span) (fault : TypeFault) : Analysis Unit :=
  if condition then pure () else reject span fault

/-- A new type variable of that name. -/
def freshVar (name : String) : Analysis TypeVar := do
  let p ← get
  set { p with fresh := p.fresh + 1 }
  return ⟨name, p.fresh⟩

/-- A new type variable of that name, as a type. -/
def fresh (name : String) : Analysis Ty := return .var (← freshVar name)

/-- Notes the type of the expression that covers a span. -/
def note (span : Span) (t : Ty) : Analysis Unit := do
  let file := (← read).file
  modify fun p => { p with found := (⟨file, span.start, span.stop⟩, t) :: p.found }

/-- Notes the use of what a declaration declares. -/
def noteAccess (span : Span) (owner : Nominal) (isPrivate throughParent : Bool) : Analysis Unit := do
  let file := (← read).file
  modify fun p =>
    { p with accesses := ⟨file, span, owner, isPrivate, throughParent⟩ :: p.accesses }

/-- Finds a type and notes it. -/
def noting (span : Span) (x : Analysis Ty) : Analysis Ty := do
  let t ← x
  note span t
  return t

/-- Whether a slot takes a value, by the declarations known. -/
def accepts (slot value : Ty) : Analysis Bool := do
  match (← read).registry.table.accepts? TypeTable.maxQuestions slot value with
  | some answer => return answer
  | none => throw .endless

/-- Stops unless a slot takes a value. -/
def requireAccepts (slot value : Ty) (span : Span) (fault : TypeFault) : Analysis Unit := do
  require (← accepts slot value) span fault

/-- Types in another file. -/
def inFile {α : Type} (file : String) (x : Analysis α) : Analysis α :=
  withReader (fun c => { c with file }) x

/-- Types with more type parameters in scope. -/
def withTypeParams {α : Type} (params : List TypeVar) (x : Analysis α) : Analysis α :=
  withReader
    (fun c => { c with typeParams := (params.map fun v => (v.name, v)).reverse ++ c.typeParams }) x

/-- Types with another expected result. -/
def expecting {α : Type} (result : Ty) (x : Analysis α) : Analysis α :=
  withReader (fun c => { c with result }) x

/-- Types with other declarations. -/
def knowing {α : Type} (registry : Registry) (x : Analysis α) : Analysis α :=
  withReader (fun c => { c with registry }) x

/-- The class of that name as a type, with the arguments if it takes as many. -/
def builtinRef? (name : String) (args : List Ty) : Analysis (Option Ty) := do
  match (← read).registry.class? name with
  | none => return none
  | some d => return some (.ref d.nominal (if args.length == d.params.length then args else []))

/-- The class that holds the members of a primitive type. -/
def boxed? (t : Ty) : Analysis (Option DeclSymbol) := do
  let r := (← read).registry
  match t with
  | .number => return r.class? Builtin.numberClass
  | .string => return r.class? Builtin.stringClass
  | .boolean => return r.class? Builtin.booleanClass
  | _ => return none

end ClassScript.Typing
