import ClassScript.Grammar.Program
import ClassScript.Modules.Loader
import ClassScript.Modules.Path
import ClassScript.Syntax.Tree

/-!
From an entry file to a linked program. Imports are followed level by level, each module is fetched
once, and every imported name has to be declared by its module. Linking puts libraries first, then
the modules in the reverse order of discovery, then the entry file.
-/

namespace ClassScript

/-- A parsed module. -/
structure SourceUnit where
  path : Text
  source : Text
  program : Program
  isLibrary : Bool
  deriving Inhabited

/-- Why modules do not fit together. -/
inductive DependencyFault where
  | noLibrary (path : Text) (cause : LoadFault)
  | noModule (path : Text) (cause : LoadFault)
  | undeclared (path : Text) (name : String)
  | tooDeep

namespace DependencyFault

/-- The code of a fault. -/
def code : DependencyFault → String
  | noLibrary .. | noModule .. => "D001"
  | undeclared .. => "D002"
  | tooDeep => "D003"

/-- The wording of a fault. -/
def message : DependencyFault → String
  | noLibrary path cause => "cannot load library " ++ path.shown ++ ": " ++ cause.message
  | noModule path cause => "cannot load module " ++ path.shown ++ ": " ++ cause.message
  | undeclared path name => path.shown ++ " does not declare " ++ name
  | tooDeep => "imports are nested too deeply"

/-- The diagnostic of a fault. -/
def diagnostic (fault : DependencyFault) (span : Span) (file : String) : Diagnostic :=
  ⟨.dependency, fault.code, fault.message, span, file⟩

end DependencyFault

/-- An import: the names it asks for, the path as written and its span. -/
structure Import where
  names : List Name
  path : Text
  span : Span

/-- The imports of a program, in source order. -/
def Program.imports (p : Program) : List Import :=
  p.statements.filterMap fun s =>
    match s with
    | .uses _ names path => some ⟨names, path.value, path.token.span⟩
    | _ => none

/-- The names of the classes and interfaces of a program. -/
def Program.declaredNames (p : Program) : List String :=
  p.statements.filterMap fun s =>
    match s with
    | .declares d => some d.name.text
    | _ => none

/-- The name of the file of a unit in diagnostics. -/
def SourceUnit.file (u : SourceUnit) : String := u.path.shown

/-- The module that an import of a unit means. -/
def SourceUnit.target (u : SourceUnit) (i : Import) : Text := ModulePath.ofImport u.path i.path

namespace Modules

/-- How modules are fetched. -/
structure Fetcher (m : Type → Type) where
  load : Loader m
  parse : String → Text → m (Except Diagnostic Program)

/-- A path to fetch, and the import that asks for it; libraries are asked for by none. -/
structure Request where
  path : Text
  origin : Option (String × Span)

/-- The diagnostic of a module that cannot be loaded. -/
def Request.refused (r : Request) (cause : LoadFault) : Diagnostic :=
  match r.origin with
  | none => (DependencyFault.noLibrary r.path cause).diagnostic Span.none ""
  | some (file, span) => (DependencyFault.noModule r.path cause).diagnostic span file

/-- The requests of the imports of one unit that ask for modules not seen yet. -/
def unitRequests (u : SourceUnit) (seen : List Text) : List Import → List Text × List Request
  | [] => (seen, [])
  | i :: rest =>
    let path := u.target i
    if seen.contains path then unitRequests u seen rest
    else
      let (seen, more) := unitRequests u (path :: seen) rest
      (seen, ⟨path, some (u.file, i.span)⟩ :: more)

/-- The requests of the imports of units that ask for modules not seen yet, in order. -/
def requests (seen : List Text) : List SourceUnit → List Text × List Request
  | [] => (seen, [])
  | u :: rest =>
    let (seen, own) := unitRequests u seen u.program.imports
    let (seen, more) := requests seen rest
    (seen, own ++ more)

/-- The requests of libraries, each once. -/
def libraryRequests (seen : List Text) : List Text → List Text × List Request
  | [] => (seen, [])
  | path :: rest =>
    if seen.contains path then libraryRequests seen rest
    else
      let (seen, more) := libraryRequests (path :: seen) rest
      (seen, ⟨path, none⟩ :: more)

/-- The first import of a name that its module does not declare. -/
def undeclaredImport? (units : List SourceUnit) : Option Diagnostic :=
  units.findSome? fun u =>
    u.program.imports.findSome? fun i => do
      let target ← units.find? fun t => t.path == u.target i
      let name ← i.names.find? fun n => !target.program.declaredNames.contains n.text
      return (DependencyFault.undeclared target.path name.text).diagnostic name.span u.file

variable {m : Type → Type} [Monad m]

/-- Fetches one module. -/
def fetch (f : Fetcher m) (isLibrary : Bool) (r : Request) : m (Except Diagnostic SourceUnit) := do
  match ← f.load r.path with
  | .error cause => return .error (r.refused cause)
  | .ok source =>
    match ← f.parse r.path.shown source with
    | .error d => return .error d
    | .ok program => return .ok ⟨r.path, source, program, isLibrary⟩

/-- Fetches modules in order, up to the first that fails. -/
def fetchAll (f : Fetcher m) (isLibrary : Bool) :
    List Request → m (Except Diagnostic (List SourceUnit))
  | [] => return .ok []
  | r :: rest => do
    match ← fetch f isLibrary r with
    | .error d => return .error d
    | .ok u =>
      match ← fetchAll f isLibrary rest with
      | .error d => return .error d
      | .ok us => return .ok (u :: us)

/-- Follows the imports of the units of one level, for at most `fuel` levels. -/
def followImports (f : Fetcher m) :
    Nat → List Text → List SourceUnit → m (Except Diagnostic (List SourceUnit))
  | 0, _, _ => return .error (DependencyFault.tooDeep.diagnostic Span.none "")
  | fuel + 1, seen, level => do
    let (seen, wanted) := requests seen level
    if wanted.isEmpty then return .ok []
    else
      match ← fetchAll f false wanted with
      | .error d => return .error d
      | .ok next =>
        match ← followImports f fuel seen next with
        | .error d => return .error d
        | .ok rest => return .ok (next ++ rest)

/-- The units of a program in the order of discovery: libraries, the entry, then the modules it
needs. -/
def resolve (f : Fetcher m) (libraries : List Text) (fuel : Nat) (entry : SourceUnit) :
    m (Except Diagnostic (List SourceUnit)) := do
  let (seen, wanted) := libraryRequests [entry.path] libraries
  match ← fetchAll f true wanted with
  | .error d => return .error d
  | .ok libs =>
    let first := libs ++ [entry]
    match ← followImports f fuel seen first with
    | .error d => return .error d
    | .ok rest =>
      let units := first ++ rest
      match undeclaredImport? units with
      | some d => return .error d
      | none => return .ok units

/-- The units in the order in which they take effect. -/
def linkOrder (units : List SourceUnit) : List SourceUnit :=
  let libs := units.filter (·.isLibrary)
  match units.filter (!·.isLibrary) with
  | [] => libs
  | entry :: deps => libs ++ deps.reverse ++ [entry]

/-- The program that units make up. -/
def link (units : List SourceUnit) : LinkedProgram :=
  let statements := (linkOrder units).flatMap fun u => u.program.statements.map (⟨u.file, ·⟩)
  match units.find? (!·.isLibrary) with
  | none => ⟨"", statements, Span.none⟩
  | some entry => ⟨entry.file, statements, entry.program.span⟩

end Modules

end ClassScript
