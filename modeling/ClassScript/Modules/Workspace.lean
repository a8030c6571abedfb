import ClassScript.Modules.Assembly
import ClassScript.Standard.Prelude

/-!
A workspace: files in memory that may change between runs. The programs that were parsed or asked for
last are kept by path and text; a workspace with a store also remembers every text it loaded and falls
back on it.
-/

namespace ClassScript

/-- Files, the store if there is one, and the programs that are kept, the one asked for last in
front. -/
structure Workspace where
  files : TextTable
  store : Option TextTable
  parsed : List ((String × Text) × Program)

namespace Workspace

/-- A workspace in which nothing has been loaded. -/
def ofFiles (files : TextTable) (remembers : Bool) : Workspace :=
  ⟨files, if remembers then some [] else none, []⟩

/-- Sets the text of a file. -/
def write (w : Workspace) (path text : Text) : Workspace :=
  { w with files := w.files.insert path text }

/-- Removes a file. -/
def delete (w : Workspace) (path : Text) : Workspace :=
  { w with files := w.files.erase path }

/-- Loads from the prelude and the files alone. -/
def loadCurrent : Loader (StateM Workspace) := fun path => do
  Loader.orElse (Loader.ofLibrary Prelude.path Prelude.source) (Loader.ofTable (← get).files) path

/-- Loads a module. -/
def load : Loader (StateM Workspace) := fun path => do
  match (← get).store with
  | none => loadCurrent path
  | some _ =>
    Loader.remembering (return (← get).store.getD [])
      (fun t => modify fun w => { w with store := some t }) loadCurrent path

/-- How many programs are kept. -/
def maxParsed : Nat := 256

/-- Keeps a program, and drops the one that has not been asked for the longest if there are too
many. -/
def keep (w : Workspace) (file : String) (text : Text) (p : Program) : Workspace :=
  let others := w.parsed.filter fun e => e.1 != (file, text)
  { w with parsed := (((file, text), p) :: others).take maxParsed }

/-- Parses a module, or finds it among those that are kept. -/
def parse (file : String) (text : Text) : StateM Workspace (Except Diagnostic Program) := do
  match (← get).parsed.lookup (file, text) with
  | some p =>
    modify (·.keep file text p)
    return .ok p
  | none =>
    match Program.ofSource file text with
    | .error d => return .error d
    | .ok p =>
      modify (·.keep file text p)
      return .ok p

/-- Fetches modules of a workspace. -/
def fetcher : Modules.Fetcher (StateM Workspace) := ⟨load, parse⟩

/-- More levels of imports than there are modules. -/
def levels (w : Workspace) : Nat := w.files.length + (w.store.getD []).length + 3

/-- Assembles the program of an entry text. -/
def assemble (libraries : List Text) (path source : Text) :
    StateM Workspace (Except Report Assembly) := do
  Modules.assemble fetcher libraries (← get).levels path source

/-- Checks an entry text and everything it needs. -/
def check (libraries : List Text) (path source : Text) :
    StateM Workspace (Except Report Checked) := do
  match ← assemble libraries path source with
  | .error r => return .error r
  | .ok a => return a.check

/-- Checks an entry text and runs it. -/
def execute (libraries : List Text) (path source : Text) (around : Surroundings)
    (entryClass entryMethod : String) : StateM Workspace RunRecord := do
  match ← assemble libraries path source with
  | .error r => return .refused r
  | .ok a => return a.execute around entryClass entryMethod

end Workspace

end ClassScript
