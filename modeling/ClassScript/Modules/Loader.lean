import ClassScript.Text.Glyph

/-!
Loaders give the text of a module. They are combined: one after the other until one succeeds, or
with a store that remembers every text and stands in when the loader fails.
-/

namespace ClassScript

/-- Why a module has no text. -/
inductive LoadFault where
  /-- There is no such module in memory. -/
  | absent (path : Text)
  /-- There is no such module in the library. -/
  | notInLibrary (path : Text)
  /-- The file system says why. -/
  | unreadable (path : Text) (reason : String)
  /-- Two loaders failed. -/
  | both (first second : LoadFault)

/-- The wording of a fault. -/
def LoadFault.message : LoadFault → String
  | .absent path => "load " ++ path.shown ++ ": file does not exist"
  | .notInLibrary path => "load " ++ path.shown ++ ": open " ++ path.shown ++ ": file does not exist"
  | .unreadable path reason => "load " ++ path.shown ++ ": " ++ reason
  | .both first second => first.message ++ "\n" ++ second.message

/-- Gives the text of a module. -/
abbrev Loader (m : Type → Type) := Text → m (Except LoadFault Text)

/-- Texts by path; the newest comes first. -/
abbrev TextTable := List (Text × Text)

namespace TextTable

/-- The text of a path. -/
def find? (t : TextTable) (path : Text) : Option Text := t.lookup path

/-- Sets the text of a path. -/
def insert (t : TextTable) (path text : Text) : TextTable :=
  (path, text) :: t.filter fun e => e.1 != path

/-- Removes a path. -/
def erase (t : TextTable) (path : Text) : TextTable := t.filter fun e => e.1 != path

end TextTable

namespace Loader

variable {m : Type → Type} [Monad m]

/-- Loads from a table. -/
def ofTable (t : TextTable) : Loader m := fun path =>
  match t.find? path with
  | some text => pure (.ok text)
  | none => pure (.error (.absent path))

/-- Loads from a library with one module. -/
def ofLibrary (name text : Text) : Loader m := fun path =>
  pure (if path == name then .ok text else .error (.notInLibrary path))

/-- Asks a second loader if the first fails. -/
def orElse (first second : Loader m) : Loader m := fun path => do
  match ← first path with
  | .ok text => return .ok text
  | .error e =>
    match ← second path with
    | .ok text => return .ok text
    | .error e' => return .error (.both e e')

/-- Remembers every text that is loaded in a store, and answers from the store if the loader
fails. -/
def remembering (getStore : m TextTable) (setStore : TextTable → m Unit) (inner : Loader m) :
    Loader m := fun path => do
  match ← inner path with
  | .ok text =>
    setStore ((← getStore).insert path text)
    return .ok text
  | .error e =>
    match (← getStore).find? path with
    | some text => return .ok text
    | none => return .error e

end Loader

end ClassScript
