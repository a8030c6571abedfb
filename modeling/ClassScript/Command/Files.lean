import ClassScript.Modules.Loader
import ClassScript.Modules.Path

/-!
Files as commands see them, and a disk in memory on which commands can be run. Directories of the
disk are those that some file is in.
-/

namespace ClassScript

/-- Why a file cannot be used. -/
inductive FileFault where
  | missing
  | isDirectory
  | notDirectory
  | refused (reason : String)

/-- The wording of a fault with the file at `path`. -/
def FileFault.message (path : Text) : FileFault → String
  | .missing => "open " ++ path.shown ++ ": no such file or directory"
  | .isDirectory => "read " ++ path.shown ++ ": is a directory"
  | .notDirectory => "open " ++ path.shown ++ ": not a directory"
  | .refused reason => "open " ++ path.shown ++ ": " ++ reason

/-- What commands need of the files around them. -/
structure Files (m : Type → Type) where
  /-- The working directory, as a rooted path. -/
  workingDir : Text
  read : Text → m (Except FileFault Text)
  write : Text → Text → m (Except FileFault Unit)
  isThere : Text → m Bool
  /-- Whether a store can be kept at a path. -/
  canStore : Text → m Bool
  /-- What is in the store. -/
  store : m TextTable
  setStore : TextTable → m Unit

/-- A disk in memory: the text of every file by its rooted path, and the store. -/
structure Disk where
  workingDir : Text
  files : TextTable
  store : TextTable

namespace Disk

/-- What is at a place. -/
inductive Place where
  | nowhere
  | directory
  | file (text : Text)

/-- The rooted path of steps that are kept last first. -/
def pathOf (steps : List Text) : Text := "/" ++ ModulePath.ofSteps steps.reverse

/-- What is at the place to which steps lead. -/
def lookUp (d : Disk) (steps : List Text) : Place :=
  let path := pathOf steps
  match d.files.find? path with
  | some text => .file text
  | none =>
    let inside (p : Text) := path == "/" || (path ++ "/").isPrefixOf p
    if path == d.workingDir || inside d.workingDir || d.files.any (fun f => inside f.1) then .directory
    else .nowhere

/-- Takes the steps of a path one by one; each of them has to start in a directory. The place reached
is given by its own steps, last first. -/
def walk (d : Disk) (here : List Text) : List Text → Except FileFault (List Text)
  | [] => .ok here
  | s :: rest =>
    match d.lookUp here with
    | .nowhere => .error .missing
    | .file _ => .error .notDirectory
    | .directory =>
      if s.isEmpty || s == ModulePath.here then walk d here rest
      else if s == ModulePath.above then walk d here.tail rest
      else walk d (s :: here) rest

/-- The place that a path names. -/
def place (d : Disk) (path : Text) : Except FileFault (List Text) :=
  if path.isEmpty then .error .missing
  else if ModulePath.isRooted path then d.walk [] (ModulePath.steps path)
  else d.walk (ModulePath.named d.workingDir).reverse (ModulePath.steps path)

/-- Reads a file. -/
def read (d : Disk) (path : Text) : Except FileFault Text := do
  match d.lookUp (← d.place path) with
  | .nowhere => .error .missing
  | .directory => .error .isDirectory
  | .file text => .ok text

/-- Writes a file. -/
def write (d : Disk) (path text : Text) : Except FileFault Disk := do
  let steps ← d.place path
  match d.lookUp steps with
  | .directory => .error .isDirectory
  | _ => .ok { d with files := d.files.insert (pathOf steps) text }

/-- Whether something is at a path. -/
def isThere (d : Disk) (path : Text) : Bool :=
  match d.place path with
  | .error _ => false
  | .ok steps =>
    match d.lookUp steps with
    | .nowhere => false
    | _ => true

/-- Whether a store can be kept at a path: a new file in a directory, or an empty one. -/
def canStore (d : Disk) (path : Text) : Bool :=
  match d.place path with
  | .error _ => false
  | .ok steps =>
    match d.lookUp steps with
    | .nowhere => true
    | .directory => false
    | .file text => text.isEmpty

/-- The files of a disk that commands change. -/
def access (workingDir : Text) : Files (StateM Disk) where
  workingDir := workingDir
  read path := return (← get).read path
  write path text := do
    match (← get).write path text with
    | .error fault => return .error fault
    | .ok d =>
      set d
      return .ok ()
  isThere path := return (← get).isThere path
  canStore path := return (← get).canStore path
  store := return (← get).store
  setStore t := modify fun d => { d with store := t }

/-- A disk with files in the working directory. -/
def ofFiles (workingDir : Text) (files : TextTable) : Disk :=
  ⟨workingDir, files.map fun (path, text) => (ModulePath.join workingDir path, text), []⟩

end Disk

end ClassScript
