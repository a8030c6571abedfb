import ClassScript.Command.Files
import ClassScript.Command.Options
import ClassScript.Modules.Assembly
import ClassScript.Standard.Prelude

/-!
A session: the settings of a source tree with the files around it, and what can be done with a source
text there. Modules come from the prelude or from a file below the source root.
-/

namespace ClassScript

/-- Settings, files and what each run of a program finds around it. -/
structure Session (m : Type → Type) where
  project : Project
  files : Files m
  surroundings : m Surroundings

namespace Session

variable {m : Type → Type} [Monad m]

/-- Finds the directory of the settings file: the given one, or the nearest above it. -/
def findDir (files : Files m) : List Text → m (Option Text)
  | [] => do
    return if ← files.isThere (Disk.pathOf [Project.fileName]) then some "/" else none
  | s :: above => do
    if ← files.isThere (Disk.pathOf (Project.fileName :: s :: above)) then
      return some (Disk.pathOf (s :: above))
    else findDir files above

/-- The settings that hold in a directory. -/
def findProject (files : Files m) (dir : Text) : m (Except String Project) := do
  let start := ModulePath.absolute files.workingDir dir
  match ← findDir files (ModulePath.named start).reverse with
  | none => return .ok (.ofDirectory start)
  | some found =>
    let path := ModulePath.join found Project.fileName
    match ← files.read path with
    | .error .missing => return .ok (.ofDirectory found)
    | .error fault => return .error (ProjectFault.message path (.unreadable (fault.message path)))
    | .ok text =>
      match Project.parse path text.shown with
      | .error fault => return .error (fault.message path)
      | .ok p => return .ok p

/-- Opens a session, and with it the store if the settings name one. -/
def start (files : Files m) (project : Project) (surroundings : m Surroundings) :
    m (Except String (Session m)) := do
  let path := project.cachePath
  if path.isEmpty || (← files.canStore path) then return .ok ⟨project, files, surroundings⟩
  else return .error ("init cache " ++ path.shown ++ ": unable to open database file")

/-- Loads a module from a file below the source root. -/
def loadFile (s : Session m) : Loader m := fun path => do
  let full := if ModulePath.isRooted path then path else ModulePath.join s.project.root path
  match ← s.files.read full with
  | .ok text => return .ok text
  | .error fault => return .error (.unreadable path (fault.message full))

/-- Loads a module. -/
def load (s : Session m) : Loader m :=
  let inner := Loader.orElse (Loader.ofLibrary Prelude.path Prelude.source) s.loadFile
  if s.project.cachePath.isEmpty then inner
  else Loader.remembering s.files.store s.files.setStore inner

/-- More levels of imports than any program has. -/
def maxLevels : Nat := 0x4000000000000000

/-- Assembles the program of a source text. -/
def assemble (s : Session m) (path source : Text) : m (Except Report Assembly) :=
  Modules.assemble ⟨s.load, fun file text => return Program.ofSource file text⟩
    (Prelude.path :: s.project.libraryPaths) maxLevels path source

/-- Checks a source text and everything it needs. -/
def check (s : Session m) (path source : Text) : m (Except Report Checked) := do
  match ← s.assemble path source with
  | .error r => return .error r
  | .ok a => return a.check

/-- Checks a source text and runs it. Failures are given as they are shown. -/
def execute (s : Session m) (path source : Text) : m RunRecord := do
  match ← s.assemble path source with
  | .error r => return .refused r
  | .ok a => return a.execute (← s.surroundings) s.project.entryClass s.project.entryMethod

/-- The module path of a file: seen from the source root, or rooted if it is outside. -/
def modulePath (s : Session m) (file : Text) : Text :=
  let absolute := ModulePath.absolute s.files.workingDir file
  let root := ModulePath.absolute s.files.workingDir s.project.root
  let relative := ModulePath.relativeTo root absolute
  if relative == ModulePath.above || ("../" : Text).isPrefixOf relative then absolute else relative

end Session

/-- The text of a result on the screen: markup as such or as data, nothing for null and void, and any
other value as itself. -/
def Heap.screenText (h : Heap) (json : Bool) (v : Value) : Except Bytes Bytes :=
  match h.nodeOf? v with
  | some n =>
    if json then (n.dataLine.map Bytes.ofString).mapError fun fault => fault.message
    else .ok (n.html ++ "\n")
  | none =>
    match v with
    | .null | .void => .ok []
    | v => .ok ((h.text? v).getD [] ++ "\n")

end ClassScript
