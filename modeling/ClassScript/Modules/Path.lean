import ClassScript.Text.Glyph

/-!
Paths of modules and files: slash-separated, brought to one form, so that every module has one name
however an import spells it.
-/

namespace ClassScript.ModulePath

/-- The ending of source files. -/
def extension : String := ".clasp"

/-- The step that stays in a directory. -/
def here : Text := "."

/-- The step that leaves a directory. -/
def above : Text := ".."

/-- The steps of a path. -/
def steps (path : Text) : List Text := path.splitOn '/'

/-- The path of steps. -/
def ofSteps (steps : List Text) : Text := ("/" : Text).intercalate steps

/-- Takes the steps of a path one by one. `kept` holds those so far, last first: a dot step stays,
a double dot leaves the last step, or is kept if there is none and the path may go above its start. -/
def walk (rooted : Bool) (kept : List Text) : List Text → List Text
  | [] => kept.reverse
  | s :: rest =>
    if s.isEmpty || s == here then walk rooted kept rest
    else if s == above then
      match kept with
      | [] => if rooted then walk rooted [] rest else walk rooted [above] rest
      | last :: before =>
        if last == above then walk rooted (above :: kept) rest else walk rooted before rest
    else walk rooted (s :: kept) rest

/-- Whether a path starts at the root. -/
def isRooted (path : Text) : Bool := ("/" : Text).isPrefixOf path

/-- The shortest path that means the same; the empty path is the current directory. -/
def clean (path : Text) : Text :=
  let kept := ofSteps (walk (isRooted path) [] (steps path))
  if isRooted path then "/" ++ kept else if kept.isEmpty then here else kept

/-- The directory of a path. -/
def dir (path : Text) : Text :=
  match (steps path).dropLast with
  | [] => here
  | before => clean (ofSteps before ++ "/")

/-- A path as seen from a directory. -/
def join (dir path : Text) : Text := clean (dir ++ "/" ++ path)

/-- A path as seen from a working directory. -/
def absolute (workingDir path : Text) : Text :=
  if isRooted path then clean path else join workingDir path

/-- The steps that lead from one list of steps to another: up to what they share, then down. -/
def between : List Text → List Text → List Text
  | s :: base, t :: target =>
    if s == t then between base target
    else List.replicate (base.length + 1) above ++ (t :: target)
  | base, target => List.replicate base.length above ++ target

/-- The steps of a path that name something. -/
def named (path : Text) : List Text := (steps path).filter (!·.isEmpty)

/-- A clean rooted path as seen from another. -/
def relativeTo (base target : Text) : Text :=
  clean (ofSteps (between (named base) (named target)))

/-- The last step of a path. -/
def base (path : Text) : Text := (steps path).getLast?.getD []

/-- The part of the last step of a path from its last dot on. -/
def ending (path : Text) : Text :=
  match ((base path).splitOn '.').reverse with
  | last :: _ :: _ => "." ++ last
  | _ => ""

/-- Whether the last step of a path has a dot in it. -/
def hasExtension (path : Text) : Bool := (base path).any (Glyph.is '.')

/-- Whether an import is relative to the file it stands in: it starts with a dot step. -/
def isRelative (path : Text) : Bool :=
  ("./" : Text).isPrefixOf path || ("../" : Text).isPrefixOf path

/-- The module that an import in the file `source` means. Paths that start with a dot step are
relative to that file, others to the source root; a missing extension is added. -/
def ofImport (source imported : Text) : Text :=
  let path := if isRelative imported then join (dir source) imported else clean imported
  if hasExtension path then path else path ++ extension

end ClassScript.ModulePath
