import ClassScript.Modules.Path
import ClassScript.Text.Case
import ClassScript.Text.Printable
import ClassScript.Yaml.Reader

/-!
The settings of a source tree. They are read from a settings file; what it leaves out has a default,
and paths in it are relative to the directory that holds it.
-/

namespace ClassScript

/-- The settings of a source tree. -/
structure Project where
  /-- The file to run when none is named. -/
  entry : Text
  /-- The directory against which imports are resolved; the settings file's own if empty. -/
  sourceRoot : Text
  /-- Modules linked ahead of every program, behind the prelude. -/
  libraryPaths : List Text
  entryClass : String
  entryMethod : String
  /-- Where loaded sources are stored; nowhere if empty. -/
  cache : Text
  logLevel : String
  /-- The directory that holds the settings file. -/
  dir : Text
  deriving Inhabited

/-- Why a settings file is refused. -/
inductive ProjectFault where
  | unreadable (reason : String)
  | malformed (cause : Yaml.Fault)
  /-- A setting has the wrong shape, or is given twice. -/
  | mismatched
  | unknownLogLevel (level : String)
  | noSourceFile (entry : Text)
  | emptyLibrary (index : Nat)

namespace ProjectFault

/-- Whether a file is refused for its form rather than for what it says. -/
def isFormal : ProjectFault → Bool
  | malformed _ | mismatched => true
  | _ => false

/-- The wording of a fault of the settings file at `path`. -/
def message (path : Text) : ProjectFault → String
  | unreadable reason => "reading config " ++ path.shown ++ ": " ++ reason
  | malformed cause => "parsing " ++ path.shown ++ ": yaml: " ++ cause.message
  | mismatched => "parsing " ++ path.shown ++ ": yaml: unmarshal errors"
  | unknownLogLevel level =>
    path.shown ++ ": log_level " ++ Text.quote level ++ " is not one of debug, info, warn, error"
  | noSourceFile entry =>
    path.shown ++ ": entry " ++ Text.quoted entry ++ s!" must be a {ModulePath.extension} file"
  | emptyLibrary index => path.shown ++ s!": library_paths[{index}] is empty"

end ProjectFault

namespace Project

/-- The name of settings files. -/
def fileName : String := "clasp.yaml"

/-- Settings that leave everything out. -/
def blank (dir : Text) : Project := ⟨[], [], [], "", "", [], "", dir⟩

/-- The levels of logging. -/
def logLevels : List String := ["debug", "info", "warn", "error"]

/-- A value, or a default in place of an empty one. -/
def orDefault (value fallback : String) : String := if value == "" then fallback else value

/-- The settings with defaults in place of what they leave out. -/
def completed (p : Project) : Project :=
  { p with
    entryClass := orDefault p.entryClass "App"
    entryMethod := orDefault p.entryMethod "main"
    logLevel := (orDefault p.logLevel "warn").map Text.lower }

/-- The settings of a tree without a settings file. -/
def ofDirectory (dir : Text) : Project := (blank dir).completed

/-- The first thing wrong with settings. -/
def fault? (p : Project) : Option ProjectFault :=
  if p.logLevel != "" && !logLevels.contains (p.logLevel.map Text.lower) then
    some (.unknownLogLevel p.logLevel)
  else if !p.entry.isEmpty && ModulePath.ending p.entry != ModulePath.extension then
    some (.noSourceFile p.entry)
  else (p.libraryPaths.idxOf? []).map .emptyLibrary

/-! ### Reading -/

/-- The text that a setting gives, if it gives one. -/
def textOf (value : Yaml) : Except ProjectFault (Option String) :=
  if value.isNull then .ok none
  else
    match value.text? with
    | some text => .ok (some text)
    | none => .error .mismatched

/-- The texts that a list gives; items that mean nothing do not count. -/
def textsOf (value : Yaml) : Except ProjectFault (List String) :=
  match value with
  | .list items => return (← items.mapM textOf).filterMap id
  | value => if value.isNull then .ok [] else .error .mismatched

/-- The settings with one of them changed. Names that mean no setting are ignored. -/
def withSetting (p : Project) (name : String) (value : Yaml) : Except ProjectFault Project := do
  let text (old : String) : Except ProjectFault String := return (← textOf value).getD old
  let path (old : Text) : Except ProjectFault Text :=
    return ((← textOf value).map Text.ofString).getD old
  match name with
  | "entry" => return { p with entry := ← path p.entry }
  | "source_root" => return { p with sourceRoot := ← path p.sourceRoot }
  | "library_paths" => return { p with libraryPaths := (← textsOf value).map Text.ofString }
  | "entry_class" => return { p with entryClass := ← text p.entryClass }
  | "entry_method" => return { p with entryMethod := ← text p.entryMethod }
  | "cache" => return { p with cache := ← path p.cache }
  | "log_level" => return { p with logLevel := ← text p.logLevel }
  | _ => return p

/-- The settings that a document gives. -/
def ofDocument (dir : Text) (document : Yaml) : Except ProjectFault Project :=
  match document with
  | .mapping entries =>
    if Yaml.hasRepeatedKey (entries.map (·.1)) then .error .mismatched
    else
      entries.foldlM (fun p (key, value) => do
        match ← textOf key with
        | none => return p
        | some name => p.withSetting name value) (blank dir)
  | document => if document.isNull then .ok (blank dir) else .error .mismatched

/-- The settings that a settings file gives. -/
def parse (path : Text) (text : String) : Except ProjectFault Project := do
  let document ← (Yaml.read text).mapError .malformed
  let p ← ofDocument (ModulePath.dir path) document
  match p.fault? with
  | some fault => .error fault
  | none => .ok p.completed

/-! ### Paths -/

/-- A path of the settings as seen from outside. -/
def located (p : Project) (path : Text) : Text :=
  if ModulePath.isRooted path then path else ModulePath.join p.dir path

/-- The directory against which imports are resolved. -/
def root (p : Project) : Text := if p.sourceRoot.isEmpty then p.dir else p.located p.sourceRoot

/-- The path of the store, if there is one. -/
def cachePath (p : Project) : Text := if p.cache.isEmpty then [] else p.located p.cache

end Project

end ClassScript
