import ClassScript.Command.Shell
import ClassScript.Syntax.Layout

/-!
The command line: which command is meant, with which options and on which file, and what it writes.
-/

namespace ClassScript

/-- The commands that work on source files. -/
inductive Verb where
  | run | check | tokens | ast | fmt | repl
  deriving DecidableEq, Inhabited

namespace Verb

/-- The word for a command. -/
def word : Verb → String
  | run => "run"
  | check => "check"
  | tokens => "tokens"
  | ast => "ast"
  | fmt => "fmt"
  | repl => "repl"

/-- Every command. -/
def all : List Verb := [run, check, tokens, ast, fmt, repl]

/-- The command of that word. -/
def ofWord? (w : String) : Option Verb := all.find? fun v => v.word == w

end Verb

/-- What a command has written when it is done. -/
structure Outcome where
  exit : Exit
  screen : Screen
  deriving Inhabited

/-- A command is done at once, or starts an interactive session. -/
inductive Start (m : Type → Type) where
  | finished (o : Outcome)
  | interactive (banner : String) (shell : Shell m)

namespace Command

/-- The version of the program. -/
def version : String := "0.3.0"

/-- How the program is used. -/
def usage : String :=
  "usage: clasp <command> [flags] [file]\n\n" ++
  "commands:\n" ++
  "  run      type-check and run a file (the default when given a file)\n" ++
  "  check    type-check a file and its imports\n" ++
  "  tokens   print the token stream of a file\n" ++
  "  ast      print the syntax tree of a file\n" ++
  "  fmt      print a file in canonical layout (-w rewrites it)\n" ++
  "  repl     start an interactive session\n" ++
  "  version  print the version\n\n" ++
  "Without a file, run and check use the entry of clasp.yaml.\n"

/-- The first line of an interactive session. -/
def banner : String := s!"clasp {version}, :quit to exit\n"

/-- A command that has written to its output. -/
def succeeded (out : Bytes) : Outcome := ⟨.success, ⟨out, ""⟩⟩

/-- A command that has failed. -/
def failed (err : Bytes) : Outcome := ⟨.failure, ⟨[], err ++ "\n"⟩⟩

/-- A command that has been given wrongly. -/
def misused (err : Bytes) : Outcome := ⟨.misuse, ⟨[], err⟩⟩

/-- A text followed by blanks up to a width. -/
def padded (width : Nat) (s : String) : String :=
  s ++ String.ofList (List.replicate (width - s.length) ' ')

/-- A token on a line: place, class and lexeme. -/
def tokenLine (t : Token) : String :=
  padded 8 t.span.place ++ " " ++ padded 12 t.kind.name ++ " " ++ Text.quoted t.lexeme ++ "\n"

variable {m : Type → Type} [Monad m]

/-- Lists the tokens of a source. -/
def listTokens (source : Text) : Outcome :=
  match Token.ofSource "" source with
  | .error d => failed (d.rendered source)
  | .ok ts => succeeded (String.join (ts.map tokenLine))

/-- Checks the syntax of a source. -/
def checkSyntax (file source : Text) : Outcome :=
  match Program.ofSource file.shown source with
  | .error d => failed (d.rendered source)
  | .ok _ => succeeded []

/-- Lays out a source. The file is written only if that changes it. -/
def layOut (files : Files m) (write : Bool) (file source : Text) : m Outcome := do
  match Program.ofSource file.shown source with
  | .error d => return failed (d.rendered source)
  | .ok p =>
    if !write then return succeeded p.layout.bytes
    else if p.layout == source then return succeeded []
    else
      match ← files.write file p.layout with
      | .error fault => return failed (fault.message file)
      | .ok () => return succeeded []

/-- Checks a source and everything it needs. -/
def check (s : Session m) (path source : Text) : m Outcome := do
  match ← s.check path source with
  | .error r => return failed r.text
  | .ok c =>
    return succeeded (path.bytes ++ s!": ok ({c.registry.names.length} declarations)\n")

/-- Runs a source and shows its result. -/
def run (s : Session m) (json : Bool) (path source : Text) : m Outcome := do
  let r ← s.execute path source
  match r.result.bind fun (v, h) => h.screenText json v with
  | .error failure => return ⟨.failure, ⟨r.output, failure ++ "\n"⟩⟩
  | .ok text => return succeeded (r.output ++ text)

/-- Works on the file that the arguments name, or on the entry of the settings. -/
def withSource (files : Files m) (project : Project) (args : List String)
    (work : Text → Text → m Outcome) : m Outcome := do
  match args with
  | _ :: _ :: _ => return misused s!"expected one file, got {args.length}\n"
  | [] =>
    if project.entry.isEmpty then
      return misused s!"no file given and {Project.fileName} names no entry\n"
    else onFile (ModulePath.join project.dir project.entry)
  | [file] => onFile file
where
  /-- Works on a file. -/
  onFile (file : Text) : m Outcome := do
    match ← files.read file with
    | .error fault => return failed ("reading " ++ file.shown ++ ": " ++ fault.message file)
    | .ok text => work file text

/-- Starts a command with its options and arguments. -/
def perform (files : Files m) (surroundings : m Surroundings) (verb : Verb) (o : Options)
    (args : List String) : m (Start m) := do
  match ← Session.findProject files o.dir with
  | .error failure => return .finished (failed failure)
  | .ok project =>
    let onSource (work : Text → Text → m Outcome) : m (Start m) :=
      return .finished (← withSource files project args work)
    let inSession (work : Session m → m (Start m)) : m (Start m) := do
      match ← Session.start files project surroundings with
      | .error failure => return .finished (failed failure)
      | .ok s => work s
    match verb with
    | .tokens => onSource fun _ source => return listTokens source
    | .ast => onSource fun file source => return checkSyntax file source
    | .fmt => onSource fun file source => layOut files o.write file source
    | .check => inSession fun s => onSource fun file source => check s (s.modulePath file) source
    | .run => inSession fun s => onSource fun file source => run s o.json (s.modulePath file) source
    | .repl => inSession fun s => return .interactive banner (.new s o.json)

/-- Reads the options of a command and starts it. -/
def withOptions (files : Files m) (surroundings : m Surroundings) (verb : Verb)
    (words : List String) : m (Start m) := do
  match Options.standard.parse words with
  | .ok (o, args) => perform files surroundings verb o args
  | .error fault =>
    let help := Options.help verb.word
    match fault.message? with
    | none => return .finished ⟨.success, ⟨[], help⟩⟩
    | some message => return .finished (misused (message ++ "\n" ++ help))

/-- Starts what a command line asks for. A source file in place of a command is run. -/
def start (files : Files m) (surroundings : m Surroundings) (args : List String) : m (Start m) :=
  match args with
  | [] => return .finished (misused usage)
  | word :: rest =>
    if ["-h", "-help", "--help", "help"].contains word then return .finished (succeeded usage)
    else if ["-v", "-version", "--version", "version"].contains word then
      return .finished (succeeded s!"clasp {version}\n")
    else
      match Verb.ofWord? word with
      | some verb => withOptions files surroundings verb rest
      | none =>
        if ModulePath.ending word == ModulePath.extension then withOptions files surroundings .run args
        else
          return .finished (misused ("unknown command " ++ Text.quote word ++ "\n\n" ++ usage))

/-- Does what a command line asks for, with all input at hand and at one time. -/
def runToEnd (files : Files m) (clock : Float) (args : List String) (input : Text) : m Outcome := do
  match ← start files (return ⟨clock, fun _ => 0⟩) args with
  | .finished o => return o
  | .interactive banner shell =>
    let (screen, shell) ← shell.feedAll (Shell.inputLines input)
    return ⟨shell.ended.getD .success, ⟨banner, ""⟩ ++ screen⟩

end Command

end ClassScript
