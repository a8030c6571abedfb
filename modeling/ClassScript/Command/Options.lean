import ClassScript.Project.Basic

/-!
The options of a command line: words in front of the arguments that start with a hyphen. A switch may
be given a truth value behind an equals sign; the directory takes a value there or from the next word.
-/

namespace ClassScript

/-- The options of a command. -/
structure Options where
  /-- Where the search for the settings file starts. -/
  dir : String
  json : Bool
  verbose : Bool
  /-- Whether a laid-out file is written back. -/
  write : Bool
  deriving Inhabited

/-- Why options are not understood. -/
inductive OptionFault where
  /-- Not a fault: the user asks for help. -/
  | helpWanted
  | malformed (word : String)
  | unknown (name : String)
  | valueMissing (name : String)
  | noTruthValue (name value : String)

/-- The wording of a fault; a call for help has none. -/
def OptionFault.message? : OptionFault → Option String
  | .helpWanted => none
  | .malformed word => some s!"bad flag syntax: {word}"
  | .unknown name => some s!"flag provided but not defined: -{name}"
  | .valueMissing name => some s!"flag needs an argument: -{name}"
  | .noTruthValue name value =>
    some ("invalid boolean value " ++ Text.quote value ++ s!" for -{name}: parse error")

namespace Options

/-- The options when none are given. -/
def standard : Options := ⟨".", false, false, false⟩

/-- The help on the options of a command. -/
def help (command : String) : String :=
  s!"Usage of {command}:\n" ++
  "  -C dir\n    \tlook for clasp.yaml starting in dir (default \".\")\n" ++
  "  -json\n    \tprint vdom results as JSON instead of HTML\n" ++
  "  -verbose\n    \tlog pipeline stages to stderr\n" ++
  "  -w\tfmt: write the result back to the file\n"

/-- The truth value that a word stands for. -/
def truth? (word : String) : Option Bool :=
  if ["1", "t", "T", "true", "TRUE", "True"].contains word then some true
  else if ["0", "f", "F", "false", "FALSE", "False"].contains word then some false
  else none

/-- Sets a switch; there are three of them. -/
def setSwitch? (o : Options) (name : String) (on : Bool) : Option Options :=
  match name with
  | "json" => some { o with json := on }
  | "verbose" => some { o with verbose := on }
  | "w" => some { o with write := on }
  | _ => none

/-- The text of an option behind its one or two hyphens. -/
def body? (word : String) : Option (List Char) :=
  match word.toList with
  | '-' :: '-' :: rest => if rest.isEmpty then none else some rest
  | '-' :: rest => if rest.isEmpty then none else some rest
  | _ => none

/-- Splits an option at its first equals sign. -/
def splitValue (body : List Char) : String × Option String :=
  let name := String.ofList (body.takeWhile (· != '='))
  match body.dropWhile (· != '=') with
  | [] => (name, none)
  | _ :: value => (name, some (String.ofList value))

/-- What a word in front of the arguments is. -/
inductive Reading where
  | argument
  /-- The mark behind which everything is an argument. -/
  | divider
  | setting (o : Options)
  /-- The directory, whose value is the next word. -/
  | directory

/-- Reads one word. -/
def read (o : Options) (word : String) : Except OptionFault Reading :=
  if word == "--" then .ok .divider
  else
    match body? word with
    | none => .ok .argument
    | some body =>
      let (name, value?) := splitValue body
      if body.head? == some '-' || body.head? == some '=' then .error (.malformed word)
      else if name == "C" then
        match value? with
        | some value => .ok (.setting { o with dir := value })
        | none => .ok .directory
      else
        match setSwitch? o name true with
        | none => .error (if name == "help" || name == "h" then .helpWanted else .unknown name)
        | some on =>
          match value? with
          | none => .ok (.setting on)
          | some value =>
            match truth? value with
            | none => .error (.noTruthValue name value)
            | some b => .ok (.setting ((setSwitch? o name b).getD o))

/-- Reads options up to the first argument. -/
def parse (o : Options) : List String → Except OptionFault (Options × List String)
  | [] => .ok (o, [])
  | [word] => do
    match ← o.read word with
    | .argument => return (o, [word])
    | .divider => return (o, [])
    | .setting o => return (o, [])
    | .directory => .error (.valueMissing "C")
  | word :: next :: rest => do
    match ← o.read word with
    | .argument => return (o, word :: next :: rest)
    | .divider => return (o, next :: rest)
    | .setting o => parse o (next :: rest)
    | .directory => parse { o with dir := next } rest

end Options

end ClassScript
