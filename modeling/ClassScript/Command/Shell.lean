import ClassScript.Command.Session

/-!
The interactive session. Inputs that are accepted are kept, and every new one is run behind all of
them; of the output only what is new is shown. An input that ends in neither a semicolon nor a brace
is an expression: its value is shown and it is not kept. An input of several lines is complete when
no more braces are opened than closed. They are counted outside quoted text: both kinds of quotes
count, and inside them a backslash takes the next character with it.
-/

namespace ClassScript

/-! ## Counting braces -/

/-- The count of braces so far, the quote that is open, and whether a backslash stands before the next
character. -/
structure BraceCount where
  depth : Int
  quote : Option Char
  escaped : Bool
  deriving DecidableEq, Inhabited

namespace BraceCount

/-- The count in front of a text. -/
def zero : BraceCount := ⟨0, none, false⟩

/-- The count behind one more character. -/
def step (b : BraceCount) (c : Char) : BraceCount :=
  if b.escaped then { b with escaped := false }
  else
    match b.quote with
    | some q =>
      if c == '\\' then { b with escaped := true }
      else if c == q then { b with quote := none }
      else b
    | none =>
      if c == '"' || c == '\'' then { b with quote := some c }
      else if c == '\x7b' then { b with depth := b.depth + 1 }
      else if c == '\x7d' then { b with depth := b.depth - 1 }
      else b

end BraceCount

/-- How many braces of a text are open at its end; negative if more are closed than opened. -/
def braceDepth (t : Text) : Int := (t.foldl (fun b g => b.step g.shown) BraceCount.zero).depth

/-! ## The session -/

/-- What is written to the two outputs of a command. -/
structure Screen where
  out : Bytes
  errors : Bytes
  deriving DecidableEq, Inhabited

namespace Screen

/-- Nothing. -/
def blank : Screen := ⟨[], []⟩

/-- One thing after another. -/
def append (a b : Screen) : Screen := ⟨a.out ++ b.out, a.errors ++ b.errors⟩

instance : Append Screen := ⟨append⟩

/-- The characters shown for what is written about errors. -/
def err (s : Screen) : String := s.errors.shown

end Screen

/-- How a command ends. -/
inductive Exit where
  | success | failure | misuse
  deriving DecidableEq, Inhabited

/-- The number that the caller of a command sees. -/
def Exit.code : Exit → Nat
  | success => 0
  | failure => 1
  | misuse => 2

/-- An interactive session. -/
structure Shell (m : Type → Type) where
  session : Session m
  json : Bool
  /-- The inputs that are kept, oldest first. -/
  history : List Text
  /-- How many bytes of output the kept inputs have shown. -/
  seen : Nat
  /-- The lines of an input that is not complete. -/
  pending : Text
  /-- How the session ended, if it has. -/
  ended : Option Exit

namespace Shell

variable {m : Type → Type} [Monad m]

/-- The name of inputs in messages. -/
def fileName : String := "<repl>"

/-- A session in which nothing has been entered. -/
def new (session : Session m) (json : Bool) : Shell m := ⟨session, json, [], 0, [], none⟩

/-- Whether an input is an expression. -/
def isExpression (input : Text) : Bool :=
  !(input.getLast?.any fun g => g.is ';' || g.is '\x7d')

/-- The program that an input stands for. -/
def source (history : List Text) (input : Text) : Text :=
  ("\n" : Text).intercalate history ++
    if isExpression input then "\nreturn " ++ input ++ ";" else "\n" ++ input

/-- Runs an input. -/
def perform (s : Shell m) (input : Text) : m (Screen × Shell m) := do
  let r ← s.session.execute fileName (source s.history input)
  let fresh := r.output.drop s.seen
  match r.result with
  | .error failure => return (⟨fresh, failure ++ "\n"⟩, s)
  | .ok (v, h) =>
    if isExpression input then
      match h.screenText s.json v with
      | .ok text => return (⟨fresh ++ text, ""⟩, s)
      | .error failure => return (⟨fresh, failure ++ "\n"⟩, s)
    else
      return (⟨fresh, ""⟩, { s with history := s.history ++ [input], seen := r.output.length })

/-- Takes a complete input. -/
def accept (s : Shell m) (input : Text) : m (Screen × Shell m) :=
  let s := { s with pending := [] }
  let input := input.trim
  if input.isEmpty then return (.blank, s)
  else if input == ":quit" || input == ":q" then
    return (.blank, { s with ended := some .success })
  else if input == ":reset" then return (.blank, { s with history := [], seen := 0 })
  else s.perform input

/-- The longest line that is read, in bytes. -/
def maxLine : Nat := 65535

/-- The lines of an input with a further line. A carriage return at its end does not count. -/
def withLine (pending line : Text) : Text :=
  pending ++ (if line.getLast?.any (Glyph.is '\r') then line.dropLast else line) ++ "\n"

/-- Takes a line. -/
def feed (s : Shell m) (line : Text) : m (Screen × Shell m) :=
  if line.width > maxLine then
    return (⟨[], "bufio.Scanner: token too long\n"⟩, { s with ended := some .failure })
  else
    let text := withLine s.pending line
    if braceDepth text ≤ 0 then s.accept text
    else return (.blank, { s with pending := text })

/-- A line that can be read ends an input, or the input goes on. -/
theorem feed_eq (s : Shell m) {line : Text} (short : line.width ≤ maxLine) :
    s.feed line = if braceDepth (withLine s.pending line) ≤ 0 then s.accept (withLine s.pending line)
      else pure (.blank, { s with pending := withLine s.pending line }) := by
  unfold feed
  rw [if_neg (Nat.not_lt.2 short)]

/-- Takes lines until the session ends. Behind the last line an input counts as complete. -/
def feedAll (s : Shell m) : List Text → m (Screen × Shell m)
  | [] => do
    let (screen, s) ← if s.pending.isEmpty then pure (.blank, s) else s.accept s.pending
    return (screen, { s with ended := some (s.ended.getD .success) })
  | line :: rest => do
    let (screen, s) ← s.feed line
    if s.ended.isSome then return (screen, s)
    else
      let (more, s) ← feedAll s rest
      return (screen ++ more, s)

/-- The lines of an input; one that ends in a line feed has no empty line behind it. -/
def inputLines (input : Text) : List Text :=
  if input.lines.getLast? == some [] then input.lines.dropLast else input.lines

end Shell

end ClassScript
