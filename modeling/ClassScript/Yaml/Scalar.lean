import ClassScript.Yaml.Basic

/-!
Scalars of a document. A cursor stands somewhere in the text and knows its line and column. Line ends
inside a scalar are folded: one is read as a space, of several all but the first are kept.
-/

namespace ClassScript.Yaml

/-- A place in a document. -/
structure Cursor where
  line : Nat
  column : Nat
  /-- Whether a key or an entry of a list may start here: nothing but blanks and entry marks stand
  before it on the line. -/
  fresh : Bool
  rest : List Char
  deriving Inhabited

/-- Whether a character is a blank on a line. -/
def isSpace (c : Char) : Bool := c == ' ' || c == '\t'

/-- Whether a text starts with a blank, a line end, or nothing. -/
def startsBlank : List Char → Bool
  | [] => true
  | c :: _ => isSpace c || c == '\n'

/-- The characters that a document may hold. -/
def isAllowed (c : Char) : Bool :=
  let n := c.toNat
  n == 9 || n == 10 || n == 13 || (0x20 ≤ n && n ≤ 0x7E) || n == 0x85 || (0xA0 ≤ n && n ≤ 0xFFFD) ||
    0x10000 ≤ n

/-- The text with every line end written in one way. -/
def unifyBreaks : List Char → List Char
  | [] => []
  | '\r' :: '\n' :: rest => '\n' :: unifyBreaks rest
  | c :: rest => (if c == '\r' || c == '\u0085' then '\n' else c) :: unifyBreaks rest

namespace Cursor

/-- The cursor behind the next `n` characters of its line. -/
def advance (s : Cursor) (n : Nat) (fresh : Bool) : Cursor :=
  ⟨s.line, s.column + n, fresh, s.rest.drop n⟩

/-- Whether a mark between documents starts here. -/
def atMark (s : Cursor) (mark : List Char) : Bool :=
  s.column == 0 && mark.isPrefixOf s.rest && startsBlank (s.rest.drop 3)

/-- Whether the document ends here. -/
def atEnd (s : Cursor) : Bool :=
  s.rest.isEmpty || s.atMark ['-', '-', '-'] || s.atMark ['.', '.', '.']

/-- Whether an indicator starts here that counts only in front of a blank. -/
def atIndicator (s : Cursor) (c : Char) : Bool :=
  match s.rest with
  | d :: rest => c == d && startsBlank rest
  | [] => false

end Cursor

/-- Goes over blanks, comments and line ends. Tabs are skipped inside brackets and behind something
on the line, but not where indentation counts. -/
def skipGap (inFlow fresh inComment : Bool) (line column : Nat) : List Char → Cursor
  | [] => ⟨line, column, fresh, []⟩
  | c :: rest =>
    if c == '\n' then skipGap inFlow (!inFlow) false (line + 1) 0 rest
    else if inComment || c == ' ' || (c == '\t' && (inFlow || !fresh)) then
      skipGap inFlow fresh inComment line (column + 1) rest
    else if c == '#' then skipGap inFlow fresh true line (column + 1) rest
    else ⟨line, column, fresh, c :: rest⟩

/-- The cursor at the next thing behind blanks, comments and line ends. -/
def Cursor.skip (s : Cursor) (inFlow : Bool) : Cursor :=
  skipGap inFlow s.fresh false s.line s.column s.rest

/-- What stands between two words of a scalar: blanks, or a line end and more of them. The first line
end may be cancelled by a backslash in front of it. -/
inductive Gap where
  | blanks (text : List Char)
  | breaks (cancelled : Bool) (more : Nat)

namespace Gap

/-- No gap. -/
def none : Gap := blanks []

/-- Whether there is a gap. -/
def isSome : Gap → Bool
  | blanks text => !text.isEmpty
  | breaks .. => true

/-- The gap with one more blank; blanks at a line's start do not count. -/
def addBlank (c : Char) : Gap → Gap
  | blanks text => blanks (text ++ [c])
  | gap => gap

/-- The gap with one more line end; blanks at a line's end do not count. -/
def addBreak : Gap → Gap
  | blanks _ => breaks false 0
  | breaks cancelled more => breaks cancelled (more + 1)

/-- How a gap is read. -/
def fold : Gap → List Char
  | blanks text => text
  | breaks false 0 => [' ']
  | breaks _ more => List.replicate more '\n'

end Gap

/-! ### Plain scalars -/

/-- The characters that end a plain scalar inside brackets. -/
def flowMarks : List Char := [',', '?', '[', ']', '\x7b', '\x7d']

/-- The characters that start no plain scalar. -/
def indicators : List Char :=
  ['-', '?', ':', ',', '[', ']', '\x7b', '\x7d', '#', '&', '*', '!', '|', '>', '\'', '"', '%', '@',
    '\x60']

/-- Whether a plain scalar starts with a text. -/
def startsPlain (inFlow : Bool) : List Char → Bool
  | [] => false
  | c :: rest =>
    if c == '-' then !startsBlank rest
    else if c == '?' || c == ':' then !inFlow && !startsBlank rest
    else !isSpace c && c != '\n' && !indicators.contains c

/-- Whether a plain scalar goes on with a character. -/
def continuesPlain (inFlow : Bool) (c : Char) (rest : List Char) : Bool :=
  !(c == ':' && startsBlank rest) && !(inFlow && flowMarks.contains c)

/-- Reads on in a plain scalar; `done` is what has been read, and `gap` stands behind it. On later
lines it has to be indented by `floor`. -/
def plainFrom (inFlow : Bool) (floor line : Nat) (done : List Char) (gap : Gap) (column : Nat)
    (fresh : Bool) : List Char → Except Fault (String × Cursor)
  | [] => .ok (String.ofList done.reverse, ⟨line, column, fresh, []⟩)
  | c :: rest =>
    if isSpace c then
      if c == '\t' && fresh && column < floor then .error .tabInIndentation
      else plainFrom inFlow floor line done (gap.addBlank c) (column + 1) fresh rest
    else if c == '\n' then plainFrom inFlow floor (line + 1) done gap.addBreak 0 true rest
    else
      let here : Cursor := ⟨line, column, fresh && !inFlow, c :: rest⟩
      let stops := gap.isSome && ((!inFlow && column < floor) || here.atEnd || c == '#')
      if stops || !continuesPlain inFlow c rest then .ok (String.ofList done.reverse, here)
      else
        plainFrom inFlow floor line (c :: (gap.fold.reverse ++ done)) .none (column + 1) false rest

/-! ### Quoted scalars -/

/-- The value of a hexadecimal digit. -/
def hexValue? (c : Char) : Option Nat :=
  if '0' ≤ c && c ≤ '9' then some (c.toNat - '0'.toNat)
  else if 'a' ≤ c && c ≤ 'f' then some (c.toNat - 'a'.toNat + 10)
  else if 'A' ≤ c && c ≤ 'F' then some (c.toNat - 'A'.toNat + 10)
  else none

/-- The character that hexadecimal digits give. -/
def hexChar? (digits : List Char) : Option Char := do
  let n ← digits.foldlM (fun n c => do return n * 16 + (← hexValue? c)) 0
  if n.isValidChar then some (Char.ofNat n) else none

/-- The characters written with a backslash and a letter. -/
def letterEscapes : List (Char × Char) := [
  ('0', '\x00'), ('a', '\x07'), ('b', '\x08'), ('t', '\t'), ('\t', '\t'), ('n', '\n'),
  ('v', '\x0b'), ('f', '\x0c'), ('r', '\r'), ('e', '\x1b'), (' ', ' '), ('"', '"'), ('/', '/'),
  ('\'', '\''), ('\\', '\\'), ('N', '\u0085'), ('_', '\u00a0'), ('L', '\u2028'), ('P', '\u2029')]

/-- How many hexadecimal digits follow a letter. -/
def hexEscapes : List (Char × Nat) := [('x', 2), ('u', 4), ('U', 8)]

/-- The character that the text behind a backslash stands for, and how much of the text it takes. -/
def escape? : List Char → Option (Char × Nat)
  | [] => none
  | c :: rest =>
    match letterEscapes.lookup c with
    | some d => some (d, 1)
    | none => do
      let count ← hexEscapes.lookup c
      let d ← hexChar? (rest.take count)
      if rest.length < count then none else some (d, count + 1)

/-- Reads on in a quoted scalar up to the closing quote. `taken` counts the characters ahead that
have been read already. -/
def quotedFrom (quote : Char) (line : Nat) (done : List Char) (gap : Gap) (column taken : Nat) :
    List Char → Except Fault (String × Cursor)
  | [] => .error .unclosedQuote
  | c :: rest =>
    let here : Cursor := ⟨line, column, false, c :: rest⟩
    let joined := gap.fold.reverse ++ done
    match taken with
    | n + 1 => quotedFrom quote line done gap (if c == '\n' then 0 else column + 1) n rest
    | 0 =>
      if here.atEnd then .error .unclosedQuote
      else if isSpace c then quotedFrom quote line done (gap.addBlank c) (column + 1) 0 rest
      else if c == '\n' then quotedFrom quote (line + 1) done gap.addBreak 0 0 rest
      else if c == quote then
        if quote == '\'' && rest.head? == some '\'' then
          quotedFrom quote line ('\'' :: joined) .none (column + 1) 1 rest
        else .ok (String.ofList joined.reverse, here.advance 1 false)
      else if quote == '"' && c == '\\' then
        if rest.head? == some '\n' then
          quotedFrom quote (line + 1) joined (.breaks true 0) 0 1 rest
        else
          match escape? rest with
          | none => .error .unknownEscape
          | some (d, count) => quotedFrom quote line (d :: joined) .none (column + 1) count rest
      else quotedFrom quote line (c :: joined) .none (column + 1) 0 rest

end ClassScript.Yaml
