import ClassScript.Token

/-!
Scanning. Blank glyphs are skipped; at any other glyph exactly one token starts, and `classify` says
which and how far it goes. The first malformed token ends the scan with its fault; otherwise the
list ends with one end-of-input token behind the last glyph.
-/

namespace ClassScript

/-- Why a text has no tokens. -/
inductive ScanFault where
  | annotationName
  | unexpected (g : Glyph)
  | integerRange (digits : Text)
  deriving DecidableEq, Inhabited

/-- The message of a scanning fault. -/
def ScanFault.message : ScanFault → String
  | .annotationName => "annotation name expected after '@'"
  | .unexpected g => "unexpected character " ++ Text.quoteGlyph g
  | .integerRange digits => "integer literal " ++ digits.shown ++ " out of range"

namespace Lexer

/-- Space, tab, line feed and carriage return separate tokens. -/
def isSpace (g : Glyph) : Bool := g.is ' ' || g.is '\t' || g.is '\n' || g.is '\r'

/-- ASCII letters and the underscore start a word. -/
def isLetter : Glyph → Bool
  | .char c => ('a' ≤ c && c ≤ 'z') || ('A' ≤ c && c ≤ 'Z') || c == '_'
  | .stray _ => false

/-- ASCII digits. -/
def isDigit : Glyph → Bool
  | .char c => '0' ≤ c && c ≤ '9'
  | .stray _ => false

/-- Letters and digits continue a word. -/
def isWordPart (g : Glyph) : Bool := isLetter g || isDigit g

/-- The largest value of a number token. -/
def maxInteger : Nat := 9223372036854775807

/-- The length of the longest run at the start of `t` in which `p` holds. -/
def run (p : Glyph → Bool) (t : Text) : Nat := (t.takeWhile p).length

/-- How many glyphs follow the opening quote of a string: up to and with the closing quote, or all
that is left. -/
def stringTail (rest : Text) : Nat :=
  let inside := run (fun g => !g.is '"') rest
  min (inside + 1) rest.length

/-- The token that starts with `g`, or what is wrong with it, and how many glyphs of `rest`
belong to it. -/
def classify (g : Glyph) (rest : Text) : Except ScanFault TokenKind × Nat :=
  if isLetter g then
    let n := run isWordPart rest
    (.ok (.ofWord (Text.shown (g :: rest.take n))), n)
  else if isDigit g then
    let n := run isDigit rest
    let digits := g :: rest.take n
    if Token.decimal digits ≤ maxInteger then (.ok .number, n)
    else (.error (.integerRange digits), n)
  else if g.is '"' then (.ok .string, stringTail rest)
  else if g.is '@' then
    match rest with
    | h :: _ => if isLetter h then (.ok .atName, run isWordPart rest) else (.error .annotationName, 0)
    | [] => (.error .annotationName, 0)
  else
    let next := (rest.head?.map Glyph.shown).getD ' '
    if g.is '/' && next == '/' then (.ok .comment, run (fun h => !h.is '\n') rest)
    else
      match g with
      | .stray _ => (.error (.unexpected g), 0)
      | .char c =>
        match Symbol.double? c next with
        | some s => (.ok (.symbol s), 1)
        | none =>
          match Symbol.single? c with
          | some s => (.ok (.symbol s), 0)
          | none => (.error (.unexpected g), 0)

/-- The end-of-input token at a position. -/
def endToken (p : Position) : Token := ⟨.endOfInput, [], Span.between p p⟩

/-- The tokens of the text `t` that stands at `p`. -/
def scan (p : Position) : Text → Except (ScanFault × Span) (List Token)
  | [] => .ok [endToken p]
  | g :: rest =>
    if isSpace g then scan (p.step g) rest
    else
      let (verdict, n) := classify g rest
      let lexeme := g :: rest.take n
      let stop := p.after lexeme
      let span := Span.between p stop
      match verdict with
      | .error fault => .error (fault, span)
      | .ok kind => do
        let more ← scan stop (rest.drop n)
        return ⟨kind, lexeme, span⟩ :: more
termination_by t => t.length
decreasing_by all_goals (simp only [List.length_cons, List.length_drop]; omega)

end Lexer

/-- The tokens of a whole text. -/
def Text.tokens (t : Text) : Except (ScanFault × Span) (List Token) := Lexer.scan Position.start t

end ClassScript
