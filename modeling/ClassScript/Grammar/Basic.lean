import ClassScript.Syntax.Text
import ClassScript.Token.Stream

/-!
Reading a list of tokens. A reader looks at the next token, takes it, or fails at a token; the
first failure ends the reading. The constructs of the language refer to each other through a
`Grammar`, one reader for each of the four that nest, so that every construct is a definition of
its own and the recursion is tied in one place.
-/

namespace ClassScript

/-- Why tokens form no program. -/
inductive SyntaxFault where
  | expected (what : String) (got : Token)
  | noExpression (got : Token)
  | badTarget (target : String)
  | closingTag (got opened : String)
  | tooDeep
  | duplicateDefault
  | duplicateModifier (word : String)
  | publicAndPrivate
  | duplicateMember (name owner : String)
  | interfaceConstructor (name : String)
  | functionInstance
  | exhausted

namespace SyntaxFault

/-- A token as messages quote it. -/
def quoted (t : Token) : String := Text.quoted t.lexeme

/-- The code of a fault. A missing token is told apart from a wrong one. -/
def code : SyntaxFault → String
  | expected _ got => if got.kind == .endOfInput then "P003" else "P001"
  | noExpression got => if got.kind == .endOfInput then "P003" else "P004"
  | badTarget _ => "P002"
  | closingTag .. => "P005"
  | tooDeep => "P006"
  | duplicateDefault | duplicateModifier _ | publicAndPrivate | duplicateMember ..
  | interfaceConstructor _ | functionInstance | exhausted => "P001"

/-- The message of a fault. -/
def message : SyntaxFault → String
  | expected what got =>
    if got.kind == .endOfInput then "unexpected end of input, expected " ++ what
    else "expected " ++ what ++ ", got " ++ quoted got
  | noExpression got =>
    if got.kind == .endOfInput then "unexpected end of input, expected an expression"
    else quoted got ++ " cannot start an expression"
  | badTarget target => "invalid assignment target " ++ target
  | closingTag got opened => "closing tag </" ++ got ++ "> does not match <" ++ opened ++ ">"
  | tooDeep => "expression too complex: nesting depth limit exceeded"
  | duplicateDefault => "duplicate default case"
  | duplicateModifier word => "duplicate modifier " ++ word
  | publicAndPrivate => "member cannot be both public and private"
  | duplicateMember name owner => "duplicate member " ++ name ++ " in " ++ owner
  | interfaceConstructor name => "interface " ++ name ++ " cannot declare a constructor"
  | functionInstance => "cannot instantiate a function type"
  | exhausted => "input too long"

end SyntaxFault

/-- Where a reader stands: the token taken last and the tokens ahead. -/
structure Cursor where
  last : Token
  ahead : List Token

/-- Reads a construct from the tokens ahead. -/
abbrev Reader (α : Type) := StateT Cursor (Except (SyntaxFault × Span)) α

namespace Reader

/-- The token ahead. -/
def peek : Reader Token := do
  let c ← get
  return c.ahead.headD c.last

/-- Takes the token ahead. The last token of the input stays ahead. -/
def next : Reader Token := do
  let c ← get
  match c.ahead with
  | [] => return c.last
  | [t] =>
    set (⟨t, [t]⟩ : Cursor)
    return t
  | t :: rest =>
    set (⟨t, rest⟩ : Cursor)
    return t

/-- Fails at a token. -/
def failAt {α : Type} (fault : SyntaxFault) (t : Token) : Reader α := throw (fault, t.span)

/-- Fails at a token that should have been something else. -/
def unexpected {α : Type} (what : String) (t : Token) : Reader α := failAt (.expected what t) t

/-- Whether the token ahead is of the kind. -/
def peekIs (k : TokenKind) : Reader Bool := return (← peek).kind == k

/-- Takes the token ahead if it is of the kind, and fails otherwise. -/
def expect (k : TokenKind) : Reader Token := do
  let t ← peek
  if t.kind == k then next else unexpected k.name t

/-- Takes the token ahead if it is of the kind, and says whether it was. -/
def accept (k : TokenKind) : Reader Bool := do
  if ← peekIs k then
    let _ ← next
    return true
  else return false

/-- The span from a token to the token taken last. -/
def spanFrom (start : Token) : Reader Span := return start.span.cover (← get).last.span

/-- The mark of a construct that is named after `head` and starts with `start`. -/
def markFrom (head start : Token) : Reader Mark := return ⟨head, ← spanFrom start⟩

/-- Reads `p` as often as commas follow, at most `fuel` times more. -/
def commaRest {α : Type} (p : Reader α) : Nat → Reader (List α)
  | 0 => return []
  | fuel + 1 => do
    if ← accept (.symbol .comma) then
      let a ← p
      let more ← commaRest p fuel
      return a :: more
    else return []

/-- One or more `p` with commas between them. -/
def commaList {α : Type} (p : Reader α) : Reader (List α) := do
  let first ← p
  let rest ← commaRest p (← get).ahead.length
  return first :: rest

/-- Reads `p` until the token ahead is of the kind, at most `fuel` times. The end of the input is a
failure. -/
def untilRest {α : Type} (stop : TokenKind) (p : Reader α) : Nat → Reader (List α)
  | 0 => do failAt .exhausted (← peek)
  | fuel + 1 => do
    let t ← peek
    if t.kind == stop then return []
    else if t.kind == .endOfInput then unexpected "\x7d" t
    else
      let a ← p
      let more ← untilRest stop p fuel
      return a :: more

/-- Any number of `p` up to a token of the kind, which is taken. -/
def untilToken {α : Type} (stop : TokenKind) (p : Reader α) : Reader (List α) := do
  let items ← untilRest stop p ((← get).ahead.length + 1)
  let _ ← next
  return items

end Reader

/-- The deepest nesting of expressions, types and elements. -/
def maxNesting : Nat := 500

/-- The readers of the constructs that nest; each takes the depth it stands at. -/
structure Grammar where
  statement : Nat → Reader Stmt
  expression : Nat → Nat → Reader Expr
  type : Nat → Reader TypeExpr
  element : Nat → Reader Element

namespace Grammar

/-- Goes one level deeper, unless that is too deep. -/
def enter (depth : Nat) : Reader Nat := do
  if depth + 1 > maxNesting then Reader.failAt .tooDeep (← Reader.peek) else return depth + 1

/-- A name. -/
def name : Reader Name := return Name.ofToken (← Reader.expect .identifier)

/-- One or more types with commas between them. -/
def types (g : Grammar) (depth : Nat) : Reader (List TypeExpr) := Reader.commaList (g.type depth)

/-- A type behind a colon, if there is one. -/
def typeAnnotation (g : Grammar) (depth : Nat) : Reader (Option TypeExpr) := do
  if ← Reader.accept (.symbol .colon) then return some (← g.type depth) else return none

/-- A value behind an equals sign, if there is one. -/
def initialiser (g : Grammar) (depth : Nat) : Reader (Option Expr) := do
  if ← Reader.accept (.symbol .assign) then return some (← g.expression depth 0) else return none

/-- Statements between braces. -/
def block (g : Grammar) (depth : Nat) : Reader Block := do
  let start ← Reader.expect (.symbol .leftBrace)
  let statements ← Reader.untilToken (.symbol .rightBrace) (g.statement depth)
  return ⟨← Reader.markFrom start start, statements⟩

/-- A parameter: a name with an optional type and an optional default value. -/
def parameter (g : Grammar) (depth : Nat) : Reader Param := do
  let start ← Reader.expect .identifier
  let type ← g.typeAnnotation depth
  let fallback ← g.initialiser depth
  return ⟨← Reader.markFrom start start, Name.ofToken start, type, fallback⟩

/-- Parameters behind an opening parenthesis that has been taken. -/
def parameters (g : Grammar) (depth : Nat) : Reader (List Param) := do
  if ← Reader.accept (.symbol .rightParen) then return []
  else
    let params ← Reader.commaList (g.parameter depth)
    let _ ← Reader.expect (.symbol .rightParen)
    return params

/-- Type parameters between angle brackets, if there are any. -/
def typeParameters : Reader (List Name) := do
  if ← Reader.accept (.symbol .less) then
    let names ← Reader.commaList name
    let _ ← Reader.expect (.symbol .greater)
    return names
  else return []

/-- Annotations in front of a declaration or member, at most `fuel` of them. -/
def annotationsUpTo : Nat → Reader (List Annotation)
  | 0 => return []
  | fuel + 1 => do
    if ← Reader.peekIs .atName then
      let t ← Reader.next
      let more ← annotationsUpTo fuel
      return ⟨t, Text.shown (t.lexeme.drop 1)⟩ :: more
    else return []

/-- Annotations in front of a declaration or member. -/
def annotations : Reader (List Annotation) := do annotationsUpTo (← get).ahead.length

/-! ### Types

A name, a name with arguments, or a function type, each with an optional question mark at its end. -/

/-- The parameters of a function type behind its opening parenthesis. -/
def functionTypeParams (g : Grammar) (depth : Nat) : Reader (List TypeExpr) := do
  if ← Reader.accept (.symbol .rightParen) then return []
  else
    let params ← g.types depth
    let _ ← Reader.expect (.symbol .rightParen)
    return params

/-- A function type. -/
def functionType (g : Grammar) (depth : Nat) : Reader TypeExpr := do
  let start ← Reader.next
  let params ← g.functionTypeParams depth
  let _ ← Reader.expect (.symbol .arrow)
  let result ← g.type depth
  return .function (← Reader.markFrom start start) params result false

/-- A type that starts with a name. -/
def namedType (g : Grammar) (depth : Nat) : Reader TypeExpr := do
  let start ← Reader.next
  if ← Reader.accept (.symbol .less) then
    let args ← g.types depth
    let _ ← Reader.expect (.symbol .greater)
    return .generic (← Reader.markFrom start start) start.word args false
  else return .simple (Mark.ofToken start) start.word false

/-- A type. -/
def typeStep (g : Grammar) (depth : Nat) : Reader TypeExpr := do
  let depth ← enter depth
  let start ← Reader.peek
  let t ←
    match start.kind with
    | .symbol .leftParen => g.functionType depth
    | .identifier => g.namedType depth
    | _ => Reader.unexpected "type" start
  if ← Reader.accept (.symbol .question) then return t.asNullable (← Reader.spanFrom start)
  else return t

end Grammar

end ClassScript
