import ClassScript.Grammar.Markup

/-!
Expressions by operator precedence. An operand is read first; operators that bind tighter than the
context then take it as their left side. Parentheses belong to the source text of the enclosing
node. An opening parenthesis starts a lambda exactly if an arrow or a colon follows the matching
closing one.
-/

namespace ClassScript

namespace Precedence

/-- How tightly assignments bind. -/
def assignment : Nat := 5

/-- How tightly an operator in front binds its operand. -/
def unary : Nat := 70

/-- How tightly a binary operator binds. -/
def binary : BinaryOp → Nat
  | .or => 10
  | .and => 20
  | .equal | .notEqual => 30
  | .less | .greater | .lessEq | .greaterEq => 40
  | .add | .sub => 50
  | .mul | .div | .rem => 60

end Precedence

/-- What a symbol does behind an operand. -/
inductive Infix where
  | binary (op : BinaryOp)
  | assign
  | call
  | index
  | member

namespace Infix

/-- What a kind of token does behind an operand. -/
def ofKind? : TokenKind → Option Infix
  | .symbol .assign => some assign
  | .symbol .leftParen => some call
  | .symbol .leftBracket => some index
  | .symbol .dot => some member
  | .symbol s => (BinaryOp.ofSymbol? s).map binary
  | _ => none

/-- How tightly it binds to the operand. -/
def precedence : Infix → Nat
  | binary op => Precedence.binary op
  | assign => Precedence.assignment
  | call | index => 90
  | member => 100

end Infix

namespace Grammar

open Reader

/-- Whether an arrow or a colon follows the parenthesis that closes `depth` open ones. -/
def lambdaAhead (depth : Nat) : List Token → Bool
  | [] => false
  | t :: rest =>
    match t.kind with
    | .symbol .leftParen => lambdaAhead (depth + 1) rest
    | .symbol .rightParen =>
      if depth ≤ 1 then
        match rest with
        | [] => false
        | t' :: _ => t'.kind == .symbol .arrow || t'.kind == .symbol .colon
      else lambdaAhead (depth - 1) rest
    | .endOfInput => false
    | _ => lambdaAhead depth rest

/-- Expressions with commas between them up to a closing token, which is taken. -/
def expressions (g : Grammar) (depth : Nat) (stop : TokenKind) : Reader (List Expr) := do
  if ← accept stop then return []
  else
    let es ← commaList (g.expression depth 0)
    let _ ← expect stop
    return es

/-- The body of a lambda: a block, or a value. -/
def lambdaBody (g : Grammar) (depth : Nat) : Reader LambdaBody := do
  if ← peekIs (.symbol .leftBrace) then return .block (← g.block depth)
  else return .value (← g.expression depth 0)

/-- A lambda. -/
def lambda (g : Grammar) (depth : Nat) : Reader Expr := do
  let start ← next
  let params ← g.parameters depth
  let result ← g.typeAnnotation depth
  let _ ← expect (.symbol .arrow)
  let body ← g.lambdaBody depth
  return .lambda (← markFrom start start) params result body

/-- An expression in parentheses. -/
def group (g : Grammar) (depth : Nat) : Reader Expr := do
  let _ ← next
  let e ← g.expression depth 0
  let _ ← expect (.symbol .rightParen)
  return e

/-- The construction of an object. -/
def creation (g : Grammar) (depth : Nat) : Reader Expr := do
  let start ← next
  let type ← g.type depth
  if type.name?.isNone then failAt .functionInstance (← get).last
  let _ ← expect (.symbol .leftParen)
  let args ← g.expressions depth (.symbol .rightParen)
  return .create (← markFrom start start) type args

/-- The word for the superclass, which must be called or followed by a member. -/
def parent : Reader Expr := do
  let t ← next
  let ahead ← peek
  if ahead.kind != .symbol .leftParen && ahead.kind != .symbol .dot then
    unexpected "( or . after super" ahead
  return .parent (Mark.ofToken t)

/-- An operator in front of an operand. -/
def unary (g : Grammar) (depth : Nat) (op : UnaryOp) : Reader Expr := do
  let start ← next
  let operand ← g.expression depth Precedence.unary
  return .unary (← markFrom start start) op operand

/-- The first operand of an expression. -/
def operand (g : Grammar) (depth : Nat) : Reader Expr := do
  let t ← peek
  match t.kind with
  | .identifier => return .name (Name.ofToken (← next))
  | .number => do
    let t ← next
    return .number (Mark.ofToken t) t.word
  | .string => do
    let t ← next
    return .string ⟨t, t.contents⟩
  | .boolean => do
    let t ← next
    return .boolean (Mark.ofToken t) (t.word == "true")
  | .keyword .nullWord => return .null (Mark.ofToken (← next))
  | .keyword .thisWord => return .self (Mark.ofToken (← next))
  | .keyword .superWord => parent
  | .keyword .newWord => g.creation depth
  | .keyword .vdomWord => g.markup depth
  | .symbol .leftBracket => do
    let start ← next
    let elements ← g.expressions depth (.symbol .rightBracket)
    return .array (← markFrom start start) elements
  | .symbol .leftParen => do
    if lambdaAhead 1 ((← get).ahead.drop 1) then g.lambda depth else g.group depth
  | .symbol .bang => g.unary depth .not
  | .symbol .minus => g.unary depth .negate
  | _ => failAt (.noExpression t) t

/-- What follows an operand `left` that starts at `start`. -/
def infixStep (g : Grammar) (depth : Nat) (start : Token) (left : Expr) (kind : Infix) :
    Reader Expr := do
  let head ← next
  match kind with
  | .binary op => do
    let right ← g.expression depth (Precedence.binary op)
    return .binary (← markFrom head start) op left right
  | .assign => do
    if !left.isTarget then failAt (.badTarget left.text.shown) head
    let value ← g.expression depth (Precedence.assignment - 1)
    return .assign (← markFrom head start) left value
  | .call => do
    let args ← g.expressions depth (.symbol .rightParen)
    return .call (← markFrom head start) left args
  | .index => do
    let i ← g.expression depth 0
    let _ ← expect (.symbol .rightBracket)
    return .index (← markFrom head start) left i
  | .member => do
    let property ← name
    return .member (← markFrom head start) left property

/-- Extends an operand by the operators that bind tighter than `precedence`, at most `fuel` of
them. -/
def infixRest (g : Grammar) (depth precedence : Nat) (start : Token) (left : Expr) :
    Nat → Reader Expr
  | 0 => return left
  | fuel + 1 => do
    match Infix.ofKind? (← peek).kind with
    | none => return left
    | some kind =>
      if precedence < kind.precedence then
        let e ← g.infixStep depth start left kind
        g.infixRest depth precedence start e fuel
      else return left

/-- An expression whose operators bind tighter than `precedence`. -/
def expressionStep (g : Grammar) (depth precedence : Nat) : Reader Expr := do
  let depth ← enter depth
  let start ← peek
  let left ← g.operand depth
  g.infixRest depth precedence start left (← get).ahead.length

end Grammar

end ClassScript
