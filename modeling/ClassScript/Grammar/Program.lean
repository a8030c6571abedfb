import ClassScript.Diagnostic
import ClassScript.Token.Lexer
import ClassScript.Grammar.Expressions
import ClassScript.Grammar.Statements
import ClassScript.Grammar.Basic

/-!
Whole programs. The readers of statements, expressions, types and elements are tied together with
a bound on how deeply they call each other. Every other call has taken a token, so a multiple of
the number of tokens is never reached.
-/

namespace ClassScript

namespace Grammar

mutual

/-- A statement, read with at most `fuel` nested calls. -/
def statementWithin : Nat → Nat → Reader Stmt
  | 0, _ => do Reader.failAt .exhausted (← Reader.peek)
  | fuel + 1, depth =>
    statementStep ⟨statementWithin fuel, expressionWithin fuel, typeWithin fuel, elementWithin fuel⟩
      depth

/-- An expression, read with at most `fuel` nested calls. -/
def expressionWithin : Nat → Nat → Nat → Reader Expr
  | 0, _, _ => do Reader.failAt .exhausted (← Reader.peek)
  | fuel + 1, depth, precedence =>
    expressionStep ⟨statementWithin fuel, expressionWithin fuel, typeWithin fuel, elementWithin fuel⟩
      depth precedence

/-- A type, read with at most `fuel` nested calls. -/
def typeWithin : Nat → Nat → Reader TypeExpr
  | 0, _ => do Reader.failAt .exhausted (← Reader.peek)
  | fuel + 1, depth =>
    typeStep ⟨statementWithin fuel, expressionWithin fuel, typeWithin fuel, elementWithin fuel⟩ depth

/-- An element, read with at most `fuel` nested calls. -/
def elementWithin : Nat → Nat → Reader Element
  | 0, _ => do Reader.failAt .exhausted (← Reader.peek)
  | fuel + 1, depth =>
    elementStep ⟨statementWithin fuel, expressionWithin fuel, typeWithin fuel, elementWithin fuel⟩
      depth

end

/-- The bound on nested calls for an input of that many tokens. -/
def bound (tokens : Nat) : Nat := 4 * tokens + 8

/-- The grammar for an input of that many tokens. -/
def sized (tokens : Nat) : Grammar :=
  ⟨statementWithin (bound tokens), expressionWithin (bound tokens), typeWithin (bound tokens),
    elementWithin (bound tokens)⟩

/-- Statements up to the end of the input, at most `fuel` of them. -/
def statementsUpTo (g : Grammar) : Nat → Reader (List Stmt)
  | 0 => do Reader.failAt .exhausted (← Reader.peek)
  | fuel + 1 => do
    if ← Reader.peekIs .endOfInput then return []
    else
      let s ← g.statement 0
      let more ← g.statementsUpTo fuel
      return s :: more

/-- A whole program. -/
def program (g : Grammar) (file : String) : Reader Program := do
  let start ← Reader.peek
  let statements ← g.statementsUpTo ((← get).ahead.length + 1)
  let span ← if statements.isEmpty then pure Span.none else Reader.spanFrom start
  return ⟨file, statements, span⟩

end Grammar

/-- The diagnostic of a scanning fault. -/
def ScanFault.diagnostic (fault : ScanFault) (span : Span) (file : String) : Diagnostic :=
  let code :=
    match fault with
    | .integerRange _ => "L002"
    | _ => "L001"
  ⟨.token, code, fault.message, span, file⟩

/-- The tokens of a file. -/
def Token.ofSource (file : String) (source : Text) : Except Diagnostic (List Token) :=
  match source.tokens with
  | .error (fault, span) => .error (fault.diagnostic span file)
  | .ok tokens => .ok tokens

namespace Program

/-- The program that a list of tokens spells. -/
def ofTokens (file : String) (tokens : List Token) : Except Diagnostic Program :=
  let ahead := Token.significant tokens
  match ((Grammar.sized ahead.length).program file).run ⟨ahead.headD default, ahead⟩ with
  | .error (fault, span) => .error ⟨.syntactic, fault.code, fault.message, span, file⟩
  | .ok (program, _) => .ok program

/-- The program that a source text spells. -/
def ofSource (file : String) (source : Text) : Except Diagnostic Program := do
  let tokens ← Token.ofSource file source
  ofTokens file tokens

end Program

end ClassScript
