import ClassScript.Grammar.Declarations

/-!
Statements. The first token decides which one it is; what starts no other statement is an
expression.
-/

namespace ClassScript.Grammar

open Reader

/-- The names of an import that lists them. -/
def importNames : Reader (List Name) := do
  if ← accept (.symbol .leftBrace) then
    let names ← commaList name
    let _ ← expect (.symbol .rightBrace)
    let _ ← expect (.keyword .fromWord)
    return names
  else return []

/-- An import. -/
def importing : Reader Stmt := do
  let start ← next
  let names ← importNames
  let path ← expect .string
  let _ ← expect (.symbol .semicolon)
  return .uses (← markFrom start start) names ⟨path, path.contents⟩

/-- A variable with an optional type and an optional value. -/
def binding (g : Grammar) (depth : Nat) : Reader Stmt := do
  let start ← next
  let name ← name
  let type ← g.typeAnnotation depth
  let value ← g.initialiser depth
  let _ ← expect (.symbol .semicolon)
  return .binds (← markFrom start start) name type value

/-- A return with an optional value. -/
def returning (g : Grammar) (depth : Nat) : Reader Stmt := do
  let start ← next
  let value ←
    if ← peekIs (.symbol .semicolon) then pure none else pure (some (← g.expression depth 0))
  let _ ← expect (.symbol .semicolon)
  return .returns (← markFrom start start) value

/-- An expression in parentheses, behind the word that asks for it. -/
def parenthesised (g : Grammar) (depth : Nat) : Reader Expr := do
  let _ ← expect (.symbol .leftParen)
  let e ← g.expression depth 0
  let _ ← expect (.symbol .rightParen)
  return e

/-- A branch; the other side is a block or another branch. -/
def branching (g : Grammar) (depth : Nat) : Reader Stmt := do
  let start ← next
  let condition ← g.parenthesised depth
  let yes ← g.block depth
  let no ←
    if ← accept (.keyword .elseWord) then
      if ← peekIs (.keyword .ifWord) then pure (some (← g.statement depth))
      else pure (some (Stmt.block (← g.block depth)))
    else pure none
  return .branch (← markFrom start start) condition yes no

/-- The arms of a selection and its default block, up to the closing brace, at most `fuel` of
them. -/
def armsUpTo (g : Grammar) (depth : Nat) (fallback : Option Block) :
    Nat → Reader (List Arm × Option Block)
  | 0 => do failAt .exhausted (← peek)
  | fuel + 1 => do
    let t ← peek
    if t.kind == .symbol .rightBrace then return ([], fallback)
    else if t.kind == .endOfInput then unexpected "\x7d" t
    else if t.kind == .keyword .defaultWord then
      let t ← next
      if fallback.isSome then failAt .duplicateDefault t
      let _ ← expect (.symbol .fatArrow)
      let body ← g.block depth
      g.armsUpTo depth (some body) fuel
    else
      let value ← g.expression depth 0
      let _ ← expect (.symbol .fatArrow)
      let body ← g.block depth
      let arm := ⟨← markFrom t t, value, body⟩
      let (arms, fallback) ← g.armsUpTo depth fallback fuel
      return (arm :: arms, fallback)

/-- A selection among cases. -/
def selecting (g : Grammar) (depth : Nat) : Reader Stmt := do
  let start ← next
  let subject ← g.parenthesised depth
  let _ ← expect (.symbol .leftBrace)
  let (arms, fallback) ← g.armsUpTo depth none ((← get).ahead.length + 1)
  let _ ← next
  return .select (← markFrom start start) subject arms fallback

/-- A loop over the items of a collection. -/
def looping (g : Grammar) (depth : Nat) : Reader Stmt := do
  let start ← next
  let _ ← expect (.symbol .leftParen)
  let item ← name
  let _ ← expect (.keyword .inWord)
  let iterable ← g.expression depth 0
  let _ ← expect (.symbol .rightParen)
  let body ← g.block depth
  return .each (← markFrom start start) item iterable body

/-- An expression as a statement. -/
def doing (g : Grammar) (depth : Nat) : Reader Stmt := do
  let start ← peek
  let e ← g.expression depth 0
  let _ ← expect (.symbol .semicolon)
  return .does (← markFrom start start) e

/-- A statement. -/
def statementStep (g : Grammar) (depth : Nat) : Reader Stmt := do
  match (← peek).kind with
  | .keyword .importWord => importing
  | .atName | .keyword .openWord | .keyword .classWord | .keyword .interfaceWord =>
    return .declares (← g.declaration depth)
  | .keyword .letWord => g.binding depth
  | .keyword .returnWord => g.returning depth
  | .keyword .ifWord => g.branching depth
  | .keyword .matchWord => g.selecting depth
  | .keyword .foreachWord => g.looping depth
  | .symbol .leftBrace => return .block (← g.block depth)
  | _ => g.doing depth

end ClassScript.Grammar
