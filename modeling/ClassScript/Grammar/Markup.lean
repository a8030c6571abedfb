import ClassScript.Grammar.Basic

/-!
Markup elements. Any word names a tag or an attribute. Between the tags stand elements, holes in
braces, and text: a run of tokens as they are, with one space where the source has a gap.
-/

namespace ClassScript.Grammar

open Reader

/-- An attribute: a name, an equals sign, and a quoted text or a value in braces. -/
def attr (g : Grammar) (depth : Nat) : Reader Attribute := do
  let start ← next
  let _ ← expect (.symbol .assign)
  let t ← peek
  let value ←
    match t.kind with
    | .string => do
      let q ← next
      pure (Expr.string ⟨q, q.contents⟩)
    | .symbol .leftBrace => do
      let _ ← next
      let e ← g.expression depth 0
      let _ ← expect (.symbol .rightBrace)
      pure e
    | _ => unexpected "attribute value" t
  return ⟨← markFrom start start, start.word, value⟩

/-- Attributes as long as names follow, at most `fuel` of them. -/
def attributesUpTo (g : Grammar) (depth : Nat) : Nat → Reader (List Attribute)
  | 0 => return []
  | fuel + 1 => do
    if (← peek).kind.isName then
      let a ← g.attr depth
      let more ← g.attributesUpTo depth fuel
      return a :: more
    else return []

/-- Whether a token ends a run of text. -/
def endsText : TokenKind → Bool
  | .symbol .less | .symbol .lessSlash | .symbol .leftBrace | .endOfInput => true
  | _ => false

/-- Goes on with a run of text, at most `fuel` tokens more. -/
def textRest (sofar : Text) : Nat → Reader Text
  | 0 => return sofar
  | fuel + 1 => do
    let t ← peek
    if endsText t.kind then return sofar
    else
      let gap : Text := if t.span.start > (← get).last.span.stop then " " else ""
      let t ← next
      textRest (sofar ++ gap ++ t.lexeme) fuel

/-- A run of text. -/
def text : Reader Child := do
  let start ← next
  let all ← textRest start.lexeme (← get).ahead.length
  return .text (← markFrom start start) all

/-- A value in braces between the tags. -/
def hole (g : Grammar) (depth : Nat) : Reader Child := do
  let start ← next
  let e ← g.expression depth 0
  let _ ← expect (.symbol .rightBrace)
  return .hole (← markFrom start start) e

/-- The closing tag of an element. -/
def closingTag (tag : String) : Reader Unit := do
  let _ ← next
  let t ← next
  if t.word != tag then failAt (.closingTag t.word tag) t
  let _ ← expect (.symbol .greater)

/-- Children up to and with the closing tag, at most `fuel` of them. -/
def childrenUpTo (g : Grammar) (depth : Nat) (tag : String) : Nat → Reader (List Child)
  | 0 => do failAt .exhausted (← peek)
  | fuel + 1 => do
    let t ← peek
    match t.kind with
    | .endOfInput => unexpected ("</" ++ tag ++ ">") t
    | .symbol .lessSlash =>
      closingTag tag
      return []
    | .symbol .less =>
      let e ← g.element depth
      let more ← g.childrenUpTo depth tag fuel
      return .element e :: more
    | .symbol .leftBrace =>
      let h ← g.hole depth
      let more ← g.childrenUpTo depth tag fuel
      return h :: more
    | _ =>
      let c ← text
      let more ← g.childrenUpTo depth tag fuel
      return c :: more

/-- An element from its opening bracket on. -/
def elementStep (g : Grammar) (depth : Nat) : Reader Element := do
  let depth ← enter depth
  let start ← next
  let tagToken ← next
  if !tagToken.kind.isName then unexpected "tag name" tagToken
  let tag := tagToken.word
  let attributes ← g.attributesUpTo depth (← get).ahead.length
  if ← accept (.symbol .slashGreater) then
    return ⟨← markFrom start start, tag, attributes, [], true⟩
  else
    let _ ← expect (.symbol .greater)
    let children ← g.childrenUpTo depth tag ((← get).ahead.length + 1)
    return ⟨← markFrom start start, tag, attributes, children, false⟩

/-- An element behind its introducing word, which belongs to its source text. -/
def markup (g : Grammar) (depth : Nat) : Reader Expr := do
  let start ← next
  if !(← peekIs (.symbol .less)) then unexpected (Symbol.less.spelling) (← peek)
  let e ← g.element depth
  return .markup { e with mark := { e.mark with span := ← spanFrom start } }

end ClassScript.Grammar
