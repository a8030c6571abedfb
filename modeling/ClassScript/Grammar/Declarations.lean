import ClassScript.Grammar.Basic

/-!
Classes, interfaces and their members. Fields are private and methods public unless they say
otherwise, and no two members of one declaration share a name.
-/

namespace ClassScript.Grammar

open Reader

/-- The modifiers with one more word, or nothing if the word is there already. -/
def addModifier (m : Modifiers) : Keyword → Option Modifiers
  | .publicWord => if m.isPublic then none else some { m with isPublic := true }
  | .privateWord => if m.isPrivate then none else some { m with isPrivate := true }
  | .staticWord => if m.isStatic then none else some { m with isStatic := true }
  | .readonlyWord => if m.isReadonly then none else some { m with isReadonly := true }
  | .openWord => if m.isOpen then none else some { m with isOpen := true }
  | _ => none

/-- Whether a reserved word is a modifier. -/
def isModifier : Keyword → Bool
  | .publicWord | .privateWord | .staticWord | .readonlyWord | .openWord => true
  | _ => false

/-- Goes on with modifiers, at most `fuel` of them. -/
def modifiersFrom (m : Modifiers) : Nat → Reader Modifiers
  | 0 => return m
  | fuel + 1 => do
    let t ← peek
    match t.kind with
    | .keyword k =>
      if isModifier k then
        match addModifier m k with
        | none => failAt (.duplicateModifier t.word) t
        | some m' =>
          let _ ← next
          modifiersFrom m' fuel
      else if m.isPublic && m.isPrivate then failAt .publicAndPrivate t
      else return m
    | _ => if m.isPublic && m.isPrivate then failAt .publicAndPrivate t else return m

/-- The modifiers of a member. -/
def modifiers : Reader Modifiers := do modifiersFrom {} ((← get).ahead.length + 1)

/-- A member of a declaration. -/
inductive Member where
  | field (f : Field)
  | method (m : Method)

/-- The token that names a member. -/
def Member.nameToken : Member → Token
  | .field f => f.mark.head
  | .method m => m.mark.head

/-- A method behind its name. -/
def method (g : Grammar) (depth : Nat) (start nameToken : Token) (annotations : List Annotation)
    (mods : Modifiers) : Reader Method := do
  let mods := if mods.isPublic || mods.isPrivate then mods else { mods with isPublic := true }
  let typeParams ← typeParameters
  let _ ← expect (.symbol .leftParen)
  let params ← g.parameters depth
  let result ← g.typeAnnotation depth
  let body ←
    if ← peekIs (.symbol .leftBrace) then pure (some (← g.block depth))
    else do
      let _ ← expect (.symbol .semicolon)
      pure none
  return {
    mark := ← markFrom nameToken start
    annotations
    modifiers := mods
    name := Name.ofToken nameToken
    isConstructor := nameToken.kind == .keyword .constructorWord
    typeParams
    params
    result
    body }

/-- A field behind its name. -/
def field (g : Grammar) (depth : Nat) (start nameToken : Token) (annotations : List Annotation)
    (mods : Modifiers) : Reader Field := do
  let mods := if mods.isPublic || mods.isPrivate then mods else { mods with isPrivate := true }
  let type ← g.typeAnnotation depth
  let init ← g.initialiser depth
  let _ ← expect (.symbol .semicolon)
  return {
    mark := ← markFrom nameToken start
    annotations
    modifiers := mods
    name := Name.ofToken nameToken
    type
    init }

/-- A member: a method if a parenthesis or an angle bracket follows its name, else a field. -/
def member (g : Grammar) (depth : Nat) : Reader Member := do
  let start ← peek
  let annotations ← annotations
  let mods ← modifiers
  let t ← peek
  if t.kind != .identifier && t.kind != .keyword .constructorWord then unexpected "member name" t
  let nameToken ← next
  let ahead ← peek
  if ahead.kind == .symbol .leftParen || ahead.kind == .symbol .less then
    return .method (← g.method depth start nameToken annotations mods)
  else
    if nameToken.kind == .keyword .constructorWord then unexpected "( after constructor" ahead
    return .field (← g.field depth start nameToken annotations mods)

/-- Members up to the closing brace, at most `fuel` of them. A name that is taken is a failure at
the second member of that name. -/
def membersUpTo (g : Grammar) (depth : Nat) (owner : String) (taken : List String) :
    Nat → Reader (List Member)
  | 0 => do failAt .exhausted (← peek)
  | fuel + 1 => do
    let t ← peek
    if t.kind == .symbol .rightBrace then return []
    else if t.kind == .endOfInput then unexpected "\x7d" t
    else
      let m ← g.member depth
      let name := m.nameToken.word
      if taken.contains name then failAt (.duplicateMember name owner) m.nameToken
      let more ← g.membersUpTo depth owner (name :: taken) fuel
      return m :: more

/-- The members between the braces of a declaration: its fields and its methods. -/
def members (g : Grammar) (depth : Nat) (owner : String) : Reader (List Field × List Method) := do
  let _ ← expect (.symbol .leftBrace)
  let all ← g.membersUpTo depth owner [] ((← get).ahead.length + 1)
  let _ ← next
  let fields := all.filterMap fun | .field f => some f | .method _ => none
  let methods := all.filterMap fun | .field _ => none | .method m => some m
  return (fields, methods)

/-- A class behind its introducing word `head`. -/
def classDeclaration (g : Grammar) (depth : Nat) (start head : Token)
    (annotations : List Annotation) (isOpen : Bool) : Reader Declaration := do
  let name ← name
  let typeParams ← typeParameters
  let parent ←
    if ← accept (.keyword .extendsWord) then pure (some (← g.type depth)) else pure none
  let interfaces ← if ← accept (.keyword .implementsWord) then g.types depth else pure []
  let (fields, methods) ← g.members depth name.text
  return ⟨← markFrom head start, annotations, .ofClass isOpen parent interfaces, name, typeParams,
    fields, methods⟩

/-- An interface behind its introducing word `head`. -/
def interfaceDeclaration (g : Grammar) (depth : Nat) (start head : Token)
    (annotations : List Annotation) : Reader Declaration := do
  let name ← name
  let typeParams ← typeParameters
  let parents ← if ← accept (.keyword .extendsWord) then g.types depth else pure []
  let (fields, methods) ← g.members depth name.text
  match methods.find? (·.isConstructor) with
  | some m => failAt (.interfaceConstructor name.text) m.mark.head
  | none =>
    return ⟨← markFrom head start, annotations, .ofInterface parents, name, typeParams, fields,
      methods⟩

/-- A class or interface with its annotations. -/
def declaration (g : Grammar) (depth : Nat) : Reader Declaration := do
  let start ← peek
  let annotations ← annotations
  let t ← peek
  match t.kind with
  | .keyword .openWord => do
    let _ ← next
    let head ← expect (.keyword .classWord)
    g.classDeclaration depth start head annotations true
  | .keyword .classWord => do
    let head ← next
    g.classDeclaration depth start head annotations false
  | .keyword .interfaceWord => do
    let head ← next
    g.interfaceDeclaration depth start head annotations
  | _ => unexpected "class or interface after annotation" t

end ClassScript.Grammar
