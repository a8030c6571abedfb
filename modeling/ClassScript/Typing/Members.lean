import ClassScript.Typing.Basic
import ClassScript.Typing.Fault

/-!
Members seen from outside: what an object offers, who may use it, and what a call of it asks of the
arguments.
-/

namespace ClassScript.Typing

/-- What a member access goes through: a declaration with arguments, or the class itself. -/
structure Receiver where
  decl : DeclSymbol
  args : List Ty
  isStatic : Bool

/-- A field or a method. -/
inductive MemberSymbol where
  | field (f : FieldSymbol)
  | method (m : MethodSymbol)

namespace MemberSymbol

def owner : MemberSymbol → Nominal
  | field f => f.owner
  | method m => m.owner

def isStatic : MemberSymbol → Bool
  | field f => f.isStatic
  | method m => m.isStatic

def isPrivate : MemberSymbol → Bool
  | field f => f.isPrivate
  | method m => m.isPrivate

end MemberSymbol

/-- A member, with what the type parameters of its owner stand for. -/
structure Member where
  symbol : MemberSymbol
  subst : Subst

namespace Member

/-- The type of a member. A field whose initial value has not been looked at has an unknown type. -/
def type (m : Member) : Analysis Ty :=
  match m.symbol with
  | .field f =>
    match f.type with
    | some t => return t.apply m.subst
    | none => fresh f.name
  | .method f => return f.signature.apply m.subst

end Member

/-- What the type parameters of `owner` stand for, seen from a declaration with arguments. -/
def viewSubst (r : Registry) (decl : Nominal) (args : List Ty) (owner : Nominal) : Subst :=
  match r.find? owner.name with
  | none => []
  | some o => Subst.ofLists o.params ((r.table.viewAs decl args owner).getD [])

/-- Whether private members of `owner` may be used: in its own members, and in those of its direct
subclasses. -/
def seesPrivate (r : Registry) (scope : Scope) (owner : Nominal) : Bool :=
  match scope.owner with
  | none => false
  | some o =>
    o == owner ||
      match r.find? o.name with
      | some d => d.parent.any fun p => p.1 == owner
      | none => false

/-- The receiver that a value of type `t` is, if its type is known. -/
def receiver? (span : Span) (t : Ty) : Analysis (Option Receiver) := do
  let r := (← read).registry
  let inner := t.unwrap.1
  let found ←
    match inner with
    | .var _ => return none
    | .static n => pure ((r.find? n.name).map (⟨·, [], true⟩))
    | .ref n args => pure ((r.find? n.name).map (⟨·, args, false⟩))
    | other => pure ((← boxed? other).map (⟨·, [], false⟩))
  match found with
  | some recv => return some recv
  | none => reject span (.noMembers inner)

/-- The superclass of the class around a scope, with its arguments. -/
def parentOf? (r : Registry) (scope : Scope) : Option (DeclSymbol × List Ty) := do
  let owner ← scope.owner
  let d ← r.find? owner.name
  let (parent, args) ← d.parent
  let p ← r.find? parent.name
  return (p, args)

/-- The superclass as a receiver, in members of instances. -/
def parentReceiver (scope : Scope) (span : Span) : Analysis Receiver := do
  match parentOf? (← read).registry scope with
  | some (p, args) =>
    require (!scope.isStatic) span .noParent
    note span (.ref p.nominal args)
    return ⟨p, args, false⟩
  | none => reject span .noParent

/-- The member of that name of a declaration with arguments; fields hide methods. Methods of
interfaces come with what their type parameters stand for. -/
def member? (r : Registry) (recv : Receiver) (name : String) : Option (MemberSymbol × Option Subst) :=
  if recv.decl.nominal.isInterface then
    match r.interfaceField? recv.decl name with
    | some f => some (.field f, none)
    | none =>
      ((r.allMethods recv.decl recv.args).find? fun i => i.method.name == name).map fun i =>
        (.method i.method, some i.subst)
  else
    match r.classField? recv.decl name with
    | some f => some (.field f, none)
    | none => (r.classMethod? recv.decl name).map fun m => (.method m, none)

/-- The names that may have been meant by a member of a declaration. -/
def memberCandidates (r : Registry) (d : DeclSymbol) : List String :=
  if d.nominal.isInterface then
    (r.allMethods d []).map (·.method.name) ++ d.memberNames
  else r.visibleNames d

/-- The member of that name, if the scope may use it through the receiver. -/
def useMember (scope : Scope) (recv : Receiver) (name : String) (span : Span) : Analysis Member := do
  let r := (← read).registry
  match member? r recv name with
  | none =>
    reject span
      (.unknownMember recv.decl.name name (Suggestion.remark name (memberCandidates r recv.decl)))
  | some (symbol, subst) =>
    require (symbol.isStatic || !recv.isStatic) span (.instanceThroughClass name recv.decl.name)
    require (recv.isStatic || !symbol.isStatic) span (.staticThroughInstance name symbol.owner.name)
    require (!symbol.isPrivate || seesPrivate r scope symbol.owner) span
      (.privateMember name symbol.owner.name)
    noteAccess span symbol.owner symbol.isPrivate false
    return ⟨symbol, subst.getD (viewSubst r recv.decl.nominal recv.args symbol.owner)⟩

/-- Stops unless a member can be assigned to: methods never can, and read-only fields only in a
constructor of their class. -/
def requireAssignable (scope : Scope) (m : Member) (name : String) (span : Span) : Analysis Unit :=
  match m.symbol with
  | .method _ => reject span (.assignToMethod name)
  | .field f =>
    require (!f.isReadonly || (scope.inConstructor && scope.owner == some f.owner)) span
      (.readonlyField name f.owner.name)

/-- What a call asks of its arguments, and what it gives. An argument without a type here may have
any type. -/
structure Signature where
  params : List Ty
  result : Ty

/-- The signature of a method under a substitution, for a call with that many arguments. -/
def methodSignature (name : String) (m : MethodSymbol) (subst : Subst) (count : Nat) (span : Span) :
    Analysis Signature := do
  let total := m.params.length
  require (m.required ≤ count && count ≤ total) span
    (if m.required == total then .argumentCount name total count
     else .argumentRange name m.required total count)
  return ⟨m.params.map fun p => p.type.apply subst, m.result.apply subst⟩

/-- The signature of a value that is called with that many arguments. -/
def valueSignature (name : String) (t : Ty) (count : Nat) (span callee : Span) : Analysis Signature := do
  match t with
  | .var _ => return ⟨[], ← fresh "result"⟩
  | .function params result =>
    require (count == params.length) span (.argumentCount name params.length count)
    return ⟨params, result⟩
  | _ => reject callee (.notCallable name t)

/-- The signature of indexing: the method of that name, with that many arguments. -/
def indexSignature (scope : Scope) (recv : Option Receiver) (name : String) (count : Nat)
    (span : Span) : Analysis Signature := do
  match recv with
  | none => return ⟨[], ← fresh name⟩
  | some recv =>
    let m ← useMember scope recv name span
    match m.symbol with
    | .method f => methodSignature name f m.subst count span
    | .field _ => reject span (.noIndexing recv.decl.name)

/-- The signature of the construction of a class with arguments. A class without a constructor
takes none. -/
def constructorSignature (d : DeclSymbol) (args : List Ty) (ctor : Option MethodSymbol) (count : Nat)
    (span : Span) : Analysis Signature := do
  match ctor with
  | none =>
    require (count == 0) span (.noConstructor d.name count)
    return ⟨[], .void⟩
  | some c =>
    methodSignature d.name c (viewSubst (← read).registry d.nominal args c.owner) count span

/-- Stops unless an argument can be passed where a type is wanted. -/
def requirePassed (want : Option Ty) (got : Ty) (span : Span) : Analysis Unit :=
  match want with
  | none => pure ()
  | some want => do
    require (!got.isVoid) span .voidArgument
    requireAccepts want got span (.badArgument got want)

end ClassScript.Typing
