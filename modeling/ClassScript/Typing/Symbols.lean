import ClassScript.Syntax.Tree
import ClassScript.Types.Accepts

/-!
What is known of declarations: fields, methods and supertypes with their types, and how members are
looked up. A class finds members along its superclasses, nearest first; an interface along the
interfaces it extends.
-/

namespace ClassScript

/-! ### Names that the language itself refers to -/

namespace Builtin

def arrayClass : String := "Array"
def numberClass : String := "Number"
def stringClass : String := "String"
def booleanClass : String := "Boolean"
def nodeClass : String := "VNode"
def constructorName : String := "constructor"
def selfName : String := "this"
def renderMethod : String := "render"
def getMethod : String := "get"
def setMethod : String := "set"

end Builtin

/-- A field with its type; the type is unknown until the initial value has been looked at. -/
structure FieldSymbol where
  name : String
  type : Option Ty
  owner : Nominal
  decl : Field

namespace FieldSymbol

def isStatic (f : FieldSymbol) : Bool := f.decl.modifiers.isStatic
def isPrivate (f : FieldSymbol) : Bool := f.decl.modifiers.isPrivate
def isReadonly (f : FieldSymbol) : Bool := f.decl.modifiers.isReadonly

end FieldSymbol

/-- A parameter with its type and the type of its default value. -/
structure ParamSymbol where
  name : String
  type : Ty
  defaultType : Option Ty
  decl : Param

/-- A method or constructor with its types. -/
structure MethodSymbol where
  name : String
  typeParams : List TypeVar
  params : List ParamSymbol
  result : Ty
  owner : Nominal
  decl : Method

namespace MethodSymbol

def isStatic (m : MethodSymbol) : Bool := m.decl.modifiers.isStatic
def isPrivate (m : MethodSymbol) : Bool := m.decl.modifiers.isPrivate
def isConstructor (m : MethodSymbol) : Bool := m.decl.isConstructor

/-- The least number of arguments. -/
def required (m : MethodSymbol) : Nat := Param.requiredCount m.decl.params

/-- The type of a method as a function. -/
def signature (m : MethodSymbol) : Ty := .function (m.params.map (·.type)) m.result

end MethodSymbol

/-- A class or interface with its type parameters, supertypes and members. -/
structure DeclSymbol where
  nominal : Nominal
  file : String
  decl : Declaration
  params : List TypeVar
  /-- The superclass with its arguments; interfaces have none. -/
  parent : Option (Nominal × List Ty)
  /-- The interfaces that are implemented or extended. -/
  interfaces : List (Nominal × List Ty)
  fields : List FieldSymbol
  methods : List MethodSymbol

namespace DeclSymbol

def name (d : DeclSymbol) : String := d.nominal.name

/-- The direct supertypes, in terms of the type parameters. -/
def supers (d : DeclSymbol) : List Ty :=
  (d.parent.toList ++ d.interfaces).map fun (n, args) => .ref n args

/-- The type parameters as arguments. -/
def selfArgs (d : DeclSymbol) : List Ty := d.params.map .var

/-- The declaration as a type. -/
def selfType (d : DeclSymbol) : Ty := .ref d.nominal d.selfArgs

def field? (d : DeclSymbol) (name : String) : Option FieldSymbol :=
  d.fields.find? fun f => f.name == name

def method? (d : DeclSymbol) (name : String) : Option MethodSymbol :=
  d.methods.find? fun m => m.name == name

/-- The names of the own members, fields first. -/
def memberNames (d : DeclSymbol) : List String :=
  d.fields.map (·.name) ++ d.methods.map (·.name)

end DeclSymbol

/-- Declarations in the order in which they were found. -/
abbrev Registry := List DeclSymbol

namespace Registry

def find? (r : Registry) (name : String) : Option DeclSymbol := List.find? (fun d => d.name == name) r

/-- The class of that name. -/
def class? (r : Registry) (name : String) : Option DeclSymbol :=
  match find? r name with
  | some d => if d.nominal.isInterface then none else some d
  | none => none

def names (r : Registry) : List String := r.map (·.name)

/-- What acceptance needs to know. -/
def table (r : Registry) : TypeTable := r.map fun d => ⟨d.nominal, d.params, d.supers⟩

/-- Changes the declaration of that name. -/
def update (r : Registry) (name : String) (f : DeclSymbol → DeclSymbol) : Registry :=
  r.map fun d => if d.name == name then f d else d

/-- A class and its superclasses, nearest first, stopping before one that was there already. -/
def ancestorsFrom (r : Registry) : Nat → List String → DeclSymbol → List DeclSymbol
  | 0, _, _ => []
  | fuel + 1, seen, d =>
    if seen.contains d.name then []
    else
      match d.parent.bind fun (n, _) => find? r n.name with
      | none => [d]
      | some p => d :: ancestorsFrom r fuel (d.name :: seen) p

/-- A class and its superclasses, nearest first. -/
def ancestors (r : Registry) (d : DeclSymbol) : List DeclSymbol :=
  ancestorsFrom r (List.length r + 1) [] d

/-- The nearest field of that name of a class. -/
def classField? (r : Registry) (d : DeclSymbol) (name : String) : Option FieldSymbol :=
  (ancestors r d).findSome? fun c => c.field? name

/-- The nearest method of that name of a class; constructors are not methods. -/
def classMethod? (r : Registry) (d : DeclSymbol) (name : String) : Option MethodSymbol :=
  (ancestors r d).findSome? fun c => (c.method? name).filter fun m => !m.isConstructor

/-- The nearest constructor of a class. -/
def constructor? (r : Registry) (d : DeclSymbol) : Option MethodSymbol :=
  (ancestors r d).findSome? fun c => c.method? Builtin.constructorName

/-- The names of the members that a class has or inherits. -/
def visibleNames (r : Registry) (d : DeclSymbol) : List String :=
  (ancestors r d).flatMap DeclSymbol.memberNames

/-- A method with what the type parameters of its owner stand for. -/
structure Inherited where
  method : MethodSymbol
  subst : Subst

/-- Progress of a walk over interfaces: those visited, and the methods found. -/
structure MethodWalk where
  visited : List String
  found : List Inherited

/-- Collects the methods of an interface and then of those it extends. The first method of a name
is kept, and an interface is visited once. -/
def walkMethods (r : Registry) : Nat → DeclSymbol → Subst → MethodWalk → MethodWalk
  | 0, _, _, w => w
  | fuel + 1, d, s, w =>
    if w.visited.contains d.name then w
    else
      let own := d.methods.foldl
        (fun found m =>
          if found.any fun i => i.method.name == m.name then found else found ++ [⟨m, s⟩])
        w.found
      d.interfaces.foldl
        (fun w (n, args) =>
          match find? r n.name with
          | some p =>
            if p.nominal.isInterface then
              walkMethods r fuel p (Subst.ofLists p.params (Ty.applyAll s args)) w
            else w
          | none => w)
        ⟨d.name :: w.visited, own⟩

/-- All methods of an interface with arguments, its own first. -/
def allMethods (r : Registry) (d : DeclSymbol) (args : List Ty) : List Inherited :=
  (walkMethods r (List.length r + 1) d (Subst.ofLists d.params args) ⟨[], []⟩).found

/-- The method of that name of an interface. -/
def interfaceMethod? (r : Registry) (d : DeclSymbol) (name : String) : Option MethodSymbol :=
  ((allMethods r d []).find? fun i => i.method.name == name).map (·.method)

/-- The field of that name of an interface or of those it extends, depth first. -/
def interfaceFieldFrom (r : Registry) (name : String) : Nat → DeclSymbol → Option FieldSymbol
  | 0, _ => none
  | fuel + 1, d =>
    match d.field? name with
    | some f => some f
    | none =>
      d.interfaces.findSome? fun (n, _) =>
        match find? r n.name with
        | some p => if p.nominal.isInterface then interfaceFieldFrom r name fuel p else none
        | none => none

/-- The field of that name of an interface. -/
def interfaceField? (r : Registry) (d : DeclSymbol) (name : String) : Option FieldSymbol :=
  interfaceFieldFrom r name (List.length r + 1) d

/-- Whether following supertypes from a declaration comes back to one on the way. A way longer than
the number of declarations has come back. -/
def returns (r : Registry) : Nat → List Nominal → Nominal → Bool
  | 0, _, _ => true
  | fuel + 1, path, n =>
    path.contains n ||
      match find? r n.name with
      | none => false
      | some d =>
        d.supers.any fun t =>
          match t with
          | .ref m _ => returns r fuel (n :: path) m
          | _ => false

/-- Whether a declaration inherits from a cycle. -/
def isCyclic (r : Registry) (d : DeclSymbol) : Bool := returns r (List.length r + 1) [] d.nominal

end Registry

end ClassScript
