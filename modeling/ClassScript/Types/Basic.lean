/-!
Types of the language. A type variable stands for any type and is told apart by its number, not by
its name. Nullable types are built by `Ty.orNull`, which never nests them.
-/

namespace ClassScript

/-- A type variable. -/
structure TypeVar where
  name : String
  id : Nat
  deriving DecidableEq, Inhabited, Repr

/-- A declared class or interface, as types refer to it. -/
structure Nominal where
  name : String
  isInterface : Bool
  deriving DecidableEq, Inhabited, Repr

/-- Types. -/
inductive Ty where
  | number | string | boolean | mixed | void | null
  | nullable (inner : Ty)
  | var (v : TypeVar)
  | function (params : List Ty) (result : Ty)
  | ref (decl : Nominal) (args : List Ty)
  | static (decl : Nominal)
  deriving Inhabited

namespace Ty

/-- The type with null added, if it does not hold null already. -/
def orNull : Ty → Ty
  | nullable t => nullable t
  | mixed => mixed
  | null => null
  | t => nullable t

/-- Whether a type is a variable. -/
def isVar : Ty → Bool
  | var _ => true
  | _ => false

/-- Whether a type is the type of no value. -/
def isVoid : Ty → Bool
  | void => true
  | _ => false

/-- Whether a type is the type of null alone. -/
def isNull : Ty → Bool
  | null => true
  | _ => false

/-- The type without null, and whether that changed it. -/
def unwrap : Ty → Ty × Bool
  | nullable t => (t, true)
  | t => (t, false)

/-- The type without null. -/
def base (t : Ty) : Ty := t.unwrap.1

/-- The declaration and arguments of a type that refers to one. -/
def parts? : Ty → Option (Nominal × List Ty)
  | ref d args => some (d, args)
  | _ => none

mutual

/-- A type as messages show it. -/
def text : Ty → String
  | number => "number"
  | string => "string"
  | boolean => "boolean"
  | mixed => "mixed"
  | void => "void"
  | null => "null"
  | nullable t => t.text ++ "?"
  | var v => v.name
  | function params result => "(" ++ ", ".intercalate (texts params) ++ ") -> " ++ result.text
  | ref d [] => d.name
  | ref d args => d.name ++ "<" ++ ", ".intercalate (texts args) ++ ">"
  | static d => "class " ++ d.name

/-- Types as messages show them. -/
def texts : List Ty → List String
  | [] => []
  | t :: ts => t.text :: texts ts

end

end Ty

/-- What type variables stand for. -/
abbrev Subst := List (TypeVar × Ty)

namespace Subst

/-- Lets a variable stand for a type, whatever it stood for before. -/
def bind (s : Subst) (v : TypeVar) (t : Ty) : Subst := (v, t) :: s.filter fun p => p.1 != v

/-- Lets parameters stand for arguments; if their numbers differ, nothing is bound. -/
def ofLists (params : List TypeVar) (args : List Ty) : Subst :=
  if params.length == args.length then
    (params.zip args).foldl (fun s p => s.bind p.1 p.2) []
  else []

/-- The type that a variable stands for. -/
def find? (s : Subst) (v : TypeVar) : Option Ty := s.lookup v

end Subst

namespace Ty

mutual

/-- The type with its variables replaced. -/
def apply (s : Subst) : Ty → Ty
  | nullable t => (t.apply s).orNull
  | var v => (s.find? v).getD (var v)
  | function params result => function (applyAll s params) (result.apply s)
  | ref d args => ref d (applyAll s args)
  | number => number
  | string => string
  | boolean => boolean
  | mixed => mixed
  | void => void
  | null => null
  | static d => static d

/-- Types with their variables replaced. -/
def applyAll (s : Subst) : List Ty → List Ty
  | [] => []
  | t :: ts => t.apply s :: applyAll s ts

end

mutual

/-- The type with every variable widened to any value. -/
def erase : Ty → Ty
  | nullable t => t.erase.orNull
  | var _ => mixed
  | function params result => function (eraseAll params) result.erase
  | ref d args => ref d (eraseAll args)
  | number => number
  | string => string
  | boolean => boolean
  | mixed => mixed
  | void => void
  | null => null
  | static d => static d

/-- Types with every variable widened. -/
def eraseAll : List Ty → List Ty
  | [] => []
  | t :: ts => t.erase :: eraseAll ts

end

mutual

/-- Whether a variable occurs in a type. -/
def hasVar : Ty → Bool
  | nullable t => t.hasVar
  | var _ => true
  | function params result => anyVar params || result.hasVar
  | ref _ args => anyVar args
  | _ => false

/-- Whether a variable occurs in one of the types. -/
def anyVar : List Ty → Bool
  | [] => false
  | t :: ts => t.hasVar || anyVar ts

end

end Ty

end ClassScript
