/-!
The classes that the host implements, and the table in which declarations look them up.
-/

namespace ClassScript

/-- A class that the host implements. -/
inductive HostClass where
  | string | number | boolean | array | arrayIterator | system | assert | node
  deriving DecidableEq, Inhabited, Repr

namespace HostClass

/-- The name under which a class is declared. -/
def name : HostClass → String
  | string => "String"
  | number => "Number"
  | boolean => "Boolean"
  | array => "Array"
  | arrayIterator => "ArrayIterator"
  | system => "System"
  | assert => "Assert"
  | node => "VNode"

/-- All classes of the host. -/
def all : List HostClass := [string, number, boolean, array, arrayIterator, system, assert, node]

/-- The class of that name. -/
def ofName? (name : String) : Option HostClass := all.find? fun c => c.name == name

/-- Whether programs can create instances of a class. -/
def isCreatable : HostClass → Bool
  | array => true
  | _ => false

end HostClass

/-- The names for which the host has a class. -/
structure HostTable where
  taken : List String

namespace HostTable

/-- The table with the standard classes. -/
def standard : HostTable := ⟨HostClass.all.map HostClass.name⟩

/-- Whether there is a class of that name. -/
def has (t : HostTable) (name : String) : Bool := t.taken.contains name

/-- Why a class cannot be added. -/
inductive Fault where
  | taken (name : String)

/-- The wording of a fault. -/
def Fault.message : Fault → String
  | .taken name => s!"native class {name} already registered"

/-- Adds a class; a name can be taken once. -/
def register (t : HostTable) (name : String) : Except Fault HostTable :=
  if t.has name then .error (.taken name) else .ok ⟨name :: t.taken⟩

/-- The names, in order. -/
def names (t : HostTable) : List String := t.taken.mergeSort (· ≤ ·)

end HostTable

end ClassScript
