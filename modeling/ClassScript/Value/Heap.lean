import ClassScript.Markup.Node
import ClassScript.Standard.Classes
import ClassScript.Syntax.Tree
import ClassScript.Value.Storage

/-!
The heap: objects, classes, closures, arrays and markup of a running program, each known by its
number.
-/

namespace ClassScript

/-- The method context of running code: the class whose code it is, and the instance. -/
structure CallFrame where
  owner : Option Nat
  self : Option Value
  deriving Inhabited

/-- A lambda with the frame and the method context it was made in. -/
structure Closure where
  params : List Param
  result : Option TypeExpr
  body : LambdaBody
  frame : Nat
  context : Option CallFrame

instance : Inhabited Closure := ⟨⟨[], none, .block default, 0, none⟩⟩

/-- An instance of a class, with the host thing behind it if its class has one. -/
structure Object where
  cls : Nat
  fields : List (String × Value)
  host : Option Host
  deriving Inhabited

namespace Object

/-- The value of a field. -/
def field? (o : Object) (name : String) : Option Value := o.fields.lookup name

/-- Gives a field a value. -/
def setField (o : Object) (name : String) (v : Value) : Object :=
  { o with fields := (name, v) :: o.fields.filter fun p => p.1 != name }

end Object

/-- A class as far as it has been built. Its members come last, and static fields after them. -/
structure ClassDef where
  name : String
  file : String
  decl : Declaration
  parent : Option Nat
  interfaces : List String
  hasMembers : Bool
  host : Option HostClass
  statics : List (String × Value)
  deriving Inhabited

namespace ClassDef

/-- The fields of a class itself. -/
def fields (c : ClassDef) : List Field := if c.hasMembers then c.decl.fields else []

/-- The fields that each instance has. -/
def instanceFields (c : ClassDef) : List Field := c.fields.filter fun f => !f.modifiers.isStatic

/-- The method of that name of a class itself, constructors included. -/
def method? (c : ClassDef) (name : String) : Option Method :=
  if c.hasMembers then c.decl.methods.find? fun m => m.name.text == name else none

/-- The value of a static field of a class itself. -/
def static? (c : ClassDef) (name : String) : Option Value := c.statics.lookup name

/-- Gives a static field a value. -/
def setStatic (c : ClassDef) (name : String) (v : Value) : ClassDef :=
  { c with statics := (name, v) :: c.statics.filter fun p => p.1 != name }

end ClassDef

/-- A method read as a value. -/
structure BoundMethod where
  receiver : Value
  name : String
  deriving Inhabited

/-- Everything that values refer to. -/
structure Heap where
  objects : Array Object
  classes : Array ClassDef
  closures : Array Closure
  methods : Array BoundMethod
  arrays : Arrays
  cursors : Array ArrayCursor
  nodes : Array Markup.Node
  /-- The number of the next class value. -/
  identities : Nat
  /-- Where in memory each array lies. No program decides that, but one can show it. -/
  addresses : Nat → Nat
  deriving Inhabited

namespace Heap

/-- A heap with nothing in it, whose arrays will lie at the addresses. -/
def laidOut (addresses : Nat → Nat) : Heap := ⟨#[], #[], #[], #[], Arrays.empty, #[], #[], 0, addresses⟩

/-- A heap with nothing in it. -/
def empty : Heap := laidOut fun _ => 0

def object (h : Heap) (id : Nat) : Object := h.objects[id]?.getD default
def cls (h : Heap) (id : Nat) : ClassDef := h.classes[id]?.getD default
def closure (h : Heap) (id : Nat) : Closure := h.closures[id]?.getD default
def method (h : Heap) (id : Nat) : BoundMethod := h.methods[id]?.getD default
def cursor (h : Heap) (id : Nat) : ArrayCursor := h.cursors[id]?.getD default
def node (h : Heap) (id : Nat) : Markup.Node := h.nodes[id]?.getD default

/-- The markup node that a value is or holds. -/
def nodeOf? (h : Heap) : Value → Option Markup.Node
  | .host (.node id) => some (h.node id)
  | .object id =>
    match (h.object id).host with
    | some (.node n) => some (h.node n)
    | _ => none
  | _ => none

/-- A class and its superclasses, nearest first, at most `fuel` of them. -/
def chainFrom (h : Heap) : Nat → Nat → List Nat
  | 0, _ => []
  | fuel + 1, id =>
    id ::
      match (h.cls id).parent with
      | none => []
      | some p => chainFrom h fuel p

/-- A class and its superclasses, nearest first. -/
def chain (h : Heap) (id : Nat) : List Nat := h.chainFrom h.classes.size id

/-- The definitions of a class and of its superclasses, nearest first. -/
def lineage (h : Heap) (id : Nat) : List ClassDef := (h.chain id).map h.cls

/-- The name of the type of a value, as messages give it. -/
def typeName (h : Heap) : Value → String
  | .null => "null"
  | .void => "void"
  | .number _ => "number"
  | .string _ => "string"
  | .boolean _ => "boolean"
  | .object id => (h.cls (h.object id).cls).name
  | .classRef c _ => "class " ++ (h.cls c).name
  | .lambda _ | .method _ => "function"
  | .host (.array _) => "*natives.Array"
  | .host (.iterator _) => "*natives.ArrayIterator"
  | .host (.node _) => "*natives.VNode"

/-- Whether two values are equal: primitive values by content, all others by identity. Instances of
one host thing are equal. A class used as a value differs from every other use. -/
@[grind =]
def equal (h : Heap) : Value → Value → Bool
  | .null, .null => true
  | .void, .void => true
  | .number x, .number y => x == y
  | .string s, .string t => s == t
  | .boolean a, .boolean b => a == b
  | .object a, .object b =>
    a == b ||
      match (h.object a).host, (h.object b).host with
      | some x, some y => x == y
      | _, _ => false
  | .classRef _ a, .classRef _ b => a == b
  | .lambda a, .lambda b => a == b
  | .method a, .method b => a == b
  | .host a, .host b => a == b
  | _, _ => false

end Heap

end ClassScript
