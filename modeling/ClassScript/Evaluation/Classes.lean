import ClassScript.Evaluation.Machine

/-!
Classes at run time. A class is built on its first use: its superclass first, then its interfaces,
members and static fields. It is known under its name from the start, so that its static fields can
refer to it.
-/

namespace ClassScript.Evaluation

/-! ### Members -/

/-- A method and the class that declares it; default methods of interfaces have no class. -/
structure FoundMethod where
  decl : Method
  owner : Option Nat

namespace FoundMethod

def name (m : FoundMethod) : String := m.decl.name.text
def isStatic (m : FoundMethod) : Bool := m.decl.modifiers.isStatic
def hasBody (m : FoundMethod) : Bool := m.decl.body.isSome

end FoundMethod

namespace State

/-- The interface of that name. -/
def interface? (s : State) (name : String) : Option InterfaceDef :=
  s.interfaces.find? fun i => i.name == name

/-- Searches an interface and those it extends for a default method, depth first. Visited interfaces
are not searched again. -/
def searchDefault (s : State) (method : String) :
    Nat → List String → String → List String × Option Method
  | 0, seen, _ => (seen, none)
  | fuel + 1, seen, name =>
    if seen.contains name then (seen, none)
    else
      match s.interface? name with
      | none => (name :: seen, none)
      | some i =>
        match i.decl.methods.find? fun m => m.name.text == method && m.body.isSome with
        | some m => (name :: seen, some m)
        | none =>
          i.parents.foldl
            (fun (seen, found) parent =>
              match found with
              | some m => (seen, some m)
              | none => searchDefault s method fuel seen parent)
            (name :: seen, none)

/-- The default method of an interface. -/
def defaultMethod? (s : State) (interface method : String) : Option Method :=
  (s.searchDefault method (s.interfaces.length + 1) [] interface).2

/-- The method of that name of a class: the nearest along its superclasses, else a default method of
an interface. Constructors are not methods. -/
def method? (s : State) (cls : Nat) (name : String) : Option FoundMethod :=
  let chain := s.heap.chain cls
  let own := chain.findSome? fun c =>
    ((s.heap.cls c).method? name).bind fun m =>
      if m.isConstructor then none else some (⟨m, some c⟩ : FoundMethod)
  own <|>
    chain.findSome? fun c =>
      (s.heap.cls c).interfaces.findSome? fun i =>
        (s.defaultMethod? i name).map fun m => ⟨m, none⟩

/-- The nearest constructor of a class. -/
def constructor? (s : State) (cls : Nat) : Option FoundMethod :=
  (s.heap.chain cls).findSome? fun c =>
    ((s.heap.cls c).method? Builtin.constructorName).map fun m => ⟨m, some c⟩

/-- The nearest class that the host implements. -/
def hostAncestor? (s : State) (cls : Nat) : Option HostClass :=
  (s.heap.lineage cls).findSome? (·.host)

/-- The nearest class that has a static field of that name, and its value. -/
def static? (s : State) (cls : Nat) (name : String) : Option (Nat × Value) :=
  (s.heap.chain cls).findSome? fun c => ((s.heap.cls c).static? name).map fun v => (c, v)

/-- The nearest instance field of that name. -/
def instanceField? (s : State) (cls : Nat) (name : String) : Option Field :=
  (s.heap.lineage cls).findSome? fun c => c.instanceFields.find? fun f => f.name.text == name

end State

/-- The method of that name of a class. -/
def method? (cls : Nat) (name : String) : Run (Option FoundMethod) := return (← get).method? cls name

/-! ### Building -/

/-- The name that a type starts with. -/
def headName (t : TypeExpr) : String := t.name?.getD ""

/-- Builds an interface and those it extends. It stays known if one of them is missing. -/
def buildInterface : Nat → String → Span → Run Unit
  | 0, _, _ => throw .endless
  | fuel + 1, name, span => do
    if ((← get).interface? name).isSome then return
    match (← read).interface? name with
    | none => fail span (.unknownInterface name)
    | some decl =>
      modify fun s => { s with interfaces := ⟨name, decl, []⟩ :: s.interfaces }
      let parents :=
        match decl.heading with
        | .ofInterface parents => parents
        | .ofClass .. => []
      parents.forM fun p => do
        buildInterface fuel (headName p) p.span
        modify fun s =>
          { s with interfaces := s.interfaces.map fun i =>
              if i.name == name then { i with parents := i.parents ++ [headName p] } else i }

/-- Evaluates the initial value of a field in the context of its class. -/
def evalField (k : Evaluator) (cls : Nat) (self : Option Value) (e : Expr) : Run Value := do
  let file := ((← heap).cls cls).file
  noteInitial
  inContext ⟨some cls, self⟩ (some file) do
    let scope ← openScope Environment.global
    k.eval e scope

/-- Adds the superclass and the interfaces of a class. -/
def addSupers (k : Evaluator) (cls : Nat) (parent : Option TypeExpr) (interfaces : List TypeExpr) :
    Run Unit := do
  match parent with
  | some t =>
    if headName t != "" then
      let p ← k.classOf (headName t) t.span
      modifyClass cls fun c => { c with parent := some p }
  | none => pure ()
  interfaces.forM fun t => do
    buildInterface ((← read).program.statements.length + 1) (headName t) t.span
    modifyClass cls fun c => { c with interfaces := c.interfaces ++ [headName t] }

/-- Adds the members of a class, and its host class if it is backed by the host. -/
def addMembers (cls : Nat) (decl : Declaration) : Run Unit := do
  modifyClass cls fun c => { c with hasMembers := true }
  if decl.isNative then
    match HostClass.ofName? decl.name.text with
    | some h => modifyClass cls fun c => { c with host := some h }
    | none => fail decl.span (.noHostClass decl.name.text)

/-- Gives the static fields of a class their initial values, in order. -/
def initStatics (k : Evaluator) (cls : Nat) : List Field → Run Unit
  | [] => pure ()
  | f :: fs => do
    if f.modifiers.isStatic then
      let v ←
        match f.init with
        | some e => evalField k cls none e
        | none => pure .null
      modifyClass cls fun c => c.setStatic f.name.text v
    initStatics k cls fs

/-- Forgets a class that could not be built. -/
def forgetClass (name : String) : Run Unit :=
  modify fun s => { s with classes := s.classes.filter fun c => c.1 != name }

/-- Runs a part of the building of a class; if it fails, the class is forgotten. -/
def orForget {α : Type} (name : String) (x : Run α) : Run α := do
  match ← attempt x with
  | .ok a => return a
  | .error d =>
    forgetClass name
    throw (.failed d)

/-- The class of that name, built if this is its first use. A class whose supertypes or host are
missing is forgotten; one whose static fields fail is not. -/
def classOf (k : Evaluator) (name : String) (span : Span) : Run Nat := do
  match (← get).classes.lookup name with
  | some id => return id
  | none =>
    match (← read).class? name with
    | none => fail span (.unknownClass name)
    | some (file, decl) =>
      let cls ← modifyGet fun s =>
        let id := s.heap.classes.size
        let def_ : ClassDef := ⟨name, file, decl, none, [], false, none, []⟩
        (id, { s with
          classes := (name, id) :: s.classes,
          heap := { s.heap with classes := s.heap.classes.push def_ } })
      let (parent, interfaces) :=
        match decl.heading with
        | .ofClass _ parent interfaces => (parent, interfaces)
        | .ofInterface _ => (none, [])
      orForget name do
        addSupers k cls parent interfaces
        addMembers cls decl
      initStatics k cls decl.fields
      return cls

end ClassScript.Evaluation
