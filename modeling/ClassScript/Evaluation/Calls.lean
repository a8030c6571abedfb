import ClassScript.Evaluation.Classes
import ClassScript.Standard.System

/-!
Calls: of methods, lambdas and constructors, of methods that the host implements, and of those of a
superclass.
-/

namespace ClassScript.Evaluation

/-! ### Arguments -/

/-- Converts a value to the primitive type that is written for its slot, if its text or shape says
how; any other value stays as it is. -/
def coerce (type : Option TypeExpr) (v : Value) : Value :=
  match type.bind TypeExpr.name?, v with
  | some "number", .string s => ((Number.read s.shown).map .number).getD v
  | some "string", .number x => .string (Number.text x)
  | some "string", .boolean b => .string (if b then "true" else "false")
  | some "boolean", .string s => ((Number.readTruth s.shown).map .boolean).getD v
  | _, v => v

/-- Fails unless parameters take that many arguments. -/
def checkCount (name : String) (params : List Param) (count : Nat) (span : Span) : Run Unit := do
  let required := Param.requiredCount params
  let total := params.length
  if required ≤ count && count ≤ total then pure ()
  else if required == total then fail span (.argumentCount name total count)
  else fail span (.argumentRange name required total count)

/-- Binds arguments to parameters; missing ones take their default values, which see the parameters
before them. -/
def bindParams (k : Evaluator) (scope : ScopeId) : List Param → List Value → Run Unit
  | [], _ => pure ()
  | p :: ps, args => do
    let v ←
      match args, p.fallback with
      | a :: _, _ => pure a
      | [], some e => k.eval e scope
      | [], none => fail Span.none .missingDefault
    define scope p.name.text (coerce p.type v)
    bindParams k scope ps args.tail

/-- The arguments of a method that the host implements, completed by default values. -/
def withDefaults (k : Evaluator) (m : FoundMethod) (args : List Value) (span : Span) :
    Run (List Value) := do
  let params := m.decl.params
  checkCount m.name params args.length span
  if args.length == params.length then return args
  else
    noteTurn
    releasing do
      let scope ← openScope Environment.global
      bindParams k scope params args
      params.mapM fun p => return (← binding? scope p.name.text).getD .null

/-! ### Script code -/

/-- Executes statements in order, up to one that returns. -/
def execAll (k : Evaluator) (scope : ScopeId) : List Stmt → Run Outcome
  | [] => return .normal
  | s :: ss => do
    match ← k.exec s scope with
    | .returned v => return .returned v
    | .normal => execAll k scope ss

/-- Executes a block in a scope of its own. -/
def execBlock (k : Evaluator) (b : Block) (outer : ScopeId) : Run Outcome :=
  releasing do
    let scope ← openScope outer
    execAll k scope b.statements

/-- Fails if too many calls are running. -/
def checkDepth (span : Span) : Run Unit := do
  if (← get).calls.length ≥ maxCallDepth then fail span (.callDepth maxCallDepth)

/-- Calls a method that has a body. Default methods of interfaces count as methods of the class they
were found from. -/
def invoke (k : Evaluator) (m : FoundMethod) (from_ : Option Nat) (self : Option Value)
    (args : List Value) (span : Span) : Run Value := do
  checkCount m.name m.decl.params args.length span
  checkDepth span
  let owner := m.owner <|> from_
  let h ← heap
  inContext ⟨owner, self⟩ (owner.map fun c => (h.cls c).file) do
    let scope ← openScope Environment.global
    bindParams k scope m.decl.params args
    match m.decl.body with
    | none => return .void
    | some body =>
      match ← execBlock k body scope with
      | .normal => return .void
      | .returned v => return if m.decl.isConstructor then .void else coerce m.decl.result v

/-- Calls a lambda in the method context it was made in. -/
def callLambda (k : Evaluator) (c : Closure) (args : List Value) (span : Span) : Run Value := do
  checkCount "lambda" c.params args.length span
  checkDepth span
  inContext (c.context.getD ⟨none, none⟩) none do
    let scope ← openFrame c.frame
    bindParams k scope c.params args
    match c.body with
    | .value e => return coerce c.result (← k.eval e scope)
    | .block b =>
      match ← execBlock k b scope with
      | .normal => return .void
      | .returned v => return coerce c.result v

/-! ### The host -/

/-- The class of instances that stand for a host thing. -/
def hostClass : Host → HostClass
  | .array _ => .array
  | .iterator _ => .arrayIterator
  | .node _ => .node

/-- A result of the host as a value: a host thing becomes an instance of its class. -/
def toValue (k : Evaluator) (v : Value) (span : Span) : Run Value := do
  match v with
  | .host h => return .object (← newObject (← k.classOf (hostClass h).name span) (some h))
  | v => return v

/-- Hands arguments over to a host method. -/
def passAll (name : String) (span : Span) (position : Nat) :
    List ParamKind → List Value → Run (List HostArg)
  | p :: ps, v :: vs => do
    match p.pass (← heap) v with
    | .error cause => fail span (.hostArgument name position cause)
    | .ok a => return a :: (← passAll name span (position + 1) ps vs)
  | _, _ => return []

/-- Calls a host method. -/
def callHost (k : Evaluator) (m : HostMethod) (name : String) (args : List Value) (span : Span) :
    Run Value := do
  if m.params.length != args.length then fail span (.hostCount name m.params.length args.length)
  let passed ← passAll name span 1 m.params args
  noteTurn
  match ← m.call k span passed with
  | .ok v => toValue k v span
  | .error (.badResult type) => fail span (.hostValue type)
  | .error fault => fail span (.hostFailed name fault.message)

/-- Calls a host method that may be declared, with default values if it is. -/
def callDeclared (k : Evaluator) (m : HostMethod) (declared : Option FoundMethod) (name : String)
    (args : List Value) (span : Span) : Run Value := do
  let args ←
    match declared with
    | some d => withDefaults k d args span
    | none => pure args
  callHost k m name args span

/-! ### Methods -/

/-- The class that declares the methods of a primitive value. -/
def boxedName? : Value → Option String
  | .number _ => some Builtin.numberClass
  | .string _ => some Builtin.stringClass
  | .boolean _ => some Builtin.booleanClass
  | _ => none

/-- Calls a method of an object. Script methods with a body come first, then those of the host. -/
def callObject (k : Evaluator) (id : Nat) (name : String) (args : List Value) (span : Span) :
    Run Value := do
  let o := (← heap).object id
  let cls := ((← heap).cls o.cls).name
  let declared := (← method? o.cls name).filter fun m => !m.isStatic
  match declared.filter FoundMethod.hasBody with
  | some m => invoke k m (some o.cls) (some (.object id)) args span
  | none =>
    match o.host.bind fun h => Standard.method? h name with
    | some m => callDeclared k m declared (cls ++ "." ++ name) args span
    | none =>
      if declared.isSome then fail span (.notImplemented cls name)
      else fail span (.noMethod cls name)

/-- Calls a static method of a class. -/
def callStatic (k : Evaluator) (id : Nat) (name : String) (args : List Value) (span : Span) :
    Run Value := do
  let cls := ((← heap).cls id).name
  match (← method? id name).filter FoundMethod.isStatic with
  | none => fail span (.noStaticMethod cls name)
  | some m =>
    if m.hasBody then invoke k m m.owner none args span
    else
      let host := ((← heap).lineage id).findSome? fun c =>
        c.host.bind fun h => Standard.classMethod? h name
      match host with
      | some hm => callDeclared k hm (some m) (cls ++ "." ++ name) args span
      | none => fail span (.notImplemented cls name)

/-- Calls a method of a primitive value through the class `boxed`. -/
def callBoxed (k : Evaluator) (boxed : String) (v : Value) (name : String) (args : List Value)
    (span : Span) : Run Value := do
  let id ← k.classOf boxed span
  let declared ← method? id name
  match declared.filter fun m => m.hasBody && !m.isStatic with
  | some m => invoke k m (some id) (some v) args span
  | none =>
    match ((← heap).cls id).host with
    | none => fail span (.noMethod (← typeName v) name)
    | some h =>
      match Standard.boxedMethod? h v name with
      | some hm => callDeclared k hm declared (boxed ++ "." ++ name) args span
      | none =>
        if declared.isSome then fail span (.notImplemented boxed name)
        else fail span (.noMethod (← typeName v) name)

/-- Calls a method of a value. -/
def callMethod (k : Evaluator) (receiver : Value) (name : String) (args : List Value) (span : Span) :
    Run Value := do
  match receiver with
  | .null => fail span (.callOnNull name)
  | .object id => callObject k id name args span
  | .classRef c _ => callStatic k c name args span
  | v =>
    match boxedName? v with
    | some boxed => callBoxed k boxed v name args span
    | none => fail span (.noMethod (← typeName v) name)

/-- Whether a value has a method. A class that cannot be built has none. -/
def hasMethod (k : Evaluator) (v : Value) (name : String) : Run Bool := do
  match v with
  | .object id =>
    let o := (← heap).object id
    if (← method? o.cls name).any fun m => !m.isStatic then return true
    else return (o.host.bind fun h => Standard.method? h name).isSome
  | .classRef c _ => return (← method? c name).any FoundMethod.isStatic
  | v =>
    match boxedName? v with
    | none => return false
    | some boxed =>
      match ← attempt (k.classOf boxed Span.none) with
      | .error _ => return false
      | .ok id =>
        if (← method? id name).isSome then return true
        else
          let host := ((← heap).cls id).host
          return (host.bind fun h => Standard.boxedMethod? h v name).isSome

/-- Calls a value: a lambda, or a method read as a value. -/
def callValue (k : Evaluator) (f : Value) (args : List Value) (span : Span) : Run Value := do
  match f with
  | .lambda id => callLambda k ((← heap).closure id) args span
  | .method id =>
    let m := (← heap).method id
    callMethod k m.receiver m.name args span
  | .null => fail span .callNull
  | f => fail span (.notCallable (← typeName f))

/-! ### Superclasses and construction -/

/-- The superclass of the class whose code is running, and the instance. -/
def State.parentContext? (s : State) : Option (Nat × Value) := do
  let frame ← s.calls.head?
  let owner ← frame.owner
  let parent ← (s.heap.cls owner).parent
  let self ← frame.self
  return (parent, self)

/-- Calls the constructor of the superclass on the instance that is being built. -/
def callParentConstructor (k : Evaluator) (args : List Value) (span : Span) : Run Value := do
  match (← get).parentContext? with
  | none => fail span .noParentConstructor
  | some (parent, self) =>
    match (← get).constructor? parent with
    | none =>
      if args.isEmpty then return .void
      else fail span (.noConstructor ((← heap).cls parent).name args.length)
    | some ctor =>
      if ctor.hasBody then
        let _ ← invoke k ctor ctor.owner (some self) args span
        return .void
      else return .void

/-- Calls a method of the superclass on the current instance. -/
def callParentMethod (k : Evaluator) (property : Name) (args : List Value) (span : Span) :
    Run Value := do
  match (← get).parentContext? with
  | none => fail span .noParentMethod
  | some (parent, self) =>
    let name := property.text
    let cls := ((← heap).cls parent).name
    let declared ← method? parent name
    match declared.filter fun m => m.hasBody && !m.isStatic with
    | some m => invoke k m (some parent) (some self) args span
    | none =>
      let h ← heap
      let host :=
        match self with
        | .object id => (h.object id).host
        | _ => none
      match host.bind fun x => Standard.method? x name with
      | some hm => callDeclared k hm declared (cls ++ "." ++ name) args span
      | none => fail property.span (.noMethod cls name)

/-- The host thing behind a new instance of a class, if a class in its line has one. -/
def createHost (k : Evaluator) (cls : Nat) (ctor : Option FoundMethod) (args : List Value)
    (span : Span) : Run (Option Host) := do
  match (← get).hostAncestor? cls with
  | none => return none
  | some h =>
    if !h.isCreatable then fail span (.notCreatable h.name)
    else
      let passed ←
        match ctor with
        | some c => if c.hasBody then pure [] else withDefaults k c args span
        | none => pure []
      if passed.isEmpty then return some (← newArray (.fitting []))
      else
        fail span
          (.hostFailed ("new " ++ h.name) (HostFault.constructorCount passed.length).message)

/-- Gives the fields of one class their initial values in an object. -/
def initFields (k : Evaluator) (cls object : Nat) : List Field → Run Unit
  | [] => pure ()
  | f :: fs => do
    let v ←
      match f.init with
      | some e => evalField k cls (some (.object object)) e
      | none => pure .null
    setField object f.name.text (coerce f.type v)
    initFields k cls object fs

/-- A new instance: the host thing first, then the fields from the farthest superclass on, then the
nearest constructor. -/
def instantiate (k : Evaluator) (cls : Nat) (args : List Value) (span : Span) : Run Nat := do
  let ctor := (← get).constructor? cls
  let host ← createHost k cls ctor args span
  let id ← newObject cls host
  ((← heap).chain cls).reverse.forM fun c => do
    initFields k c id ((← heap).cls c).instanceFields
  match ctor with
  | some c =>
    if c.hasBody then
      let _ ← invoke k c c.owner (some (.object id)) args span
  | none =>
    if !args.isEmpty then fail span (.noConstructor ((← heap).cls cls).name args.length)
  return id

end ClassScript.Evaluation
