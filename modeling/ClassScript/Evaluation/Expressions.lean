import ClassScript.Evaluation.Markup

/-!
Evaluation of expressions, one step at a time: parts are evaluated from left to right by the
evaluator that is handed in.
-/

namespace ClassScript.Evaluation

/-- The value of a name: a variable, or a class. -/
def evalName (k : Evaluator) (id : Name) (scope : ScopeId) : Run Value := do
  match ← binding? scope id.text with
  | some v => return v
  | none =>
    if ((← read).class? id.text).isSome then newClassRef (← k.classOf id.text id.span)
    else fail id.span (.undefinedName id.text)

/-- Evaluates expressions in order. -/
def evalAll (k : Evaluator) (scope : ScopeId) : List Expr → Run (List Value)
  | [] => return []
  | e :: es => do
    let v ← k.eval e scope
    return v :: (← evalAll k scope es)

/-- Applies a unary operator. -/
def applyUnary (op : UnaryOp) (v : Value) (span : Span) : Run Value := do
  match op, v with
  | .negate, .number x => return .number (-x)
  | .not, .boolean b => return .boolean !b
  | _, v => fail span (.badUnary op.spelling (← typeName v))

/-- The result of an operator on numbers, or nothing for a division by zero. -/
def numericResult? (op : BinaryOp) (x y : Float) : Option Value :=
  match op with
  | .add => some (.number (x + y))
  | .sub => some (.number (x - y))
  | .mul => some (.number (x * y))
  | .div => if y == 0 then none else some (.number (x / y))
  | .rem => if y == 0 then none else some (.number (Number.remainder x y))
  | .less => some (.boolean (x < y))
  | .greater => some (.boolean (x > y))
  | .lessEq => some (.boolean (x ≤ y))
  | .greaterEq => some (.boolean (x ≥ y))
  | .equal | .notEqual | .and | .or => none

/-- Whether an addition joins texts: one operand is a string. -/
def joinsText : Value → Value → Bool
  | .string _, _ | _, .string _ => true
  | _, _ => false

/-- Applies a binary operator to the values of both operands. -/
def applyBinary (op : BinaryOp) (left right : Value) (span : Span) : Run Value := do
  let numeric : Run Value := do
    match left, right with
    | .number x, .number y =>
      match numericResult? op x y with
      | some v => return v
      | none => fail span .divisionByZero
    | _, _ => fail span (.badBinary op.spelling (← typeName left) (← typeName right))
  match op with
  | .equal => return .boolean ((← heap).equal left right)
  | .notEqual => return .boolean (!(← heap).equal left right)
  | .add =>
    if joinsText left right then return .string ((← text left) ++ (← text right)) else numeric
  | _ => numeric

/-- The truth value of an operand of a logical operator. -/
def logicOperand (op : BinaryOp) (e : Expr) (v : Value) : Run Bool := do
  match v with
  | .boolean b => return b
  | v => fail e.span (.badLogic op.spelling (← typeName v))

/-- Evaluates a logical operation; `decisive` is the left value that settles it. -/
def evalLogic (k : Evaluator) (op : BinaryOp) (decisive : Bool) (left right : Expr)
    (scope : ScopeId) : Run Value := do
  let l ← logicOperand op left (← k.eval left scope)
  if l == decisive then return .boolean l
  else return .boolean (← logicOperand op right (← k.eval right scope))

/-- Evaluates the object of a member access; the word for the superclass means the instance. -/
def evalReceiver (k : Evaluator) (object : Expr) (scope : ScopeId) : Run Value := do
  match object with
  | .parent m =>
    match (← current).bind (·.self) with
    | some self => return self
    | none => fail m.span .noParentReceiver
  | object => k.eval object scope

/-- Gives a member of a value another value. -/
def setMember (object : Value) (property : Name) (v : Value) : Run Unit := do
  let name := property.text
  match object with
  | .null => fail property.span (.setOnNull name)
  | .object id =>
    let field := (← get).instanceField? ((← heap).object id).cls name
    setField id name (coerce (field.bind (·.type)) v)
  | .classRef c _ =>
    match (← get).static? c name with
    | some (owner, _) => modifyClass owner fun d => d.setStatic name v
    | none => fail property.span (.noStaticField ((← heap).cls c).name name)
  | object => fail property.span (.cannotSet name (← typeName object))

/-- The field of that name of a value, if it has one. -/
def field? (object : Value) (name : String) : Run (Option Value) := do
  match object with
  | .object id =>
    let o := (← heap).object id
    match o.field? name with
    | some v => return some v
    | none => return ((← get).instanceField? o.cls name).map fun _ => .null
  | .classRef c _ => return ((← get).static? c name).map (·.2)
  | _ => return none

/-- Reads a member of a value: a field, or a method as a value. -/
def getMember (k : Evaluator) (object : Value) (property : Name) : Run Value := do
  let name := property.text
  if object.isNull then fail property.span (.readOfNull name)
  else
    match ← field? object name with
    | some v => return v
    | none =>
      if ← hasMethod k object name then newMethod object name
      else fail property.span (.noMember (← typeName object) name)

/-- The value that a call through a member finds in a field. -/
def calledField? (object : Value) (name : String) : Run (Option Value) := do
  match object with
  | .object id => return ((← heap).object id).field? name
  | .classRef c _ => return ((← get).static? c name).map (·.2)
  | _ => return none

/-- Evaluates a call. -/
def evalCall (k : Evaluator) (callee : Expr) (args : List Expr) (span : Span) (scope : ScopeId) :
    Run Value := do
  match callee with
  | .parent _ => callParentConstructor k (← evalAll k scope args) span
  | .member _ (.parent _) property =>
    callParentMethod k property (← evalAll k scope args) span
  | .member _ object property =>
    let o ← k.eval object scope
    let vs ← evalAll k scope args
    match ← calledField? o property.text with
    | some f => callValue k f vs span
    | none => callMethod k o property.text vs property.span
  | callee =>
    let f ← k.eval callee scope
    callValue k f (← evalAll k scope args) span

/-- Evaluates an assignment. -/
def evalAssign (k : Evaluator) (target value : Expr) (span : Span) (scope : ScopeId) :
    Run Value := do
  match target with
  | .name id =>
    let v ← k.eval value scope
    if ← assign scope id.text v then return v else fail id.span (.undefinedName id.text)
  | .member _ object property =>
    let o ← evalReceiver k object scope
    let v ← k.eval value scope
    setMember o property v
    return v
  | .index _ object position =>
    let o ← k.eval object scope
    let i ← k.eval position scope
    let v ← k.eval value scope
    let _ ← callMethod k o Builtin.setMethod [i, v] span
    return v
  | target => fail target.span .badTarget

/-- Evaluates an array literal. -/
def evalArray (k : Evaluator) (elements : List Expr) (span : Span) (scope : ScopeId) : Run Value := do
  let items ← evalAll k scope elements
  let cls ← k.classOf Builtin.arrayClass span
  return .object (← newObject cls (some (← newArray (.fitting items))))

/-- Evaluates an expression. -/
def eval (k : Evaluator) (e : Expr) (scope : ScopeId) : Run Value := do
  match e with
  | .name id => evalName k id scope
  | .number _ digits => return .number (Number.ofDigits digits)
  | .string q => return .string q.value.bytes
  | .boolean _ b => return .boolean b
  | .null _ => return .null
  | .self m =>
    match (← current).bind (·.self) with
    | some self => return self
    | none => fail m.span .noSelf
  | .parent m => fail m.span .bareParent
  | .unary m op operand => applyUnary op (← k.eval operand scope) m.span
  | .binary m op left right =>
    match op with
    | .and => evalLogic k op false left right scope
    | .or => evalLogic k op true left right scope
    | op =>
      let l ← k.eval left scope
      let r ← k.eval right scope
      applyBinary op l r m.span
  | .assign m target value => evalAssign k target value m.span scope
  | .member _ object property => getMember k (← evalReceiver k object scope) property
  | .index m object position =>
    let o ← k.eval object scope
    let i ← k.eval position scope
    callMethod k o Builtin.getMethod [i] m.span
  | .call m callee args => evalCall k callee args m.span scope
  | .create m type args =>
    let cls ← k.classOf (headName type) type.span
    let vs ← evalAll k scope args
    return .object (← instantiate k cls vs m.span)
  | .array m elements => evalArray k elements m.span scope
  | .lambda _ params result body => newClosure ⟨params, result, body, ← frameOf scope, ← current⟩
  | .markup element => evalElement k element scope

end ClassScript.Evaluation
