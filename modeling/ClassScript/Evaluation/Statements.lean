import ClassScript.Evaluation.Expressions

/-!
Execution of statements. A block stops at the first statement that returns. Iteration goes through
the methods of the iteration protocol.
-/

namespace ClassScript.Evaluation

namespace Protocol

def iterator : String := "iterator"
def rewind : String := "rewind"
def hasNext : String := "hasNext"
def current : String := "current"
def next : String := "next"

end Protocol

/-- Calls a method of the iteration protocol. -/
def callProtocol (k : Evaluator) (v : Value) (name : String) (span : Span) : Run Value := do
  if ← hasMethod k v name then callMethod k v name [] span
  else fail span (.noProtocol (← typeName v) name)

/-- Executes the first arm whose value equals the subject, if there is one. -/
def execArms (k : Evaluator) (subject : Value) (scope : ScopeId) : List Arm → Run (Option Outcome)
  | [] => return none
  | a :: as => do
    let v ← k.eval a.value scope
    if (← heap).equal subject v then return some (← execBlock k a.body scope)
    else execArms k subject scope as

/-- Takes the next item of an iteration, and goes on. -/
def iterate (k : Evaluator) (it : Iteration) : Run Outcome := do
  match ← callProtocol k it.iterator Protocol.hasNext it.span with
  | .boolean false => return .normal
  | .boolean true =>
    let item ← callProtocol k it.iterator Protocol.current it.span
    let outcome ← releasing do
      let scope ← openScope it.scope
      define scope it.item item
      execBlock k it.body scope
    match outcome with
    | .returned v => return .returned v
    | .normal =>
      let _ ← callProtocol k it.iterator Protocol.next it.span
      noteTurn
      k.iterate it
  | v => fail it.span (.badHasNext Protocol.hasNext (← typeName v))

/-- Executes an iteration over a value. -/
def execEach (k : Evaluator) (item : Name) (iterable : Expr) (body : Block) (scope : ScopeId) :
    Run Outcome := do
  let span := iterable.span
  let v ← k.eval iterable scope
  if v.isNull then fail span .iterateNull
  let it ← callProtocol k v Protocol.iterator span
  if it.isNull then fail span (.nullResult Protocol.iterator)
  let _ ← callProtocol k it Protocol.rewind span
  k.iterate ⟨it, item.text, body, scope, span⟩

/-- Evaluates a condition. -/
def evalCondition (k : Evaluator) (e : Expr) (scope : ScopeId) : Run Bool := do
  match ← k.eval e scope with
  | .boolean b => return b
  | v => fail e.span (.badCondition (← typeName v))

/-- Executes a statement. -/
def exec (k : Evaluator) (s : Stmt) (scope : ScopeId) : Run Outcome := do
  checkCancelled s.span
  match s with
  | .does _ e =>
    let _ ← k.eval e scope
    return .normal
  | .binds _ name type value =>
    let v ←
      match value with
      | some e => do
        let v ← k.eval e scope
        pure (coerce type v)
      | none => pure .null
    define scope name.text v
    return .normal
  | .block b => execBlock k b scope
  | .branch _ condition yes no =>
    if ← evalCondition k condition scope then execBlock k yes scope
    else
      match no with
      | some s => k.exec s scope
      | none => return .normal
  | .select _ subject arms fallback =>
    let v ← k.eval subject scope
    match ← execArms k v scope arms with
    | some outcome => return outcome
    | none =>
      match fallback with
      | some b => execBlock k b scope
      | none => return .normal
  | .each _ item iterable body => execEach k item iterable body scope
  | .returns _ value =>
    match value with
    | some e => return .returned (← k.eval e scope)
    | none => return .returned .void
  | .declares _ | .uses .. => return .normal

end ClassScript.Evaluation
