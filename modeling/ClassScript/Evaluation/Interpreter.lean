import ClassScript.Evaluation.Statements
import ClassScript.Syntax.Size

/-!
The interpreter: steps tied together up to a bound on their nesting, and the operations that start a
program. A program that is loaded keeps its variables, classes and output from one operation to the
next.
-/

namespace ClassScript

namespace Evaluation

mutual

/-- Evaluates an expression with at most `fuel` nested steps. -/
def evalWithin (fuel : Nat) (e : Expr) (scope : ScopeId) : Run Value :=
  match fuel with
  | 0 => throw .endless
  | n + 1 =>
    eval ⟨evalWithin n, execWithin n, callWithin n, classWithin n, iterateWithin n⟩ e scope

/-- Executes a statement with at most `fuel` nested steps. -/
def execWithin (fuel : Nat) (s : Stmt) (scope : ScopeId) : Run Outcome :=
  match fuel with
  | 0 => throw .endless
  | n + 1 =>
    exec ⟨evalWithin n, execWithin n, callWithin n, classWithin n, iterateWithin n⟩ s scope

/-- Calls a value with at most `fuel` nested steps. -/
def callWithin (fuel : Nat) (f : Value) (args : List Value) (span : Span) : Run Value :=
  match fuel with
  | 0 => throw .endless
  | n + 1 =>
    callValue ⟨evalWithin n, execWithin n, callWithin n, classWithin n, iterateWithin n⟩ f args span

/-- Finds or builds a class with at most `fuel` nested steps. -/
def classWithin (fuel : Nat) (name : String) (span : Span) : Run Nat :=
  match fuel with
  | 0 => throw .endless
  | n + 1 =>
    classOf ⟨evalWithin n, execWithin n, callWithin n, classWithin n, iterateWithin n⟩ name span

/-- Goes on with an iteration with at most `fuel` nested steps. -/
def iterateWithin (fuel : Nat) (it : Iteration) : Run Outcome :=
  match fuel with
  | 0 => throw .endless
  | n + 1 =>
    iterate ⟨evalWithin n, execWithin n, callWithin n, classWithin n, iterateWithin n⟩ it

end

/-- The evaluator with at most `fuel` nested steps. -/
def evaluator (fuel : Nat) : Evaluator :=
  ⟨evalWithin fuel, execWithin fuel, callWithin fuel, classWithin fuel, iterateWithin fuel⟩

/-- More nested steps than any run of a program takes that ends: those of its own constructs, and far
more calls than there can be. -/
def maxSteps (p : LinkedProgram) : Nat := p.size + 0x4000000000000000

/-- A slot that was used though it is not live is an internal failure. -/
def Stop.reported (file : String) : Stop → Stop
  | .deadScope slot =>
    let fault := RunFault.deadScope slot
    .failed ⟨fault.kind, fault.code, fault.message, Span.none, file⟩
  | stop => stop

/-- Executes top-level statements in order, each in its file, up to one that returns. -/
def runAll (k : Evaluator) : List Placed → Run Value
  | [] => return .void
  | p :: ps => do
    modify fun s => { s with file := p.file }
    match ← k.exec p.statement Environment.global with
    | .returned v => return v
    | .normal => runAll k ps

/-- Calls a method of a class by name: a static one on the class, any other on a new instance. -/
def invokeNamed (k : Evaluator) (cls name : String) (args : List Value) : Run Value := do
  let id ← k.classOf cls Span.none
  let span := ((← heap).cls id).decl.span
  match ← method? id name with
  | none => fail span (.noMethod cls name)
  | some m =>
    if m.isStatic then callMethod k (← newClassRef id) name args span
    else
      let object ← instantiate k id [] span
      callMethod k (.object object) name args span

/-- Whether a class has or inherits a method; a class that cannot be built has none. -/
def hasNamed (k : Evaluator) (cls name : String) : Run Bool := do
  if ((← read).class? cls).isNone then return false
  else
    match ← attempt (k.classOf cls Span.none) with
    | .error _ => return false
    | .ok id => return (← method? id name).isSome

end Evaluation

/-- What the machine decides on which a program runs. -/
structure Surroundings where
  /-- The time that the program sees, in milliseconds. -/
  clock : Float
  /-- Where in memory each of its arrays lies. -/
  addresses : Nat → Nat
  deriving Inhabited

/-- An interpreter, with the program that is loaded. -/
structure Interpreter where
  world : Option Evaluation.World
  clock : Float
  addresses : Nat → Nat
  state : Evaluation.State
  /-- How many statements may start in all, once a program has been started. -/
  limit : Option Nat

namespace Interpreter

open Evaluation

/-- An interpreter without a program. -/
def new (clock : Float) (limit : Option Nat) (addresses : Nat → Nat := fun _ => 0) : Interpreter :=
  ⟨none, clock, addresses, ⟨.empty, .empty, [], [], [], "", #[], none, 0, .none⟩, limit⟩

/-- An interpreter on a machine. -/
def on (around : Surroundings) : Interpreter := new around.clock none around.addresses

/-- Loads a program. What was printed stays, and so does the file of the last failure. -/
def load (i : Interpreter) (p : LinkedProgram) : Interpreter :=
  { i with
    world := some (.ofProgram p i.clock)
    state := { i.state with
      env := .empty
      heap := .laidOut i.addresses
      classes := []
      interfaces := []
      calls := []
      checks := 0
      usage := .none } }

/-- Lets the limit on statements count from now on. -/
def watch (i : Interpreter) : Interpreter :=
  match i.limit with
  | none => i
  | some n => { i with state := { i.state with allowance := some n }, limit := none }

/-- Runs a computation in the program that is loaded, if there is one. -/
def exec {α : Type} (i : Interpreter) (x : Evaluator → Run α) : Except Stop α × Interpreter :=
  match i.world with
  | none =>
    let fault := RunFault.noProgram
    (.error (.failed ⟨fault.kind, fault.code, fault.message, Span.none, ""⟩), i)
  | some w =>
    let (r, state) := x (evaluator (maxSteps w.program)) w i.state
    (r.mapError (·.reported state.file), { i with state })

/-- Loads a program and executes its top-level statements. The result is what they return. -/
def run (i : Interpreter) (p : LinkedProgram) : Except Stop Value × Interpreter :=
  ((i.load p).watch).exec fun k => runAll k p.actions

/-- Calls a method of a class. -/
def invoke (i : Interpreter) (cls name : String) (args : List Value) :
    Except Stop Value × Interpreter :=
  match i.world with
  | none => i.exec fun _ => pure .void
  | some _ => i.watch.exec fun k => invokeNamed k cls name args

/-- Looks for a method of a class. -/
def findMethod (i : Interpreter) (cls name : String) : Except Stop Bool × Interpreter :=
  i.exec fun k => hasNamed k cls name

/-- Whether a class has a method. -/
def hasMethod (i : Interpreter) (cls name : String) : Bool × Interpreter :=
  match i.findMethod cls name with
  | (.ok b, i) => (b, i)
  | (.error _, i) => (false, i)

/-- Runs a program; if it returns nothing and the entry class has the entry method, that method is
called and gives the result. -/
def runEntry (i : Interpreter) (p : LinkedProgram) (cls name : String) :
    Except Stop Value × Interpreter :=
  match i.run p with
  | (.ok .void, i) =>
    if cls == "" then (.ok .void, i)
    else
      match i.findMethod cls name with
      | (.ok true, i) => i.invoke cls name []
      | (.ok false, i) => (.ok .void, i)
      | (.error stop, i) => (.error stop, i)
  | r => r

end Interpreter

end ClassScript
