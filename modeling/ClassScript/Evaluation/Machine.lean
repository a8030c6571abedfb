import ClassScript.Environment
import ClassScript.Evaluation.Fault
import ClassScript.Syntax.Tree
import ClassScript.Typing.Symbols
import ClassScript.Value.Text

/-!
The state of a running program and computations on it. A computation keeps its effects when it
fails, so that output and assignments before a failure stay.
-/

namespace ClassScript.Evaluation

/-- An interface as far as it has been built: its declaration, and those it extends. -/
structure InterfaceDef where
  name : String
  decl : Declaration
  parents : List String
  deriving Inhabited

/-- What does not change while a program runs. -/
structure World where
  program : LinkedProgram
  /-- The declarations of the program with their files, last first. -/
  declarations : List (String × Declaration)
  /-- The time that the program sees, in milliseconds. -/
  clock : Float
  deriving Inhabited

namespace World

/-- The world of a program. -/
def ofProgram (p : LinkedProgram) (clock : Float) : World := ⟨p, p.declarations.reverse, clock⟩

/-- The last declaration of that name, with its file. -/
def declaration? (w : World) (name : String) : Option (String × Declaration) :=
  w.declarations.find? fun d => d.2.name.text == name

/-- The class of that name, with its file. -/
def class? (w : World) (name : String) : Option (String × Declaration) :=
  (w.declaration? name).filter fun d => !d.2.isInterface

/-- The interface of that name. -/
def interface? (w : World) (name : String) : Option Declaration :=
  ((w.declaration? name).filter fun d => d.2.isInterface).map (·.2)

end World

/-- How far a run has gone. Nothing that runs depends on it. -/
structure Usage where
  /-- The most method contexts that there were at one time. -/
  deepest : Nat
  /-- The most that there were when the innermost was that of an initial value of a field. -/
  initial : Nat
  /-- How often code in the innermost method context went on with an iteration, and had the host called or its
  arguments completed. -/
  turns : Nat
  /-- The most that code in one method context did. -/
  busiest : Nat
  deriving DecidableEq, Inhabited

/-- A run that has not begun. -/
def Usage.none : Usage := ⟨0, 0, 0, 0⟩

/-- The state of a running program. -/
structure State where
  env : Environment Value
  heap : Heap
  /-- The classes that have been built, by name. -/
  classes : List (String × Nat)
  /-- The interfaces that have been built. -/
  interfaces : List InterfaceDef
  /-- The method contexts of the calls that are running, innermost first. -/
  calls : List CallFrame
  /-- The file to which failures are attributed. -/
  file : String
  /-- What has been printed. -/
  output : Array UInt8
  /-- How many more statements may start before the run is cancelled, if it ever is. -/
  allowance : Option Nat
  /-- How often it was asked whether the run is cancelled. Nothing that runs depends on it. -/
  checks : Nat
  usage : Usage
  deriving Inhabited

/-- Why a computation stops. -/
inductive Stop where
  | failed (d : Diagnostic)
  /-- The bound on nested steps is reached, or a text would never end. -/
  | endless
  /-- A slot was used that is not live. No construct of the language covers this up. -/
  | deadScope (slot : Nat)

/-- A computation in a running program. -/
abbrev Run := ReaderT World (ExceptT Stop (StateM State))

/-- Fails because of a fault at a span of the current file. -/
def fail {α : Type} (span : Span) (fault : RunFault) : Run α := do
  throw (.failed ⟨fault.kind, fault.code, fault.message, span, (← get).file⟩)

/-- Runs a computation, and then restores what it may have changed for its own use, also if it
failed. -/
def restoring {α : Type} (x : Run α) (restore : State → State) : Run α :=
  fun w s =>
    match x w s with
    | (r, s) => (r, restore s)

/-- Runs a computation; a failure becomes a result. -/
def attempt {α : Type} (x : Run α) : Run (Except Diagnostic α) :=
  fun w s =>
    match x w s with
    | (.ok a, s) => (.ok (.ok a), s)
    | (.error (.failed d), s) => (.ok (.error d), s)
    | (.error stop, s) => (.error stop, s)

/-- The heap. -/
def heap : Run Heap := return (← get).heap

/-- Changes the heap. -/
def modifyHeap (f : Heap → Heap) : Run Unit := modify fun s => { s with heap := f s.heap }

/-- The name of the type of a value. -/
def typeName (v : Value) : Run String := return (← heap).typeName v

/-- The text of a value. -/
def text (v : Value) : Run Bytes := do
  match (← heap).text? v with
  | some s => return s
  | none => throw .endless

/-- Prints a string. -/
def print (s : Bytes) : Run Unit := modify fun st => { st with output := st.output ++ s }

/-! ### Scopes -/

/-- A live slot of the environment. -/
abbrev ScopeId := Nat

/-- The frame in a live slot. Every use of a scope goes through here. -/
def frameOf (scope : ScopeId) : Run Nat := do
  match (← get).env.capture? scope with
  | some frame => return frame
  | none => throw (.deadScope scope)

/-- Opens a scope in a captured frame. -/
def openFrame (frame : Nat) : Run ScopeId :=
  modifyGet fun s =>
    let (id, env) := s.env.pushFrame frame
    (id, { s with env })

/-- Opens a scope in another. -/
def openScope (outer : ScopeId) : Run ScopeId := do openFrame (← frameOf outer)

/-- Releases all scopes opened by a computation. -/
def releasing {α : Type} (x : Run α) : Run α := do
  let mark := (← get).env.height
  restoring x fun s => { s with env := s.env.release mark }

/-- The value of a variable. -/
def binding? (scope : ScopeId) (name : String) : Run (Option Value) := do
  let frame ← frameOf scope
  return ((← get).env.seenFrom frame name).map (·.2)

/-- Gives a variable of a frame a value. -/
def setVariable (frame : Nat) (name : String) (v : Value) : Run Unit :=
  modify fun s => { s with env := s.env.setAt frame name v }

/-- Defines a variable. -/
def define (scope : ScopeId) (name : String) (v : Value) : Run Unit := do
  setVariable (← frameOf scope) name v

/-- Assigns to a variable, if there is one of that name. -/
def assign (scope : ScopeId) (name : String) (v : Value) : Run Bool := do
  let frame ← frameOf scope
  match (← get).env.seenFrom frame name with
  | some (holder, _) =>
    setVariable holder name v
    return true
  | none => return false

/-! ### Calls -/

/-- The most calls that may be running. -/
def maxCallDepth : Nat := 5000

/-- The method context of the running code. -/
def current : Run (Option CallFrame) := return (← get).calls.head?

/-- Notes that a method context is added to the running ones. -/
def State.noteContext (s : State) : State :=
  { s with usage := { s.usage with deepest := max s.usage.deepest (s.calls.length + 1), turns := 0 } }

/-- Notes that the next method context is that of an initial value of a field. -/
def noteInitial : Run Unit :=
  modify fun s => { s with usage := { s.usage with initial := max s.usage.initial (s.calls.length + 1) } }

/-- Notes that an iteration goes on, or that the host is at work. -/
def noteTurn : Run Unit :=
  modify fun s =>
    let turns := s.usage.turns + 1
    { s with usage := { s.usage with turns, busiest := max s.usage.busiest turns } }

/-- Runs code in a method context; its failures are attributed to `file` if one is given. The
context, the file and the scopes are as before afterwards. -/
def inContext {α : Type} (context : CallFrame) (file : Option String) (x : Run α) : Run α := do
  let before ← get
  let mark := before.env.height
  let saved := before.file
  let turns := before.usage.turns
  set { before.noteContext with calls := context :: before.calls, file := file.getD before.file }
  restoring x fun s =>
    { s with calls := s.calls.tail, file := saved, env := s.env.release mark, usage := { s.usage with turns } }

/-- Notes that it is asked whether the run is cancelled. -/
def noteCheck : Run Unit := modify fun s => { s with checks := s.checks + 1 }

/-- Stops if the run has been cancelled; called before each statement. -/
def checkCancelled (span : Span) : Run Unit := do
  noteCheck
  let s ← get
  match s.allowance with
  | none => pure ()
  | some 0 => fail span .cancelled
  | some (n + 1) => set { s with allowance := some n }

/-! ### New things in the heap -/

/-- A new object of a class. -/
def newObject (cls : Nat) (host : Option Host) : Run Nat :=
  modifyGet fun s =>
    (s.heap.objects.size, { s with heap := { s.heap with objects := s.heap.objects.push ⟨cls, [], host⟩ } })

/-- A class as a value. -/
def newClassRef (cls : Nat) : Run Value :=
  modifyGet fun s =>
    (.classRef cls s.heap.identities, { s with heap := { s.heap with identities := s.heap.identities + 1 } })

/-- A closure as a value. -/
def newClosure (c : Closure) : Run Value :=
  modifyGet fun s =>
    (.lambda s.heap.closures.size, { s with heap := { s.heap with closures := s.heap.closures.push c } })

/-- A method of a receiver as a value. -/
def newMethod (receiver : Value) (name : String) : Run Value :=
  modifyGet fun s =>
    (.method s.heap.methods.size,
      { s with heap := { s.heap with methods := s.heap.methods.push ⟨receiver, name⟩ } })

/-- A new array. -/
def newArray (storage : Storage) : Run Host :=
  modifyGet fun s =>
    let (id, arrays) := s.heap.arrays.create storage
    (.array id, { s with heap := { s.heap with arrays } })

/-- A new iterator over an array. -/
def newCursor (array : Nat) : Run Host :=
  modifyGet fun s =>
    (.iterator s.heap.cursors.size,
      { s with heap := { s.heap with cursors := s.heap.cursors.push ⟨array, 0⟩ } })

/-- A new markup node. -/
def newNode (n : Markup.Node) : Run Host :=
  modifyGet fun s =>
    (.node s.heap.nodes.size, { s with heap := { s.heap with nodes := s.heap.nodes.push n } })

/-- Gives a field of an object a value. -/
def setField (id : Nat) (name : String) (v : Value) : Run Unit :=
  modifyHeap fun h => { h with objects := h.objects.modify id fun o => o.setField name v }

/-- Changes a class. -/
def modifyClass (id : Nat) (f : ClassDef → ClassDef) : Run Unit :=
  modifyHeap fun h => { h with classes := h.classes.modify id f }

/-- Changes the arrays. -/
def modifyArrays (f : Arrays → Arrays) : Run Unit :=
  modifyHeap fun h => { h with arrays := f h.arrays }

/-! ### The recursion -/

/-- How a statement ended. -/
inductive Outcome where
  | normal
  | returned (v : Value)
  deriving Inhabited

/-- An iteration under way: the iterator, the variable and the body, and where failures of the
iterator are placed. -/
structure Iteration where
  iterator : Value
  item : String
  body : Block
  scope : ScopeId
  span : Span

/-- The evaluator that steps call for nested steps. -/
structure Evaluator where
  eval : Expr → ScopeId → Run Value
  exec : Stmt → ScopeId → Run Outcome
  callValue : Value → List Value → Span → Run Value
  classOf : String → Span → Run Nat
  iterate : Iteration → Run Outcome

end ClassScript.Evaluation
