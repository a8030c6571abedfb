import ClassScript.Evaluation.Machine

/-!
Methods of the host: what they ask of their arguments, and how values are handed over. Null stands
for the zero of the wanted type.
-/

namespace ClassScript.Evaluation

/-- What a host method asks of an argument. -/
inductive ParamKind where
  | number | text | truth | any | function
  deriving DecidableEq, Inhabited

/-- An argument as a host method receives it. -/
inductive HostArg where
  | number (x : Float)
  | text (s : Bytes)
  | truth (b : Bool)
  | any (v : Value)
  /-- A function to call back, or nothing. -/
  | function (f : Option Value)

/-- Hands a value over to the host. -/
def ParamKind.pass (h : Heap) : ParamKind → Value → Except PassFault HostArg
  | .function, .null => .ok (.function none)
  | .function, .lambda id => .ok (.function (some (.lambda id)))
  | .function, .method id => .ok (.function (some (.method id)))
  | .function, v => .error (.notFunction (h.typeName v))
  | .any, v => .ok (.any v)
  | .number, .null => .ok (.number 0)
  | .number, .number x => .ok (.number x)
  | .number, v => .error (.notOf (h.typeName v) "float64")
  | .text, .null => .ok (.text "")
  | .text, .string s => .ok (.text s)
  | .text, v => .error (.notOf (h.typeName v) "string")
  | .truth, .null => .ok (.truth false)
  | .truth, .boolean b => .ok (.truth b)
  | .truth, v => .error (.notOf (h.typeName v) "bool")

/-- Why a host method fails. -/
inductive HostFault where
  | array (cause : ArrayFault)
  | charIndex (index : Int) (length : Nat)
  | substring (start stop : Int) (length : Nat)
  | fixedDigits (digits : Float)
  | notNumber (text : Bytes)
  | assertEqual (expected actual : Bytes)
  | assertTrue
  | assertNull (actual : Bytes)
  | assertion (message : Bytes)
  | noCallback
  | constructorCount (got : Nat)
  /-- The result is no value of the language. -/
  | badResult (type : String)
  /-- The arguments are not those that the method asks for. -/
  | badArguments

/-- The wording of a fault. -/
def HostFault.message : HostFault → String
  | .array cause => cause.message
  | .charIndex index length => s!"index {index} out of range for string of length {length}"
  | .substring start stop length =>
    s!"substring({start}, {stop}) out of range for string of length {length}"
  | .fixedDigits digits =>
    "toFixed digits must be between 0 and 20, got " ++ Number.write Number.Layout.plain digits
  | .notNumber text => "cannot parse " ++ Text.quoted text.text ++ " as a number"
  | .assertEqual expected actual =>
    "assertion failed: expected " ++ expected.shown ++ ", got " ++ actual.shown
  | .assertTrue => "assertion failed: expected true"
  | .assertNull actual => "assertion failed: expected null, got " ++ actual.shown
  | .assertion message => "assertion failed: " ++ message.shown
  | .noCallback => "panic: runtime error: invalid memory address or nil pointer dereference"
  | .constructorCount got => s!"Array constructor takes no arguments, got {got}"
  | .badResult type => s!"unsupported host value of type {type}"
  | .badArguments => "unexpected arguments"

/-- The work of a host method: a value, or a fault of its own. -/
abbrev HostRun := Run (Except HostFault Value)

/-- A method of the host. -/
structure HostMethod where
  params : List ParamKind
  call : Evaluator → Span → List HostArg → HostRun

namespace HostMethod

/-- A method without arguments. -/
def nullary (work : HostRun) : HostMethod := ⟨[], fun _ _ _ => work⟩

/-- A method of one argument that only computes. -/
def ofNumber (work : Float → HostRun) : HostMethod :=
  ⟨[.number], fun _ _ args =>
    match args with
    | [.number x] => work x
    | _ => return .error .badArguments⟩

/-- A method of a text. -/
def ofText (work : Bytes → HostRun) : HostMethod :=
  ⟨[.text], fun _ _ args =>
    match args with
    | [.text s] => work s
    | _ => return .error .badArguments⟩

/-- A method of a truth value. -/
def ofTruth (work : Bool → HostRun) : HostMethod :=
  ⟨[.truth], fun _ _ args =>
    match args with
    | [.truth b] => work b
    | _ => return .error .badArguments⟩

/-- A method of any value. -/
def ofAny (work : Value → HostRun) : HostMethod :=
  ⟨[.any], fun _ _ args =>
    match args with
    | [.any v] => work v
    | _ => return .error .badArguments⟩

/-- A method of two numbers. -/
def ofNumbers (work : Float → Float → HostRun) : HostMethod :=
  ⟨[.number, .number], fun _ _ args =>
    match args with
    | [.number x, .number y] => work x y
    | _ => return .error .badArguments⟩

/-- A method of two values. -/
def ofAnys (work : Value → Value → HostRun) : HostMethod :=
  ⟨[.any, .any], fun _ _ args =>
    match args with
    | [.any v, .any w] => work v w
    | _ => return .error .badArguments⟩

/-- A method of a number and a value. -/
def ofNumberAny (work : Float → Value → HostRun) : HostMethod :=
  ⟨[.number, .any], fun _ _ args =>
    match args with
    | [.number x, .any v] => work x v
    | _ => return .error .badArguments⟩

/-- A method that calls a function back. -/
def ofFunction (work : (Value → HostRun) → HostRun) : HostMethod :=
  ⟨[.function], fun k span args =>
    match args with
    | [.function f] =>
      work fun item =>
        match f with
        | none => return .error .noCallback
        | some f => do
          let v ← k.callValue f [item] span
          return .ok (if v.isVoid then .null else v)
    | _ => return .error .badArguments⟩

end HostMethod

/-- A result of the host. -/
def give (v : Value) : HostRun := return .ok v

/-- A fault of the host. -/
def refuse (fault : HostFault) : HostRun := return .error fault

end ClassScript.Evaluation
