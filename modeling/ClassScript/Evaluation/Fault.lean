import ClassScript.Diagnostic

/-!
Why a running program fails: one constructor for each cause, with its kind, code and wording.
-/

namespace ClassScript

/-- Why a value cannot be passed to the host. -/
inductive PassFault where
  | notFunction (type : String)
  | notOf (type wanted : String)

/-- The wording of a cause. -/
def PassFault.message : PassFault → String
  | .notFunction type => s!"cannot pass {type} as a function"
  | .notOf type wanted => s!"cannot pass {type} as {wanted}"

/-- Why a program fails. -/
inductive RunFault where
  | undefinedName (name : String)
  | unknownClass (name : String)
  | unknownInterface (name : String)
  | noSelf
  | bareParent
  | noParentReceiver
  | noParentConstructor
  | noParentMethod
  | badCondition (type : String)
  | badUnary (op type : String)
  | badLogic (op type : String)
  | badBinary (op left right : String)
  | divisionByZero
  | badTarget
  | notCallable (type : String)
  | callDepth (limit : Nat)
  | missingDefault
  | noProgram
  | noMember (type name : String)
  | noMethod (type name : String)
  | noStaticMethod (type name : String)
  | noStaticField (type name : String)
  | noRender (tag name : String)
  | cannotSet (name type : String)
  | argumentCount (name : String) (want got : Nat)
  | argumentRange (name : String) (least most got : Nat)
  | noConstructor (name : String) (got : Nat)
  | iterateNull
  | nullResult (name : String)
  | setOnNull (name : String)
  | readOfNull (name : String)
  | callNull
  | callOnNull (name : String)
  | badHasNext (name type : String)
  | noProtocol (type name : String)
  | cancelled
  | noHostClass (name : String)
  | notImplemented (type name : String)
  | notCreatable (name : String)
  | hostCount (name : String) (want got : Nat)
  | hostArgument (name : String) (position : Nat) (cause : PassFault)
  | hostFailed (name cause : String)
  | hostValue (type : String)
  | deadScope (slot : Nat)

namespace RunFault

/-- The kind of a cause. -/
def kind : RunFault → DiagnosticKind
  | noHostClass _ | notImplemented .. | notCreatable _ | hostCount .. | hostArgument ..
  | hostFailed .. | hostValue _ => .native
  | deadScope _ => .internal
  | _ => .execution

/-- The code of a cancelled run. -/
def cancelledCode : String := "R006"

/-- The code of a cause. -/
def code : RunFault → String
  | undefinedName _ | unknownClass _ | unknownInterface _ | noSelf | bareParent | noParentReceiver
  | noParentConstructor | noParentMethod | badCondition _ | badUnary .. | badLogic ..
  | badBinary .. | divisionByZero | badTarget | notCallable _ | callDepth _ | missingDefault
  | noProgram => "R001"
  | noMember .. | noMethod .. | noStaticMethod .. | noStaticField .. | noRender ..
  | cannotSet .. => "R002"
  | argumentCount .. | argumentRange .. | noConstructor .. => "R003"
  | iterateNull | nullResult _ | setOnNull _ | readOfNull _ | callNull | callOnNull _ => "R004"
  | badHasNext .. | noProtocol .. => "R005"
  | cancelled => cancelledCode
  | noHostClass _ | notImplemented .. | notCreatable _ | hostCount .. | hostArgument ..
  | hostFailed .. | hostValue _ => "N001"
  | deadScope _ => "I001"

/-- The wording of a cause. -/
def message : RunFault → String
  | undefinedName name => s!"undefined name {name}"
  | unknownClass name => s!"unknown class {name}"
  | unknownInterface name => s!"unknown interface {name}"
  | noSelf => "this is not available here"
  | bareParent => "super must be called or followed by a member access"
  | noParentReceiver => "super is only available in instance members"
  | noParentConstructor => "super(...) is only allowed in the constructor of a subclass"
  | noParentMethod => "super is only available in instance members of a subclass"
  | badCondition type => s!"condition must be boolean, got {type}"
  | badUnary op type => s!"operator {op} cannot be applied to {type}"
  | badLogic op type => s!"operator {op} needs boolean, got {type}"
  | badBinary op left right => s!"operator {op} cannot be applied to {left} and {right}"
  | divisionByZero => "division by zero"
  | badTarget => "invalid assignment target"
  | notCallable type => s!"{type} is not callable"
  | callDepth limit => s!"maximum call depth {limit} exceeded"
  | missingDefault => "unsupported expression <nil>"
  | noProgram => "no program loaded"
  | noMember type name => s!"{type} has no member {name}"
  | noMethod type name => s!"{type} has no method {name}"
  | noStaticMethod type name => s!"{type} has no static method {name}"
  | noStaticField type name => s!"{type} has no static field {name}"
  | noRender tag name => s!"{tag} has no {name}()"
  | cannotSet name type => s!"cannot set {name} on {type}"
  | argumentCount name want got => s!"{name} expects {want} arguments, got {got}"
  | argumentRange name least most got =>
    s!"{name} expects between {least} and {most} arguments, got {got}"
  | noConstructor name got => s!"{name} takes no constructor arguments, got {got}"
  | iterateNull => "cannot iterate over null"
  | nullResult name => s!"{name} returned null"
  | setOnNull name => s!"cannot set {name} on null"
  | readOfNull name => s!"cannot read {name} of null"
  | callNull => "cannot call null"
  | callOnNull name => s!"cannot call {name} on null"
  | badHasNext name type => s!"{name} must return boolean, got {type}"
  | noProtocol type name => s!"{type} does not implement {name}()"
  | cancelled => "execution cancelled"
  | noHostClass name => s!"no host implementation registered for native class {name}"
  | notImplemented type name => s!"native method {type}.{name} is not implemented by the host"
  | notCreatable name => s!"native class {name} cannot be instantiated"
  | hostCount name want got => s!"{name} expects {want} arguments, got {got}"
  | hostArgument name position cause => s!"{name}: argument {position}: " ++ cause.message
  | hostFailed name cause => s!"{name}: {cause}"
  | hostValue type => s!"unsupported host value of type {type}"
  | deadScope slot => s!"internal error: scope {slot} is not live"

end RunFault

end ClassScript
