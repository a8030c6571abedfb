import ClassScript.Types.Basic
import ClassScript.Text.Printable

/-!
Why a program is rejected by the type checker: one constructor for each cause, with its code and
its wording. A misspelt name comes with a suggestion: the candidate with the fewest edits, if they
are few enough.
-/

namespace ClassScript

/-- Why a program has no types. -/
inductive TypeFault where
  | alreadyDeclared (name : String)
  | badSuperclass (name type : String)
  | badInterface (name type : String)
  | badExtension (name type : String)
  | cyclic (name : String)
  | staticConstructor
  | genericConstructor
  | requiredAfterDefault (name : String)
  | constructorResult
  | missingBody (name owner : String)
  | badDefault (name : String) (want got : Ty)
  | variableArguments (name : String)
  | typeArgumentCount (name : String) (want got : Nat)
  | primitiveArguments (name : String)
  | missingMethod (owner parent name : String)
  | missingField (owner parent name : String)
  | staticImplementation (name parent : String)
  | implementationArity (name : String) (count : Nat) (parent : String) (want : Nat)
  | implementationType (name : String) (got : Ty) (parent : String) (want : Ty)
  | nestedDeclaration
  | nestedImport
  | redeclared (name : String)
  | voidInitial (name : String)
  | badInitial (got : Ty) (name : String) (want : Ty)
  | badCondition (got : Ty)
  | badCase (got subject : Ty)
  | rawIteration (got : Ty)
  | boxedIteration (got : Ty) (boxed : String)
  | notIterable (got : Ty)
  | missingResult (want : Ty)
  | voidResult
  | badResult (got want : Ty)
  | badField (name : String) (want got : Ty)
  | noSelf
  | bareParent
  | undefinedName (name suggestion : String)
  | badUnary (op : String) (want got : Ty)
  | badBinary (op : String) (left right : Ty)
  | assignToClass (name : String)
  | assignToSelf
  | badTarget
  | badAssignment (got want : Ty)
  | nullableInstance (type : String)
  | interfaceInstance (type : Ty)
  | unknownClass (type suggestion : String)
  | noConstructor (name : String) (got : Nat)
  | privateConstructor (owner : String)
  | badElement (got want : Ty)
  | noArrayClass (name : String)
  | badLambdaResult (got want : Ty)
  | noParent
  | noMembers (got : Ty)
  | unknownMember (owner name suggestion : String)
  | instanceThroughClass (name owner : String)
  | staticThroughInstance (name owner : String)
  | privateMember (name owner : String)
  | assignToMethod (name : String)
  | readonlyField (name owner : String)
  | argumentCount (name : String) (want got : Nat)
  | argumentRange (name : String) (least most got : Nat)
  | notCallable (name : String) (got : Ty)
  | parentCallOutside
  | noIndexing (owner : String)
  | voidArgument
  | badArgument (got want : Ty)

namespace TypeFault

/-- The code of a cause. -/
def code : TypeFault → String
  | undefinedName .. | noSelf | unknownClass .. | noArrayClass _ => "T001"
  | badDefault .. | voidInitial _ | badInitial .. | badCondition _ | badCase .. | missingResult _
  | voidResult | badResult .. | badField .. | assignToClass _ | assignToSelf | badTarget
  | badAssignment .. | badElement .. | badLambdaResult .. | assignToMethod _ | voidArgument
  | badArgument .. => "T002"
  | noMembers _ | unknownMember .. | noIndexing _ => "T003"
  | privateConstructor _ | instanceThroughClass .. | staticThroughInstance .. | privateMember ..
  | readonlyField .. => "T004"
  | noConstructor .. | argumentCount .. | argumentRange .. => "T005"
  | missingMethod .. | missingField .. | staticImplementation .. | implementationArity ..
  | implementationType .. => "T006"
  | alreadyDeclared _ | badSuperclass .. | badInterface .. | badExtension .. | cyclic _
  | staticConstructor | genericConstructor | requiredAfterDefault _ | constructorResult
  | missingBody .. | variableArguments _ | typeArgumentCount .. | primitiveArguments _
  | nestedDeclaration | nestedImport | redeclared _ | bareParent | nullableInstance _
  | interfaceInstance _ | noParent | parentCallOutside => "T007"
  | badUnary .. | badBinary .. => "T008"
  | rawIteration _ | boxedIteration .. | notIterable _ => "T009"
  | notCallable .. => "T010"

/-- The wording of a cause. -/
def message : TypeFault → String
  | alreadyDeclared name => s!"{name} is already declared"
  | badSuperclass name type => s!"class {name} can only extend a class, got {type}"
  | badInterface name type => s!"class {name} can only implement interfaces, got {type}"
  | badExtension name type => s!"interface {name} can only extend interfaces, got {type}"
  | cyclic name => s!"cyclic inheritance involving {name}"
  | staticConstructor => "constructor cannot be static"
  | genericConstructor => "constructor cannot declare type parameters"
  | requiredAfterDefault name =>
    s!"parameter {name} without default follows a parameter with default"
  | constructorResult => "constructor cannot declare a return type"
  | missingBody name owner => s!"method {name} of class {owner} must have a body"
  | badDefault name want got => s!"default value of {name}: expected {want.text}, got {got.text}"
  | variableArguments name => s!"type parameter {name} does not take type arguments"
  | typeArgumentCount name want got => s!"{name} expects {want} type arguments, got {got}"
  | primitiveArguments name => s!"{name} does not take type arguments"
  | missingMethod owner parent name =>
    s!"class {owner} does not implement {parent}: missing method {name}"
  | missingField owner parent name =>
    s!"class {owner} does not implement {parent}: missing field {name}"
  | staticImplementation name parent => s!"method {name} implementing {parent} must not be static"
  | implementationArity name count parent want =>
    s!"method {name} takes {count} parameters, {parent}.{name} takes {want}"
  | implementationType name got parent want =>
    s!"method {name} has signature {got.text}, {parent} requires {want.text}"
  | nestedDeclaration => "type declarations are only allowed at the top level"
  | nestedImport => "imports are only allowed at the top level"
  | redeclared name => s!"{name} is already declared in this scope"
  | voidInitial name => s!"cannot assign a void value to {name}"
  | badInitial got name want => s!"cannot assign {got.text} to {name} of type {want.text}"
  | badCondition got => s!"condition must be boolean, got {got.text}"
  | badCase got subject =>
    s!"case of type {got.text} cannot match a subject of type {subject.text}"
  | rawIteration got => s!"cannot iterate over raw {got.text}; element type unknown"
  | boxedIteration got boxed => s!"cannot iterate over {got.text} ({boxed} is not an Array)"
  | notIterable got => s!"cannot iterate over {got.text}"
  | missingResult want => s!"missing return value of type {want.text}"
  | voidResult => "void method cannot return a value"
  | badResult got want => s!"cannot return {got.text}; expected {want.text}"
  | badField name want got => s!"field {name}: expected {want.text}, got {got.text}"
  | noSelf => "this is not available in a static context"
  | bareParent => "super must be called or followed by a member access"
  | undefinedName name suggestion => s!"undefined name {name}{suggestion}"
  | badUnary op want got => s!"operator {op} needs {want.text}, got {got.text}"
  | badBinary op left right =>
    s!"operator {op} cannot be applied to {left.text} and {right.text}"
  | assignToClass name => s!"cannot assign to class {name}"
  | assignToSelf => "cannot assign to this"
  | badTarget => "invalid assignment target"
  | badAssignment got want => s!"cannot assign {got.text} to {want.text}"
  | nullableInstance type => s!"cannot instantiate nullable type {type}"
  | interfaceInstance type => s!"cannot instantiate interface {type.text}"
  | unknownClass type suggestion => s!"unknown class {type}{suggestion}"
  | noConstructor name got => s!"{name} takes no constructor arguments, got {got}"
  | privateConstructor owner => s!"constructor of {owner} is private"
  | badElement got want => s!"array element {got.text} is not assignable to {want.text}"
  | noArrayClass name => s!"array literals need the {name} class"
  | badLambdaResult got want => s!"lambda returns {got.text}; expected {want.text}"
  | noParent => "super is only available in instance members of a subclass"
  | noMembers got => s!"values of type {got.text} have no members"
  | unknownMember owner name suggestion => s!"{owner} has no member {name}{suggestion}"
  | instanceThroughClass name owner =>
    s!"instance member {name} cannot be accessed through class {owner}"
  | staticThroughInstance name owner =>
    s!"static member {name} must be accessed through class {owner}"
  | privateMember name owner => s!"{name} is private to {owner}"
  | assignToMethod name => s!"cannot assign to method {name}"
  | readonlyField name owner =>
    s!"readonly field {name} can only be assigned in a constructor of {owner}"
  | argumentCount name want got => s!"{name} expects {want} arguments, got {got}"
  | argumentRange name least most got =>
    s!"{name} expects between {least} and {most} arguments, got {got}"
  | notCallable name got => s!"{name} of type {got.text} is not callable"
  | parentCallOutside => "super(...) is only allowed in the constructor of a subclass"
  | noIndexing owner => s!"{owner} does not support indexing"
  | voidArgument => "cannot pass a void value"
  | badArgument got want => s!"argument of type {got.text} is not assignable to {want.text}"

end TypeFault

/-! ## Suggestions -/

namespace Suggestion

/-- The next row of the edit-distance table, behind the entry `left`, for one more character `c`:
`diagonal` is the entry above and to the left. -/
def nextRow (c : Char) (left diagonal : Nat) : List Char → List Nat → List Nat
  | d :: ds, above :: rest =>
    let entry := min (min (left + 1) (above + 1)) (if c == d then diagonal else diagonal + 1)
    entry :: nextRow c entry above ds rest
  | _, _ => []

/-- The rows of the edit-distance table for the characters of a text, starting from `row`. -/
def lastRow (target : List Char) (row : List Nat) : List Char → List Nat
  | [] => row
  | c :: cs =>
    match row with
    | [] => []
    | first :: rest => lastRow target ((first + 1) :: nextRow c (first + 1) first target rest) cs

/-- The least number of insertions, deletions and substitutions between two texts. -/
def distance (a b : String) : Nat :=
  let target := b.toList
  ((lastRow target (List.range (target.length + 1)) a.toList).getLast?).getD 0

/-- The first candidate with the least distance, other than the name itself. -/
def closest (name : String) (candidates : List String) : Option (String × Nat) :=
  candidates.foldl
    (fun best c =>
      if c == name then best
      else
        let d := distance name c
        match best with
        | none => some (c, d)
        | some (_, least) => if d < least then some (c, d) else best)
    none

/-- A remark with the closest candidate; nothing if more than half of the name would change. -/
def remark (name : String) (candidates : List String) : String :=
  let limit := max (name.utf8ByteSize / 2) 1
  match closest name candidates with
  | some (c, d) => if d ≤ limit then " (did you mean " ++ Text.quote c ++ "?)" else ""
  | none => ""

end Suggestion

end ClassScript
