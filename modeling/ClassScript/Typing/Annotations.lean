import ClassScript.Typing.Basic

/-!
Types as written become types. A name is looked up among the type parameters in scope, then the
declarations, then the primitive types; any other name stands for an unknown type.
-/

namespace ClassScript.Typing

/-- The primitive type of that name. -/
def primitive? : String → Option Ty
  | "number" => some .number
  | "string" => some .string
  | "boolean" => some .boolean
  | "void" => some .void
  | "mixed" => some .mixed
  | _ => none

/-- The type that a name with arguments stands for. -/
def named (span : Span) (name : String) (args : List Ty) : Analysis Ty := do
  let c ← read
  match c.typeParams.lookup name with
  | some v =>
    require args.isEmpty span (.variableArguments name)
    return .var v
  | none =>
    match c.registry.find? name with
    | some d =>
      require (args.isEmpty || args.length == d.params.length) span
        (.typeArgumentCount name d.params.length args.length)
      return .ref d.nominal args
    | none =>
      match primitive? name with
      | some t =>
        require args.isEmpty span (.primitiveArguments name)
        return t
      | none => fresh name

/-- The type with null added if a question mark is written. -/
def marked (nullable : Bool) (t : Ty) : Ty := if nullable then t.orNull else t

mutual

/-- The type that is written. -/
def written : TypeExpr → Analysis Ty
  | .simple m name nullable => return marked nullable (← named m.span name [])
  | .generic m name args nullable => do
    let args ← allWritten args
    return marked nullable (← named m.span name args)
  | .function _ params result nullable => do
    let params ← allWritten params
    return marked nullable (.function params (← written result))

/-- The types that are written. -/
def allWritten : List TypeExpr → Analysis (List Ty)
  | [] => return []
  | t :: ts => do
    let t ← written t
    return t :: (← allWritten ts)

end

/-- The type that is written, or an unknown type named after the thing it belongs to. -/
def writtenOr (name : String) : Option TypeExpr → Analysis Ty
  | some t => written t
  | none => fresh name

end ClassScript.Typing
