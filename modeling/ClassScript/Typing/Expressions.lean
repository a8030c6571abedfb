import ClassScript.Syntax.Text
import ClassScript.Typing.Annotations
import ClassScript.Typing.Members

/-!
Types of expressions and statements. `infer` follows the tree; the expected type only helps to type
lambdas, array literals and generic construction, and never makes an expression acceptable.
-/

namespace ClassScript.Typing

/-- The type of a name: a variable's, or that of a class used as a value. -/
def nameType (scope : Scope) (id : Name) : Analysis Ty := do
  match scope.find? id.text with
  | some b => return b.type
  | none =>
    let r := (← read).registry
    match r.find? id.text with
    | some d => return .static d.nominal
    | none =>
      reject id.span
        (.undefinedName id.text (Suggestion.remark id.text (scope.names ++ r.names)))

/-- The type of the variable that a name assigns to. -/
def assignedName (scope : Scope) (id : Name) : Analysis Ty := do
  match scope.find? id.text with
  | some b =>
    require (!b.isSelf) id.span .assignToSelf
    note id.span b.type
    return b.type
  | none =>
    let _ ← nameType scope id
    reject id.span (.assignToClass id.text)

/-- The type of the member that is assigned to, if the receiver's type is known. -/
def assignedMember (scope : Scope) (recv : Option Receiver) (span : Span) (property : Name) :
    Analysis Ty := do
  match recv with
  | none => fresh property.text
  | some recv =>
    let m ← useMember scope recv property.text property.span
    requireAssignable scope m property.text property.span
    noting span m.type

/-- The operand type of a unary operator, which is also the type of its result. -/
def unaryType : UnaryOp → Ty
  | .negate => .number
  | .not => .boolean

/-- The type of an operation on operands of two types, if there is one. -/
def binaryType? (op : BinaryOp) (left right : Ty) : Analysis (Option Ty) := do
  let both (t : Ty) : Analysis Bool := return (← accepts t left) && (← accepts t right)
  match op with
  | .add =>
    match left, right with
    | .string, _ | _, .string => return some .string
    | _, _ => return if ← both .number then some .number else none
  | .sub | .mul | .div | .rem => return if ← both .number then some .number else none
  | .less | .greater | .lessEq | .greaterEq =>
    return if ← both .number then some .boolean else none
  | .equal | .notEqual => return if ← accepts left right then some .boolean else none
  | .and | .or => return if ← both .boolean then some .boolean else none

/-- The type of an operation on operands of two types. -/
def binaryType (span : Span) (op : BinaryOp) (left right : Ty) : Analysis Ty := do
  match ← binaryType? op left right with
  | some t => return t
  | none => reject span (.badBinary op.spelling left right)

/-- The type arguments of a generic class that is constructed without any: those of the expected
type if it is of the same class, else unknown types. -/
def argsFromExpected (d : DeclSymbol) (expected : Option Ty) : Analysis (List Ty) := do
  let unknown := d.params.mapM fun v => fresh v.name
  match expected.map Ty.base with
  | some (.ref n args) =>
    if n == d.nominal && args.length == d.params.length then return args else unknown
  | _ => unknown

/-- The class that a construction names, with its arguments. -/
def constructed (t : TypeExpr) (expected : Option Ty) : Analysis (DeclSymbol × List Ty) := do
  require (!t.isNullable) t.span (.nullableInstance t.text)
  let r := (← read).registry
  let unknown : Analysis (DeclSymbol × List Ty) :=
    reject t.span (.unknownClass t.text (Suggestion.remark (t.name?.getD "") r.names))
  match ← written t with
  | .ref n args =>
    require (!n.isInterface) t.span (.interfaceInstance (.ref n args))
    match r.find? n.name with
    | none => unknown
    | some d =>
      let args ← if args.isEmpty && !d.params.isEmpty then argsFromExpected d expected else pure args
      return (d, args)
  | _ => unknown

/-- The signature of a construction, whose result is the class with its arguments. -/
def constructionSignature (scope : Scope) (d : DeclSymbol) (args : List Ty) (count : Nat)
    (span : Span) : Analysis Signature := do
  let r := (← read).registry
  let ctor := r.constructor? d
  match ctor with
  | some c =>
    require (!c.isPrivate || seesPrivate r scope c.owner) span (.privateConstructor c.owner.name)
    noteAccess span c.owner c.isPrivate false
  | none => pure ()
  let s ← constructorSignature d args ctor count span
  return ⟨s.params, .ref d.nominal args⟩

/-- The signature of a call of the superclass constructor, allowed in constructors only. -/
def parentConstructor (scope : Scope) (parent : Span) (count : Nat) (span : Span) :
    Analysis Signature := do
  let r := (← read).registry
  match parentOf? r scope with
  | some (p, args) =>
    require scope.inConstructor parent .parentCallOutside
    note parent (.ref p.nominal args)
    let ctor := r.constructor? p
    match ctor with
    | some c => noteAccess span c.owner c.isPrivate true
    | none => pure ()
    let s ← constructorSignature p args ctor count span
    return ⟨s.params, .void⟩
  | none => reject parent .parentCallOutside

/-- The signature of a call through a member. -/
def memberSignature (scope : Scope) (recv : Option Receiver) (callee : Span) (property : Name)
    (count : Nat) (span : Span) : Analysis Signature := do
  match recv with
  | none => return ⟨[], ← fresh property.text⟩
  | some recv =>
    let m ← useMember scope recv property.text property.span
    let t ← noting callee m.type
    match m.symbol with
    | .method f => methodSignature property.text f m.subst count span
    | .field _ => valueSignature property.text t count span callee

/-- The element type that an expected array type asks for. -/
def expectedElement (expected : Option Ty) : Option Ty :=
  match expected.map Ty.base with
  | some (.ref n [t]) => if n.name == Builtin.arrayClass && !n.isInterface then some t else none
  | _ => none

/-- The type of an array literal whose elements have that type. -/
def arrayType (span : Span) (element : Option Ty) : Analysis Ty := do
  let element ←
    match element with
    | none | some .null => fresh "T"
    | some t => pure t
  match ← builtinRef? Builtin.arrayClass [element] with
  | some t => return t
  | none => reject span (.noArrayClass Builtin.arrayClass)

/-- The element type of an array literal after one more element. If the type was not asked for,
elements of different types make it `mixed`. -/
def joinElement (declared : Bool) (span : Span) (element : Option Ty) (t : Ty) : Analysis Ty := do
  match element with
  | none => return t
  | some e =>
    if ← accepts e t then return e
    else if declared then reject span (.badElement t e)
    else return .mixed

/-- The function type that a lambda with that many parameters is expected to have. -/
def expectedFunction (expected : Option Ty) (count : Nat) : Option (List Ty × Ty) :=
  match expected.map Ty.base with
  | some (.function params result) => if params.length == count then some (params, result) else none
  | _ => none

/-- The type of a lambda parameter: as written, else as expected, else unknown. -/
def paramType (name : Name) (type : Option TypeExpr) (want : Option Ty) : Analysis Ty := do
  match type, want with
  | some t, _ => written t
  | none, some t => return t
  | none, none => fresh name.text

/-- The type of markup. -/
def markupType : Analysis Ty := return (← builtinRef? Builtin.nodeClass []).getD .mixed

/-- The type of the elements of a value that is iterated over. -/
def elementType (span : Span) (t : Ty) : Analysis Ty := do
  let other : Analysis Ty := do
    match ← boxed? t with
    | some d => reject span (.boxedIteration t d.name)
    | none => reject span (.notIterable t)
  match t with
  | .var _ => fresh "E"
  | .ref n args =>
    if n.name == Builtin.arrayClass && !n.isInterface then
      match args with
      | [e] => return e
      | _ => reject span (.rawIteration t)
    else other
  | _ => other

/-- Whether a function of that result type may return without a value. -/
def mayReturnNothing : Ty → Bool
  | .void | .var _ | .mixed => true
  | _ => false

/-- The type of the variable that a binding declares, from the type written and the type of the
initial value. -/
def boundType (name : String) (declared : Option Ty) (value : Option (Span × Ty)) : Analysis Ty := do
  match value with
  | none => return declared.getD .mixed
  | some (span, t) =>
    require (!t.isVoid) span (.voidInitial name)
    match declared with
    | some d =>
      requireAccepts d t span (.badInitial t name d)
      return d
    | none => if t.isNull then return (← fresh name).orNull else return t

mutual

/-- The type of an expression, noted. -/
def infer (scope : Scope) (expected : Option Ty) (e : Expr) : Analysis Ty :=
  noting e.span <|
    match e with
    | .name id => nameType scope id
    | .number .. => pure .number
    | .string _ => pure .string
    | .boolean .. => pure .boolean
    | .null _ => pure .null
    | .self m =>
      match scope.find? Builtin.selfName with
      | some b => pure b.type
      | none => reject m.span .noSelf
    | .parent m => reject m.span .bareParent
    | .unary m op operand => do
      let t ← infer scope none operand
      requireAccepts (unaryType op) t m.span (.badUnary op.spelling (unaryType op) t)
      return unaryType op
    | .binary m op left right => do
      let l ← infer scope none left
      let r ← infer scope none right
      binaryType m.span op l r
    | .assign _ (.name id) value => do
      let want ← assignedName scope id
      let got ← infer scope (some want) value
      requireAccepts want got value.span (.badAssignment got want)
      return want
    | .assign _ (.member tm object property) value => do
      let recv ←
        if object.isParent then some <$> parentReceiver scope object.span
        else receiver? object.span (← infer scope none object)
      let want ← assignedMember scope recv tm.span property
      let got ← infer scope (some want) value
      requireAccepts want got value.span (.badAssignment got want)
      return want
    | .assign m (.index _ object position) value => do
      let recv ←
        if object.isParent then some <$> parentReceiver scope object.span
        else receiver? object.span (← infer scope none object)
      let s ← indexSignature scope recv Builtin.setMethod 2 m.span
      requirePassed s.params[0]? (← infer scope s.params[0]? position) position.span
      let got ← infer scope s.params[1]? value
      requirePassed s.params[1]? got value.span
      return got
    | .assign _ target _ => reject target.span .badTarget
    | .member _ object property => do
      let recv ←
        if object.isParent then some <$> parentReceiver scope object.span
        else receiver? object.span (← infer scope none object)
      match recv with
      | none => fresh property.text
      | some recv => (← useMember scope recv property.text property.span).type
    | .index m object position => do
      let recv ←
        if object.isParent then some <$> parentReceiver scope object.span
        else receiver? object.span (← infer scope none object)
      let s ← indexSignature scope recv Builtin.getMethod 1 m.span
      requirePassed s.params[0]? (← infer scope s.params[0]? position) position.span
      return s.result
    | .call m (.parent pm) args => do
      let s ← parentConstructor scope pm.span args.length m.span
      passAll scope s.params args
      return s.result
    | .call m (.member cm object property) args => do
      let recv ←
        if object.isParent then some <$> parentReceiver scope object.span
        else receiver? object.span (← infer scope none object)
      let s ← memberSignature scope recv cm.span property args.length m.span
      passAll scope s.params args
      return s.result
    | .call m callee args => do
      let t ← infer scope none callee
      let s ← valueSignature callee.text.shown t args.length m.span callee.span
      passAll scope s.params args
      return s.result
    | .create m type args => do
      let (d, typeArgs) ← constructed type expected
      let s ← constructionSignature scope d typeArgs args.length m.span
      passAll scope s.params args
      return s.result
    | .array m items => do
      let want := expectedElement expected
      arrayType m.span (← inferElements scope want.isSome want items)
    | .lambda _ params result body => do
      let want := expectedFunction expected params.length
      let bindings ← inferParams scope ((want.map (·.1)).getD []) params
      let declared ←
        match result with
        | some t => some <$> written t
        | none => pure (want.map (·.2))
      let result ← inferBody (scope.enter bindings) declared body
      return .function (bindings.map (·.type)) result
    | .markup ⟨_, _, attributes, children, _⟩ => do
      inferAttributes scope attributes
      inferChildren scope children
      markupType

/-- Types arguments, each of which has to fit the type at its place. -/
def passAll (scope : Scope) (wants : List Ty) : List Expr → Analysis Unit
  | [] => pure ()
  | e :: es => do
    requirePassed wants.head? (← infer scope wants.head? e) e.span
    passAll scope wants.tail es

/-- Types the elements of an array literal; `element` is their type so far. -/
def inferElements (scope : Scope) (declared : Bool) (element : Option Ty) :
    List Expr → Analysis (Option Ty)
  | [] => return element
  | e :: es => do
    let t ← infer scope element e
    inferElements scope declared (some (← joinElement declared e.span element t)) es

/-- Types the parameters of a lambda; default values do not see the other parameters. -/
def inferParams (scope : Scope) (wants : List Ty) : List Param → Analysis (List Binding)
  | [] => return []
  | ⟨_, name, type, fallback⟩ :: ps => do
    let t ← paramType name type wants.head?
    inferDefault scope name.text t fallback
    return ⟨name.text, t, false⟩ :: (← inferParams scope wants.tail ps)

/-- Types a default value. -/
def inferDefault (scope : Scope) (name : String) (want : Ty) : Option Expr → Analysis Unit
  | none => pure ()
  | some e => do
    let t ← infer scope (some want) e
    requireAccepts want t e.span (.badDefault name want t)

/-- Types the body of a lambda; the result is what the lambda gives. -/
def inferBody (scope : Scope) (declared : Option Ty) : LambdaBody → Analysis Ty
  | .value e => do
    let t ← infer scope declared e
    match declared with
    | none => return t
    | some d =>
      if d.isVoid then return d
      else
        requireAccepts d t e.span (.badLambdaResult t d)
        return d
  | .block b => do
    let d ←
      match declared with
      | some d => pure d
      | none => fresh "R"
    expecting d (checkBlock scope b)
    return d

/-- Types the values of attributes. -/
def inferAttributes (scope : Scope) : List Attribute → Analysis Unit
  | [] => pure ()
  | ⟨_, _, value⟩ :: as => do
    let _ ← infer scope none value
    inferAttributes scope as

/-- Types what stands between tags. -/
def inferChildren (scope : Scope) : List Child → Analysis Unit
  | [] => pure ()
  | .element ⟨m, _, attributes, children, _⟩ :: cs => do
    inferAttributes scope attributes
    inferChildren scope children
    note m.span (← markupType)
    inferChildren scope cs
  | .text .. :: cs => inferChildren scope cs
  | .hole _ e :: cs => do
    let _ ← infer scope none e
    inferChildren scope cs

/-- Types the statements of a block in a frame of their own. -/
def checkBlock (scope : Scope) : Block → Analysis Unit
  | ⟨_, statements⟩ => do
    let _ ← checkAll (scope.enter []) statements

/-- Types statements one after the other. -/
def checkAll (scope : Scope) : List Stmt → Analysis Scope
  | [] => return scope
  | s :: ss => do
    let scope ← check scope s
    checkAll scope ss

/-- Types the arms of a selection on a subject of that type. -/
def checkArms (scope : Scope) (subject : Ty) : List Arm → Analysis Unit
  | [] => pure ()
  | ⟨_, value, body⟩ :: as => do
    let t ← infer scope (some subject) value
    requireAccepts subject t value.span (.badCase t subject)
    checkBlock scope body
    checkArms scope subject as

/-- Types a statement; the result is the scope after it. -/
def check (scope : Scope) (s : Stmt) : Analysis Scope := do
  match s with
  | .does _ e =>
    let _ ← infer scope none e
    return scope
  | .binds _ name type value =>
    require (!scope.isLocal name.text) name.span (.redeclared name.text)
    let declared ←
      match type with
      | some t => some <$> written t
      | none => pure none
    let got ←
      match value with
      | some e => do
        let t ← infer scope declared e
        pure (some (e.span, t))
      | none => pure none
    return scope.define ⟨name.text, ← boundType name.text declared got, false⟩
  | .block b =>
    checkBlock scope b
    return scope
  | .branch _ condition yes no =>
    let t ← infer scope (some .boolean) condition
    requireAccepts .boolean t condition.span (.badCondition t)
    checkBlock scope yes
    match no with
    | some s =>
      let _ ← check scope s
      return scope
    | none => return scope
  | .select _ subject arms fallback =>
    let t ← infer scope none subject
    checkArms scope t arms
    match fallback with
    | some b =>
      checkBlock scope b
      return scope
    | none => return scope
  | .each _ item iterable body =>
    let t ← elementType iterable.span (← infer scope none iterable)
    checkBlock (scope.enter [⟨item.text, t, false⟩]) body
    return scope
  | .returns m value =>
    let want := (← read).result
    match value with
    | none =>
      require (mayReturnNothing want) m.span (.missingResult want)
      return scope
    | some e =>
      require (!want.isVoid) e.span .voidResult
      let t ← infer scope (some want) e
      requireAccepts want t e.span (.badResult t want)
      return scope
  | .declares d => reject d.span .nestedDeclaration
  | .uses m .. => reject m.span .nestedImport

end

attribute [grind =] infer passAll inferElements inferParams inferDefault inferBody inferAttributes inferChildren checkBlock
  checkAll checkArms check

end ClassScript.Typing
