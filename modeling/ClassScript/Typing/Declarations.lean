import ClassScript.Syntax.Tree
import ClassScript.Typing.Expressions

/-!
From declarations to symbols: all names first, then supertypes, then members, then what only initial
and default values tell. Declarations may refer to each other in any order. A class conforms if it
has, for every method of the interfaces that it or an ancestor implements, an instance method of the
same arity whose signature the interface accepts; a method with a default body may be left out.
-/

namespace ClassScript.Typing

/-- Adds a declaration that has only its name and type parameters. -/
def register (r : Registry) (file : String) (d : Declaration) : Analysis Registry :=
  inFile file do
    require (r.find? d.name.text).isNone d.span (.alreadyDeclared d.name.text)
    let params ← d.typeParams.mapM fun p => freshVar p.text
    return r ++ [⟨⟨d.name.text, d.isInterface⟩, file, d, params, none, [], [], []⟩]

/-- Works on a declaration in its file and with its type parameters in scope. -/
def inDecl {α : Type} (d : DeclSymbol) (x : Analysis α) : Analysis α :=
  inFile d.file (withTypeParams d.params x)

/-- A supertype that has to be an interface. -/
def writtenInterface (t : TypeExpr) (fault : TypeFault) : Analysis (Nominal × List Ty) := do
  match ← written t with
  | .ref n args => if n.isInterface then return (n, args) else reject t.span fault
  | _ => reject t.span fault

/-- A supertype that has to be a class. -/
def writtenClass (t : TypeExpr) (fault : TypeFault) : Analysis (Nominal × List Ty) := do
  match ← written t with
  | .ref n args => if n.isInterface then reject t.span fault else return (n, args)
  | _ => reject t.span fault

/-- Adds the supertypes of a declaration. -/
def withSupers (d : DeclSymbol) : Analysis DeclSymbol :=
  inDecl d do
    match d.decl.heading with
    | .ofClass _ parent interfaces =>
      let parent ←
        match parent with
        | some t => some <$> writtenClass t (.badSuperclass d.name t.text)
        | none => pure none
      let interfaces ← interfaces.mapM fun t => writtenInterface t (.badInterface d.name t.text)
      return { d with parent, interfaces }
    | .ofInterface parents =>
      let interfaces ← parents.mapM fun t => writtenInterface t (.badExtension d.name t.text)
      return { d with interfaces }

/-- The symbol of a field, with its type if one is written. -/
def fieldSymbol (owner : Nominal) (f : Field) : Analysis FieldSymbol := do
  let type ←
    match f.type with
    | some t => some <$> written t
    | none => pure none
  return ⟨f.name.text, type, owner, f⟩

/-- The symbols of parameters; behind one with a default value all have one. -/
def paramSymbols (afterDefault : Bool) : List Param → Analysis (List ParamSymbol)
  | [] => return []
  | p :: ps => do
    require (p.fallback.isSome || !afterDefault) p.mark.span (.requiredAfterDefault p.name.text)
    let t ← writtenOr p.name.text p.type
    return ⟨p.name.text, t, none, p⟩ :: (← paramSymbols (afterDefault || p.fallback.isSome) ps)

/-- The result type of a method. -/
def resultType (m : Method) : Analysis Ty := do
  match m.result with
  | none => return .void
  | some t =>
    require (!m.isConstructor) t.span .constructorResult
    written t

/-- Whether a method of a declaration may be left without a body. -/
def mayLackBody (d : Declaration) (m : Method) : Bool :=
  d.isInterface || d.isNative || Annotation.has m.annotations Annotation.native

/-- The symbol of a method. -/
def methodSymbol (d : DeclSymbol) (m : Method) : Analysis MethodSymbol := do
  require (!(m.isConstructor && m.modifiers.isStatic)) m.mark.span .staticConstructor
  require (!m.isConstructor || m.typeParams.isEmpty) m.mark.span .genericConstructor
  let typeParams ← m.typeParams.mapM fun p => freshVar p.text
  withTypeParams typeParams do
    let params ← paramSymbols false m.params
    let result ← resultType m
    require (m.body.isSome || mayLackBody d.decl m) m.mark.span (.missingBody m.name.text d.name)
    return ⟨m.name.text, typeParams, params, result, d.nominal, m⟩

/-- Adds the members of a declaration. -/
def withMembers (d : DeclSymbol) : Analysis DeclSymbol :=
  inDecl d do
    let fields ← d.decl.fields.mapM (fieldSymbol d.nominal)
    let methods ← d.decl.methods.mapM (methodSymbol d)
    return { d with fields, methods }

/-- The names of all declarations, superclasses ahead of their subclasses. -/
def parentsFirst (r : Registry) : List String :=
  r.foldl
    (fun names d =>
      names ++ ((r.ancestors d).reverse.map (·.name)).filter fun n => !names.contains n)
    []

/-- The scope of the members of a declaration inside another scope. -/
def memberScope (outer : Scope) (d : DeclSymbol) (isStatic : Bool) : Scope :=
  outer.ofOwner d.nominal d.selfType Builtin.selfName (isStatic && !d.nominal.isInterface)

/-- The type of a field for which none is written: that of its initial value, or `mixed`. Fields of
interfaces have no initial value. -/
def initialType (d : DeclSymbol) (f : FieldSymbol) : Analysis Ty := do
  match f.decl.init with
  | none => return .mixed
  | some e =>
    if d.nominal.isInterface then return .mixed
    else
      let t ← infer (memberScope .global d f.isStatic) none e
      if t.isNull then return (← fresh f.name).orNull else return t

/-- Settles the types of the fields for which none is written, one after the other, so that later
ones see the earlier ones. -/
def settleFields (name : String) : List FieldSymbol → Registry → Analysis Registry
  | [], r => return r
  | f :: fs, r => do
    match f.type, r.find? name with
    | none, some d =>
      let t ← knowing r (inDecl d (initialType d f))
      let settle (g : FieldSymbol) := if g.name == f.name then { g with type := some t } else g
      settleFields name fs (r.update name fun d => { d with fields := d.fields.map settle })
    | _, _ => settleFields name fs r

/-- A parameter with the type of its default value, which is typed without an instance. -/
def settleParam (d : DeclSymbol) (p : ParamSymbol) : Analysis ParamSymbol := do
  match p.decl.fallback with
  | none => return p
  | some e =>
    let t ← infer (memberScope .global d true) (some p.type) e
    requireAccepts p.type t e.span (.badDefault p.name p.type t)
    return { p with defaultType := some t }

/-- A method with the types of its default values. -/
def settleMethod (d : DeclSymbol) (m : MethodSymbol) : Analysis MethodSymbol :=
  withTypeParams m.typeParams do
    return { m with params := ← m.params.mapM (settleParam d) }

/-- Settles what only initial and default values tell about the declaration of that name. -/
def settle (r : Registry) (name : String) : Analysis Registry := do
  match r.find? name with
  | none => return r
  | some d =>
    let r ← settleFields name d.fields r
    match r.find? name with
    | none => return r
    | some d =>
      let methods ← knowing r (inDecl d (d.methods.mapM (settleMethod d)))
      return r.update name fun d => { d with methods }

/-- Replaces the declaration of that name by what a computation makes of it. -/
def replace (f : DeclSymbol → Analysis DeclSymbol) (r : Registry) (name : String) :
    Analysis Registry := do
  match r.find? name with
  | none => return r
  | some d =>
    let d ← knowing r (f d)
    return r.update name fun _ => d

/-- Stops if a declaration inherits from itself. -/
def requireAcyclic (r : Registry) (d : DeclSymbol) : Analysis Unit :=
  inFile d.file (require (!r.isCyclic d) d.decl.span (.cyclic d.name))

/-- The symbols of all declarations of a program. -/
def declare (p : LinkedProgram) : Analysis Registry := do
  let r : Registry ← p.declarations.foldlM (fun r (file, d) => register r file d) []
  let r : Registry ← r.names.foldlM (replace withSupers) r
  r.forM (requireAcyclic r)
  let r : Registry ← (parentsFirst r).foldlM (replace withMembers) r
  r.names.foldlM settle r

/-! ## Conformance -/

/-- A method of a class as the class sees it. -/
def seenSignature (r : Registry) (d : DeclSymbol) (m : MethodSymbol) : Ty :=
  m.signature.apply (viewSubst r d.nominal d.selfArgs m.owner)

/-- Stops unless a class implements a method of an interface. -/
def requireImplements (r : Registry) (d i : DeclSymbol) (inherited : Registry.Inherited) :
    Analysis Unit := do
  let wanted := inherited.method
  let name := wanted.name
  match r.classMethod? d name with
  | none =>
    require wanted.decl.body.isSome d.decl.span (.missingMethod d.name i.name name)
  | some m =>
    let want := wanted.signature.apply inherited.subst
    let got := seenSignature r d m
    let span := m.decl.mark.span
    require (!m.isStatic) span (.staticImplementation name i.name)
    require (m.params.length == wanted.params.length) span
      (.implementationArity name m.params.length i.name wanted.params.length)
    requireAccepts want got span (.implementationType name got i.name want)

/-- Stops unless a class has the members of an interface. -/
def requireInterface (r : Registry) (d i : DeclSymbol) : Analysis Unit := do
  let view := (r.table.viewAs d.nominal d.selfArgs i.nominal).getD []
  (r.allMethods i view).forM (requireImplements r d i)
  i.fields.forM fun f =>
    require (r.classField? d f.name).isSome d.decl.span (.missingField d.name i.name f.name)

/-- Stops unless a class conforms to its interfaces and to those of its ancestors. -/
def requireConforms (d : DeclSymbol) : Analysis Unit := do
  let r := (← read).registry
  (r.ancestors d).forM fun a =>
    a.interfaces.forM fun (n, _) =>
      match r.find? n.name with
      | some i => requireInterface r d i
      | none => pure ()

end ClassScript.Typing
