import ClassScript.Proofs.Bare
import ClassScript.Proofs.Conducted

/-!
# States without tokens and spans

The code that a state holds can be made bare (`State.bare`). Nothing that evaluation looks up in a state depends on
the tokens and spans of its code: the bare state has the same values, and the bare form of the same members.
-/

namespace ClassScript

/-! ## Parts of bare trees -/

theorem Expr.bareOption_eq (e : Option Expr) : Expr.bareOption e = e.map Expr.bare := by cases e <;> rfl

theorem Block.bareOption_eq (b : Option Block) : Block.bareOption b = b.map Block.bare := by cases b <;> rfl

@[simp]
theorem Expr.span_bare (e : Expr) : e.bare.span = Span.none := by
  cases e with
  | markup element => cases element; rfl
  | _ => rfl

@[simp]
theorem Stmt.span_bare (s : Stmt) : s.bare.span = Span.none := by
  cases s with
  | block b => cases b; rfl
  | declares d => cases d; rfl
  | _ => rfl

@[simp]
theorem TypeExpr.span_bare (t : TypeExpr) : t.bare.span = Span.none := by cases t <;> rfl

@[simp]
theorem Evaluation.headName_bare (t : TypeExpr) : headName t.bare = headName t := by
  rw [headName, TypeExpr.name?_bare, headName]

namespace Param

variable (p : Param)

@[simp]
theorem text_bare : p.bare.name.text = p.name.text := by cases p; rfl

@[simp]
theorem type_bare : p.bare.type = p.type.map TypeExpr.bare := by cases p; rfl

@[simp]
theorem fallback_bare : p.bare.fallback = p.fallback.map Expr.bare := by
  cases p
  exact Expr.bareOption_eq _

theorem requiredCount_bareAll (params : List Param) : requiredCount (bareAll params) = requiredCount params := by
  have same : (fun p : Param => p.fallback.isNone) ∘ Param.bare = fun p => p.fallback.isNone := by
    funext p
    simp
  rw [requiredCount, requiredCount, bareAll_eq, List.takeWhile_map, List.length_map, same]

theorem length_bareAll (params : List Param) : (bareAll params).length = params.length := by
  rw [bareAll_eq, List.length_map]

end Param

namespace Field

variable (f : Field)

@[simp]
theorem text_bare : f.bare.name.text = f.name.text := by cases f; rfl

@[simp]
theorem type_bare : f.bare.type = f.type.map TypeExpr.bare := by cases f; rfl

@[simp]
theorem modifiers_bare : f.bare.modifiers = f.modifiers := by cases f; rfl

@[simp]
theorem init_bare : f.bare.init = f.init.map Expr.bare := by
  cases f
  exact Expr.bareOption_eq _

end Field

namespace Method

variable (m : Method)

@[simp]
theorem text_bare : m.bare.name.text = m.name.text := by cases m; rfl

@[simp]
theorem modifiers_bare : m.bare.modifiers = m.modifiers := by cases m; rfl

@[simp]
theorem params_bare : m.bare.params = Param.bareAll m.params := by cases m; rfl

@[simp]
theorem result_bare : m.bare.result = m.result.map TypeExpr.bare := by cases m; rfl

@[simp]
theorem body_bare : m.bare.body = m.body.map Block.bare := by
  cases m
  exact Block.bareOption_eq _

end Method

namespace Declaration

variable (d : Declaration)

@[simp]
theorem text_bare : d.bare.name.text = d.name.text := by cases d; rfl

@[simp]
theorem heading_bare : d.bare.heading = d.heading.bare := by cases d; rfl

@[simp]
theorem fields_bare : d.bare.fields = Field.bareAll d.fields := by cases d; rfl

@[simp]
theorem methods_bare : d.bare.methods = Method.bareAll d.methods := by cases d; rfl

@[simp]
theorem span_bare : d.bare.span = Span.none := by cases d; rfl

@[simp]
theorem isInterface_bare : d.bare.isInterface = d.isInterface := by
  rw [isInterface, heading_bare, isInterface]
  cases d.heading <;> rfl

@[simp]
theorem isNative_bare : d.bare.isNative = d.isNative := by
  obtain ⟨mark, annotations, heading, name, typeParams, fields, methods⟩ := d
  exact List.any_map

end Declaration

/-! ## The text of a lambda -/

mutual

theorem Expr.text_bare : ∀ e : Expr, e.bare.text = e.text
  | .name _ | .number .. | .string _ | .null _ | .self _ | .parent _ => rfl
  | .boolean m _ => by simp only [Expr.bare, Expr.text, Mark.word_bare]
  | .binary _ _ left right => by
    simp only [Expr.bare, Expr.text, Expr.text_bare left, Expr.text_bare right]
  | .unary _ _ operand => by simp only [Expr.bare, Expr.text, Expr.text_bare operand]
  | .assign _ target value => by
    simp only [Expr.bare, Expr.text, Expr.text_bare target, Expr.text_bare value]
  | .member _ object _ => by simp only [Expr.bare, Expr.text, Expr.text_bare object]; rfl
  | .index _ object i => by simp only [Expr.bare, Expr.text, Expr.text_bare object, Expr.text_bare i]
  | .call _ callee args => by simp only [Expr.bare, Expr.text, Expr.text_bare callee, Expr.texts_bare args]
  | .create _ type args => by simp only [Expr.bare, Expr.text, TypeExpr.text_bare type, Expr.texts_bare args]
  | .array _ elements => by simp only [Expr.bare, Expr.text, Expr.texts_bare elements]
  | .lambda _ params _ body => by
    have names : (Param.bareAll params).map (fun p => p.name.text) = params.map fun p => p.name.text := by
      rw [Param.bareAll_eq, List.map_map]
      exact List.map_congr_left fun p _ => by rw [Function.comp_apply, Param.text_bare]
    simp only [Expr.bare, Expr.text, names, LambdaBody.text_bare body]
  | .markup e => by simp only [Expr.bare, Expr.text, Element.text_bare e]

theorem Expr.texts_bare : ∀ es : List Expr, Expr.texts (Expr.bareAll es) = Expr.texts es
  | [] => rfl
  | [e] => by simp only [Expr.bareAll, Expr.texts, Expr.text_bare e]
  | e :: f :: es => by
    have rest := Expr.texts_bare (f :: es)
    simp only [Expr.bareAll] at rest
    simp only [Expr.bareAll, Expr.texts, Expr.text_bare e, rest]

theorem LambdaBody.text_bare : ∀ b : LambdaBody, b.bare.text = b.text
  | .block _ => by simp only [LambdaBody.bare, LambdaBody.text]
  | .value e => by simp only [LambdaBody.bare, LambdaBody.text, Expr.text_bare e]

theorem Element.text_bare : ∀ e : Element, e.bare.text = e.text
  | ⟨_, tag, attributes, children, _⟩ => by
    simp only [Element.bare, Element.text, Attribute.allText_bare attributes, Child.allText_bare children]

theorem Attribute.allText_bare : ∀ as : List Attribute, Attribute.allText (Attribute.bareAll as) = Attribute.allText as
  | [] => rfl
  | ⟨_, _, value⟩ :: rest => by
    simp only [Attribute.bareAll, Attribute.allText, Expr.text_bare value, Attribute.allText_bare rest]

theorem Child.allText_bare : ∀ cs : List Child, Child.allText (Child.bareAll cs) = Child.allText cs
  | [] => rfl
  | .element e :: rest => by
    simp only [Child.bareAll, Child.allText, Element.text_bare e, Child.allText_bare rest]
  | .text _ _ :: rest => by simp only [Child.bareAll, Child.allText, Child.allText_bare rest]
  | .hole _ e :: rest => by
    simp only [Child.bareAll, Child.allText, Expr.text_bare e, Child.allText_bare rest]

end

/-! ## Bare states -/

/-- The diagnostic without its span. -/
def Diagnostic.bare (d : Diagnostic) : Diagnostic := { d with span := Span.none }

/-- The top-level statement without tokens and spans. -/
def Placed.bare (p : Placed) : Placed := { p with statement := p.statement.bare }

/-- The closure without tokens and spans. -/
def Closure.bare (c : Closure) : Closure :=
  { c with params := Param.bareAll c.params, result := c.result.map TypeExpr.bare, body := c.body.bare }

/-- The class without tokens and spans. -/
def ClassDef.bare (c : ClassDef) : ClassDef := { c with decl := c.decl.bare }

/-- The heap without tokens and spans. -/
def Heap.bare (h : Heap) : Heap :=
  { h with classes := h.classes.map ClassDef.bare, closures := h.closures.map Closure.bare }

namespace Evaluation

/-- The interface without tokens and spans. -/
def InterfaceDef.bare (i : InterfaceDef) : InterfaceDef := { i with decl := i.decl.bare }

/-- The method without tokens and spans. -/
def FoundMethod.bare (m : FoundMethod) : FoundMethod := { m with decl := m.decl.bare }

/-- The state without tokens and spans. -/
def State.bare (s : State) : State :=
  { s with heap := s.heap.bare, interfaces := s.interfaces.map InterfaceDef.bare }

@[simp]
theorem FoundMethod.name_bare (m : FoundMethod) : m.bare.name = m.name := m.decl.text_bare

@[simp]
theorem FoundMethod.isStatic_bare (m : FoundMethod) : m.bare.isStatic = m.isStatic := by
  rw [isStatic, isStatic, bare, Method.modifiers_bare]

@[simp]
theorem FoundMethod.hasBody_bare (m : FoundMethod) : m.bare.hasBody = m.hasBody := by
  rw [hasBody, hasBody, bare, Method.body_bare, Option.isSome_map]

/-- What is asked of a method for it to be kept does not depend on its tokens and spans. -/
theorem FoundMethod.filter_bare {p : FoundMethod → Bool} (same : ∀ m, p (bare m) = p m) (found : Option FoundMethod) :
    (found.map bare).filter p = (found.filter p).map bare := by
  cases found with
  | none => rfl
  | some m =>
    rw [Option.map_some, Option.filter_some, Option.filter_some, same]
    split <;> rfl

@[simp]
theorem coerce_bare (type : Option TypeExpr) (v : Value) : coerce (type.map TypeExpr.bare) v = coerce type v := by
  have same : (type.map TypeExpr.bare).bind TypeExpr.name? = type.bind TypeExpr.name? := by
    cases type with
    | none => rfl
    | some t => exact t.name?_bare
  unfold coerce
  rw [same]

end Evaluation

namespace ClassDef

variable (c : ClassDef)

@[simp]
theorem fields_bare : c.bare.fields = c.fields.map Field.bare := by
  unfold fields bare
  split
  · rw [Declaration.fields_bare, Field.bareAll_eq]
  · rfl

@[simp]
theorem instanceFields_bare : c.bare.instanceFields = c.instanceFields.map Field.bare := by
  have same : (fun f : Field => !f.modifiers.isStatic) ∘ Field.bare = fun f => !f.modifiers.isStatic := by
    funext f
    simp
  rw [instanceFields, instanceFields, fields_bare, List.filter_map, same]

@[simp]
theorem method?_bare (name : String) : c.bare.method? name = (c.method? name).map Method.bare := by
  have same : (fun m : Method => m.name.text == name) ∘ Method.bare = fun m => m.name.text == name := by
    funext m
    simp
  unfold method? bare
  split
  · rw [Declaration.methods_bare, Method.bareAll_eq, List.find?_map, same]
  · rfl

end ClassDef

namespace Heap

variable (h : Heap)

@[simp]
theorem cls_bare (id : Nat) : h.bare.cls id = (h.cls id).bare := by
  unfold cls bare
  rw [Array.getElem?_map]
  cases h.classes[id]? <;> rfl

theorem object_bare (id : Nat) : h.bare.object id = h.object id := rfl

@[simp]
theorem closure_bare (id : Nat) : h.bare.closure id = (h.closure id).bare := by
  unfold closure bare
  rw [Array.getElem?_map]
  cases h.closures[id]? <;> rfl

@[simp]
theorem chain_bare (id : Nat) : h.bare.chain id = h.chain id := by
  have from_ (fuel id : Nat) : h.bare.chainFrom fuel id = h.chainFrom fuel id := by
    induction fuel generalizing id with
    | zero => rfl
    | succ fuel ih =>
      unfold chainFrom
      rw [cls_bare]
      dsimp only [ClassDef.bare]
      cases (h.cls id).parent with
      | none => rfl
      | some p => exact congrArg (id :: ·) (ih p)
  have size : h.bare.classes.size = h.classes.size := Array.size_map
  rw [chain, size, from_, chain]

@[simp]
theorem lineage_bare (id : Nat) : h.bare.lineage id = (h.lineage id).map ClassDef.bare := by
  rw [lineage, chain_bare, lineage, List.map_map]
  exact List.map_congr_left fun c _ => h.cls_bare c

@[simp]
theorem typeName_bare (v : Value) : h.bare.typeName v = h.typeName v := by
  have name (id : Nat) : (h.bare.cls id).name = (h.cls id).name := by
    rw [cls_bare]
    rfl
  cases v with
  | object id => exact name _
  | classRef c n => exact congrArg ("class " ++ ·) (name c)
  | host x => cases x <;> rfl
  | _ => rfl

@[simp]
theorem equal_bare (v w : Value) : h.bare.equal v w = h.equal v w := by
  cases v <;> cases w <;> rfl

theorem closureText_bare (c : Closure) : closureText c.bare = closureText c := by
  have same : (Expr.lambda default c.bare.params c.bare.result c.bare.body).text =
      (Expr.lambda default c.params c.result c.body).text := Expr.text_bare (.lambda default c.params c.result c.body)
  rw [closureText, same, closureText]

theorem fieldNames_bare (id : Nat) :
    (h.bare.lineage id).flatMap (fun c => c.instanceFields.map (·.name.text)) =
      (h.lineage id).flatMap fun c => c.instanceFields.map (·.name.text) := by
  have same : (fun f : Field => f.name.text) ∘ Field.bare = fun f => f.name.text := funext Field.text_bare
  rw [lineage_bare, List.flatMap_map]
  simp only [ClassDef.instanceFields_bare, List.map_map, same]

theorem textWithin_bare (fuel : Nat) :
    h.bare.textWithin fuel = h.textWithin fuel ∧ h.bare.hostTextWithin fuel = h.hostTextWithin fuel := by
  induction fuel with
  | zero =>
    refine ⟨?_, ?_⟩
    · funext v
      simp only [textWithin]
    · funext x
      simp only [hostTextWithin]
  | succ fuel ih =>
    obtain ⟨values, hosts⟩ := ih
    refine ⟨funext fun v => ?_, funext fun x => ?_⟩
    · have method (id : Nat) : h.bare.method id = h.method id := rfl
      cases v <;>
        simp only [textWithin, values, hosts, object_bare, method, fieldNames_bare, cls_bare, ClassDef.bare, closure_bare,
          closureText_bare]
    · have arrays : h.bare.arrays = h.arrays := rfl
      have cursor (id : Nat) : h.bare.cursorText (h.bare.cursor id) = h.cursorText (h.cursor id) := rfl
      have node (id : Nat) : h.bare.node id = h.node id := rfl
      cases x <;> simp only [hostTextWithin, values, arrays, cursor, node]

@[simp]
theorem text?_bare (v : Value) : h.bare.text? v = h.text? v := congrFun (h.textWithin_bare h.nesting).1 v

theorem addValue_bare (fuel : Nat) : h.bare.addValue fuel = h.addValue fuel := by
  induction fuel with
  | zero => rfl
  | succ fuel ih =>
    funext n v
    have node (id : Nat) : h.bare.node id = h.node id := rfl
    have arrays : h.bare.arrays = h.arrays := rfl
    cases v <;> simp only [addValue, ih, text?_bare, object_bare, node, arrays]

end Heap

/-- What is found is mapped if what each item gives is. -/
theorem findSome?_eq_map {α β γ : Type} {f : α → Option β} {g : β → γ} {f' : α → Option γ}
    (each : ∀ a, f' a = (f a).map g) (items : List α) : items.findSome? f' = (items.findSome? f).map g := by
  rw [List.map_findSome?]
  exact congrArg (items.findSome? ·) (funext each)

namespace Evaluation

theorem pass_bare (h : Heap) (kind : ParamKind) (v : Value) : kind.pass h.bare v = kind.pass h v := by
  cases kind <;> cases v <;> simp only [ParamKind.pass, Heap.typeName_bare]

namespace State

variable (s : State)

@[simp]
theorem interface?_bare (name : String) : s.bare.interface? name = (s.interface? name).map InterfaceDef.bare :=
  List.find?_map

/-- The method of a search without tokens and spans. -/
def bareFound (r : List String × Option Method) : List String × Option Method := (r.1, r.2.map Method.bare)

/-- The search for a default method comes to the same, whatever was seen before. -/
theorem searchDefault_bare (method : String) (fuel : Nat) (seen : List String) (name : String) :
    s.bare.searchDefault method fuel seen name = bareFound (s.searchDefault method fuel seen name) := by
  induction fuel generalizing seen name with
  | zero => rfl
  | succ fuel ih =>
    have folded (parents : List String) (r : List String × Option Method) :
        parents.foldl (searchStep s.bare method fuel) (bareFound r) =
          bareFound (parents.foldl (searchStep s method fuel) r) := by
      induction parents generalizing r with
      | nil => rfl
      | cons parent parents rest =>
        have step : searchStep s.bare method fuel (bareFound r) parent = bareFound (searchStep s method fuel r parent) := by
          obtain ⟨seen, _ | m⟩ := r
          · exact ih seen parent
          · rfl
        rw [List.foldl_cons, List.foldl_cons, step, rest]
    by_cases unseen : name ∈ seen
    · simp [searchDefault, unseen, bareFound]
    · cases known : s.interface? name with
      | none => simp [searchDefault, unseen, known, bareFound]
      | some i =>
        have same : (fun m : Method => m.name.text == method && m.body.isSome) ∘ Method.bare =
            fun m => m.name.text == method && m.body.isSome := by
          funext m
          simp
        have methods : (i.bare.decl.methods.find? fun m => m.name.text == method && m.body.isSome) =
            (i.decl.methods.find? fun m => m.name.text == method && m.body.isSome).map Method.bare := by
          rw [InterfaceDef.bare, Declaration.methods_bare, Method.bareAll_eq, List.find?_map, same]
        have known' : s.bare.interface? name = some i.bare := by
          rw [interface?_bare, known]
          rfl
        cases own : i.decl.methods.find? fun m => m.name.text == method && m.body.isSome with
        | some m =>
          rw [own] at methods
          simp [searchDefault, unseen, known, known', own, methods, bareFound]
        | none =>
          rw [own] at methods
          rw [searchDefault_parents fuel unseen known own, searchDefault_parents fuel unseen known' methods]
          exact folded i.parents (name :: seen, none)

@[simp]
theorem method?_bare (cls : Nat) (name : String) :
    s.bare.method? cls name = (s.method? cls name).map FoundMethod.bare := by
  have chain : s.bare.heap.chain cls = s.heap.chain cls := s.heap.chain_bare cls
  have own (c : Nat) :
      (((s.bare.heap.cls c).method? name).bind fun m =>
          if m.isConstructor then none else some (⟨m, some c⟩ : FoundMethod)) =
        (((s.heap.cls c).method? name).bind fun m =>
          if m.isConstructor then none else some (⟨m, some c⟩ : FoundMethod)).map FoundMethod.bare := by
    have found : (s.bare.heap.cls c).method? name = ((s.heap.cls c).method? name).map Method.bare := by
      rw [State.bare, Heap.cls_bare, ClassDef.method?_bare]
    rw [found]
    cases (s.heap.cls c).method? name with
    | none => rfl
    | some m =>
      dsimp only [Option.map_some, Option.bind_some]
      rw [Method.isConstructor_bare]
      split <;> rfl
  have inherited (c : Nat) :
      ((s.bare.heap.cls c).interfaces.findSome? fun i => (s.bare.defaultMethod? i name).map fun m =>
          (⟨m, none⟩ : FoundMethod)) =
        ((s.heap.cls c).interfaces.findSome? fun i => (s.defaultMethod? i name).map fun m =>
          (⟨m, none⟩ : FoundMethod)).map FoundMethod.bare := by
    have interfaces : (s.bare.heap.cls c).interfaces = (s.heap.cls c).interfaces := by
      rw [State.bare, Heap.cls_bare]
      rfl
    have default (i : String) : s.bare.defaultMethod? i name = (s.defaultMethod? i name).map Method.bare := by
      have count : s.bare.interfaces.length = s.interfaces.length := List.length_map _
      rw [defaultMethod?, count, searchDefault_bare]
      rfl
    rw [interfaces]
    refine findSome?_eq_map (fun i => ?_) _
    rw [default, Option.map_map, Option.map_map]
    rfl
  unfold method?
  dsimp only
  rw [chain, findSome?_eq_map own, findSome?_eq_map inherited]
  cases (s.heap.chain cls).findSome? _ <;> rfl

@[simp]
theorem constructor?_bare (cls : Nat) : s.bare.constructor? cls = (s.constructor? cls).map FoundMethod.bare := by
  have chain : s.bare.heap.chain cls = s.heap.chain cls := s.heap.chain_bare cls
  rw [constructor?, chain]
  refine findSome?_eq_map (fun c => ?_) _
  have found : (s.bare.heap.cls c).method? Builtin.constructorName =
      ((s.heap.cls c).method? Builtin.constructorName).map Method.bare := by
    rw [State.bare, Heap.cls_bare, ClassDef.method?_bare]
  rw [found, Option.map_map, Option.map_map]
  rfl

@[simp]
theorem hostAncestor?_bare (cls : Nat) : s.bare.hostAncestor? cls = s.hostAncestor? cls := by
  have lineage : s.bare.heap.lineage cls = (s.heap.lineage cls).map ClassDef.bare := s.heap.lineage_bare cls
  rw [hostAncestor?, lineage, List.findSome?_map]
  rfl

@[simp]
theorem static?_bare (cls : Nat) (name : String) : s.bare.static? cls name = s.static? cls name := by
  have chain : s.bare.heap.chain cls = s.heap.chain cls := s.heap.chain_bare cls
  have held (c : Nat) : (s.bare.heap.cls c).static? name = (s.heap.cls c).static? name := by
    rw [State.bare, Heap.cls_bare]
    rfl
  rw [static?, chain, static?]
  simp only [held]

@[simp]
theorem instanceField?_bare (cls : Nat) (name : String) :
    s.bare.instanceField? cls name = (s.instanceField? cls name).map Field.bare := by
  have lineage : s.bare.heap.lineage cls = (s.heap.lineage cls).map ClassDef.bare := s.heap.lineage_bare cls
  have same : (fun f : Field => f.name.text == name) ∘ Field.bare = fun f => f.name.text == name := by
    funext f
    simp
  rw [instanceField?, lineage, List.findSome?_map]
  refine findSome?_eq_map (fun c => ?_) _
  rw [Function.comp_apply, ClassDef.instanceFields_bare, List.find?_map, same]

@[simp]
theorem parentContext?_bare : s.bare.parentContext? = s.parentContext? := by
  have parent (c : Nat) : (s.bare.heap.cls c).parent = (s.heap.cls c).parent := by
    rw [State.bare, Heap.cls_bare]
    rfl
  unfold parentContext?
  simp only [parent]
  rfl

end State

end Evaluation

end ClassScript
