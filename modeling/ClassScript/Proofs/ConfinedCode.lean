import ClassScript.Proofs.Confined
import ClassScript.Typing.Expressions

/-!
Typing of expressions and statements stays within their bounds: faults are placed at spans of their nodes, and private
members are used where the declaration around them may use them (`infer_confined`, `check_confined`).
-/

namespace ClassScript.Typing

variable {α : Type} {c : Context} {spans : List Span} {around : Option Nominal} {scope : Scope}

/-! ## Parts of expressions and statements -/

theorem nameType_confined (id : Name) (within : id.span ∈ spans) : Confined spans around c (nameType scope id) := by
  unfold nameType
  split
  · exact .pure _
  · refine Stays.read ?_
    dsimp only
    split
    · exact .pure _
    · exact Confined.reject within

theorem assignedName_confined (id : Name) (within : id.span ∈ spans) :
    Confined spans around c (assignedName scope id) := by
  unfold assignedName
  split
  · exact (Confined.require within).bind fun _ _ => (Stays.note _ _).bind fun _ _ => .pure _
  · exact (nameType_confined id within).bind fun _ _ => Confined.reject within

theorem assignedMember_confined (recv : Option Receiver) {span : Span} (property : Name)
    (within : property.span ∈ spans) : Confined spans scope.owner c (assignedMember scope recv span property) := by
  unfold assignedMember
  split
  · exact Stays.fresh _
  · refine (useMember_confined _ _ within).bind fun m _ => ?_
    exact (requireAssignable_confined m _ within).bind fun _ _ => (type_confined m).noting

theorem binaryType?_confined (op : BinaryOp) (left right : Ty) :
    Confined spans around c (binaryType? op left right) := by
  have both (t : Ty) : Confined spans around c (do return (← accepts t left) && (← accepts t right)) :=
    (Stays.accepts _ _).bind fun _ _ => (Stays.accepts _ _).bind fun _ _ => .pure _
  unfold binaryType?
  cases op
  case add =>
    dsimp only
    split
    · exact .pure _
    · exact .pure _
    · exact (both _).bind fun _ _ => .pure _
  case equal | notEqual => exact (Stays.accepts _ _).bind fun _ _ => .pure _
  all_goals exact (both _).bind fun _ _ => .pure _

theorem binaryType_confined {span : Span} (within : span ∈ spans) (op : BinaryOp) (left right : Ty) :
    Confined spans around c (binaryType span op left right) := by
  refine (binaryType?_confined op left right).bind fun t _ => ?_
  split
  · exact .pure _
  · exact Confined.reject within

theorem argsFromExpected_confined (d : DeclSymbol) (expected : Option Ty) :
    Confined spans around c (argsFromExpected d expected) := by
  have unknown : Confined spans around c (d.params.mapM fun v => fresh v.name) := Stays.mapM fun _ _ => Stays.fresh _
  unfold argsFromExpected
  dsimp only
  split
  · split
    · exact .pure _
    · exact unknown
  · exact unknown

theorem constructed_confined (t : TypeExpr) (expected : Option Ty) (within : t.spans ⊆ spans) :
    Confined spans around c (constructed t expected) := by
  have here := within t.span_mem_spans
  refine (Confined.require here).bind fun _ _ => Stays.read ?_
  dsimp only
  refine (written_confined t within).bind fun type _ => ?_
  split
  · refine (Confined.require here).bind fun _ _ => ?_
    split
    · exact Confined.reject here
    · split
      · exact (argsFromExpected_confined _ _).bind fun _ _ => .pure _
      · exact Stays.bind (.pure _) fun _ _ => .pure _
  · exact Confined.reject here

theorem constructionSignature_confined (d : DeclSymbol) (args : List Ty) (count : Nat) {span : Span}
    (within : span ∈ spans) : Confined spans scope.owner c (constructionSignature scope d args count span) := by
  refine Stays.read ?_
  dsimp only
  split
  · refine (Confined.require within).bind fun _ allowed => ?_
    have permitted := permitted_of_seesPrivate (u := ⟨c.file, span, _, _, false⟩) (gives_require allowed)
    refine (Confined.noteAccess within permitted).bind fun _ _ => ?_
    exact (constructorSignature_confined _ _ _ _ within).bind fun _ _ => .pure _
  · exact (constructorSignature_confined _ _ _ _ within).bind fun _ _ => .pure _

/-- The superclass of the class around a scope is the one in its heading. -/
theorem parentOf?_eq_some {r : Registry} {base : DeclSymbol} {args : List Ty}
    (found : parentOf? r scope = some (base, args)) :
    ∃ d n, scope.owner.bind (fun n => r.find? n.name) = some d ∧ d.parent = some (n, args) ∧
      r.find? n.name = some base := by
  unfold parentOf? at found
  obtain ⟨owner, isOwner, found⟩ := Option.bind_eq_some_iff.1 found
  obtain ⟨d, known, found⟩ := Option.bind_eq_some_iff.1 found
  obtain ⟨⟨n, args'⟩, isParent, found⟩ := Option.bind_eq_some_iff.1 found
  obtain ⟨base', known', same⟩ := Option.bind_eq_some_iff.1 found
  cases same
  exact ⟨d, n, by rw [isOwner, Option.bind_some, known], isParent, known'⟩

theorem parentConstructor_confined {parent : Span} (count : Nat) {span : Span} (written : parent ∈ spans)
    (within : span ∈ spans) : Confined spans scope.owner c (parentConstructor scope parent count span) := by
  refine Stays.read ?_
  dsimp only
  split
  · next base args found =>
    obtain ⟨d, n, isAround, isParent, known⟩ := parentOf?_eq_some found
    refine (Confined.require written).bind fun _ _ => (Stays.note _ _).bind fun _ _ => ?_
    split
    · next m isConstructor =>
      have permitted : Permitted c.registry scope.owner ⟨c.file, span, m.owner, m.isPrivate, true⟩ :=
        .through rfl isAround isParent known isConstructor rfl
      refine (Confined.noteAccess within permitted).bind fun _ _ => ?_
      exact (constructorSignature_confined _ _ _ _ within).bind fun _ _ => .pure _
    · exact (constructorSignature_confined _ _ _ _ within).bind fun _ _ => .pure _
  · exact Confined.reject written

theorem memberSignature_confined (recv : Option Receiver) {callee : Span} (property : Name) (count : Nat) {span : Span}
    (called : callee ∈ spans) (named : property.span ∈ spans) (within : span ∈ spans) :
    Confined spans scope.owner c (memberSignature scope recv callee property count span) := by
  unfold memberSignature
  split
  · exact (Stays.fresh _).bind fun _ _ => .pure _
  · refine (useMember_confined _ _ named).bind fun m _ => ((type_confined m).noting).bind fun _ _ => ?_
    split
    · exact methodSignature_confined _ _ _ _ within
    · exact valueSignature_confined _ _ _ within called

theorem arrayRef_confined {span : Span} (within : span ∈ spans) (element : Ty) :
    Confined spans around c (do
      match ← builtinRef? Builtin.arrayClass [element] with
      | some t => return t
      | none => reject span (.noArrayClass Builtin.arrayClass)) := by
  refine (builtinRef?_confined _ _).bind fun t _ => ?_
  split
  · exact .pure _
  · exact Confined.reject within

theorem arrayType_confined {span : Span} (within : span ∈ spans) (element : Option Ty) :
    Confined spans around c (arrayType span element) := by
  unfold arrayType
  split
  · exact (Stays.fresh _).bind fun element _ => arrayRef_confined within element
  · exact (Stays.fresh _).bind fun element _ => arrayRef_confined within element
  · exact Stays.bind (.pure _) fun element _ => arrayRef_confined within element

theorem joinElement_confined (declared : Bool) {span : Span} (within : span ∈ spans) (element : Option Ty) (t : Ty) :
    Confined spans around c (joinElement declared span element t) := by
  unfold joinElement
  split
  · exact .pure _
  · refine (Stays.accepts _ _).bind fun _ _ => ?_
    refine Stays.ite (fun _ => .pure _) fun _ => ?_
    exact Stays.ite (fun _ => Confined.reject within) fun _ => .pure _

theorem paramType_confined (name : Name) (type : Option TypeExpr) (want : Option Ty)
    (within : TypeExpr.spansOf? type ⊆ spans) : Confined spans around c (paramType name type want) := by
  unfold paramType
  split
  · exact written_confined _ within
  · exact .pure _
  · exact Stays.fresh _

theorem markupType_confined : Confined spans around c markupType := (builtinRef?_confined _ _).bind fun _ _ => .pure _

theorem notIterable_confined {span : Span} (within : span ∈ spans) (t : Ty) :
    Confined spans around c (do
      match ← boxed? t with
      | some d => reject span (.boxedIteration t d.name)
      | none => reject span (.notIterable t) : Analysis Ty) := by
  refine (boxed?_confined t).bind fun d _ => ?_
  split
  · exact Confined.reject within
  · exact Confined.reject within

theorem elementType_confined {span : Span} (within : span ∈ spans) (t : Ty) :
    Confined spans around c (elementType span t) := by
  unfold elementType
  dsimp only
  split
  · exact Stays.fresh _
  · refine Stays.ite (fun _ => ?_) fun _ => notIterable_confined within _
    split
    · exact .pure _
    · exact Confined.reject within
  · exact notIterable_confined within _

theorem boundType_confined (name : String) (declared : Option Ty) (value : Option (Span × Ty))
    (within : ∀ v ∈ value, v.1 ∈ spans) : Confined spans around c (boundType name declared value) := by
  unfold boundType
  split
  · exact .pure _
  · next span t =>
    have here : span ∈ spans := within (span, t) rfl
    refine (Confined.require here).bind fun _ _ => ?_
    split
    · exact (Confined.requireAccepts here).bind fun _ _ => .pure _
    · exact Stays.ite (fun _ => (Stays.fresh _).bind fun _ _ => .pure _) fun _ => .pure _

/-- What a member is looked up in: the superclass, or the value of an expression. -/
theorem received_confined {object : Expr} (within : object.spans ⊆ spans)
    (typed : Confined spans around c (infer scope none object)) {f : Option Receiver → Analysis α}
    (next : ∀ recv, Confined spans around c (f recv)) :
    Confined spans around c
      (if object.isParent then (some <$> parentReceiver scope object.span) >>= f
        else infer scope none object >>= fun t => receiver? object.span t >>= f) := by
  have here := within object.span_mem_spans
  refine Stays.ite (fun _ => ?_) fun _ => ?_
  · exact (parentReceiver_confined here).map.bind fun recv _ => next recv
  · exact typed.bind fun t _ => (receiver?_confined here t).bind fun recv _ => next recv

/-! ## The scope behind a statement -/

/-- Every result of a computation has a property. -/
def Always (Q : α → Prop) (x : Analysis α) : Prop := ∀ c a, Gives x c a → Q a

theorem always_pure {Q : α → Prop} {a : α} (holds : Q a) : Always Q (pure a) := by
  intro c b gives
  rwa [gives_pure gives]

/-- Only the last part of a sequence gives the result. -/
theorem always_bind {β : Type} {Q : β → Prop} {x : Analysis α} {f : α → Analysis β} (last : ∀ a, Always Q (f a)) :
    Always Q (x >>= f) := by
  intro c b gives
  obtain ⟨a, -, gives⟩ := gives_bind gives
  exact last a c b gives

theorem always_reject {Q : α → Prop} {span : Span} {fault : TypeFault} : Always Q (reject span fault) :=
  fun _ _ gives => absurd gives not_gives_reject

theorem owner_define (b : Binding) : (scope.define b).owner = scope.owner := by
  unfold Scope.define
  split <;> rfl

/-- A statement leaves the declaration around its scope as it is. -/
theorem check_owner (s : Stmt) : Always (fun scope' => scope'.owner = scope.owner) (check scope s) := by
  cases s with
  | does m e =>
    rw [check]
    exact always_bind fun _ => always_pure rfl
  | binds m name type value =>
    rw [check]
    refine always_bind fun _ => ?_
    cases type <;> refine always_bind fun _ => ?_ <;> cases value
    all_goals refine always_bind fun _ => always_bind fun _ => ?_
    · exact always_pure (owner_define _)
    · exact always_bind fun _ => always_pure (owner_define _)
    · exact always_pure (owner_define _)
    · exact always_bind fun _ => always_pure (owner_define _)
  | block b =>
    rw [check]
    exact always_bind fun _ => always_pure rfl
  | branch m condition yes no =>
    cases no <;> rw [check] <;> refine always_bind fun _ => always_bind fun _ => always_bind fun _ => ?_
    · exact always_pure rfl
    · exact always_bind fun _ => always_pure rfl
  | select m subject arms fallback =>
    cases fallback <;> rw [check] <;> refine always_bind fun _ => always_bind fun _ => ?_
    · exact always_pure rfl
    · exact always_bind fun _ => always_pure rfl
  | each m item iterable body =>
    rw [check]
    exact always_bind fun _ => always_bind fun _ => always_bind fun _ => always_pure rfl
  | returns m value =>
    cases value <;> rw [check] <;> refine always_bind fun _ => always_bind fun _ => ?_
    · exact always_pure rfl
    · exact always_bind fun _ => always_bind fun _ => always_pure rfl
  | declares d =>
    rw [check]
    exact always_reject
  | uses m names path =>
    rw [check]
    exact always_reject

/-! ## Expressions and statements -/

/-- What is called takes its arguments, and gives its result. -/
theorem called_confined {args : List Expr} (passed : ∀ wants, Confined spans around c (passAll scope wants args)) (s : Signature) :
    Confined spans around c (passAll scope s.params args >>= fun _ => pure s.result) :=
  (passed s.params).bind fun _ _ => .pure _

/-- A value is typed by the type that it is assigned to, and accepted by it. -/
theorem assigned_confined {value : Expr} (values : ∀ want, Confined spans around c (infer scope want value))
    (valued : value.span ∈ spans) (want : Ty) :
    Confined spans around c (do
      let got ← infer scope (some want) value
      requireAccepts want got value.span (.badAssignment got want)
      return want) :=
  (values (some want)).bind fun _ _ => (Confined.requireAccepts valued).bind fun _ _ => .pure _

/-- An argument is typed and passed. -/
theorem passed_confined {β : Type} {e : Expr} (typed : ∀ want, Confined spans around c (infer scope want e))
    (valued : e.span ∈ spans) (want : Option Ty) {f : Ty → Analysis β} (next : ∀ t, Confined spans around c (f t)) :
    Confined spans around c (infer scope want e >>= fun t => requirePassed want t e.span >>= fun _ => f t) :=
  (typed want).bind fun t _ => (requirePassed_confined _ t valued).bind fun _ _ => next t

section Assignments

variable {expected : Option Ty} {m : Mark} {value : Expr} (here : m.span ∈ spans)
  (values : ∀ want, Confined spans scope.owner c (infer scope want value)) (valued : value.span ∈ spans)
include values valued

theorem assignToMember_confined {tm : Mark} {object : Expr} {property : Name} (objects : object.spans ⊆ spans)
    (typed : Confined spans scope.owner c (infer scope none object)) (named : property.span ∈ spans) :
    Confined spans scope.owner c (infer scope expected (.assign m (.member tm object property) value)) := by
  rw [infer]
  refine Stays.noting (received_confined objects typed fun recv => ?_)
  exact (assignedMember_confined recv property named).bind fun want _ => assigned_confined values valued want

include here in
theorem assignToIndex_confined {tm : Mark} {object position : Expr} (objects : object.spans ⊆ spans)
    (typed : Confined spans scope.owner c (infer scope none object))
    (positions : ∀ want, Confined spans scope.owner c (infer scope want position)) (placed : position.span ∈ spans) :
    Confined spans scope.owner c (infer scope expected (.assign m (.index tm object position) value)) := by
  rw [infer]
  refine Stays.noting (received_confined objects typed fun recv => ?_)
  refine (indexSignature_confined recv _ 2 here).bind fun s _ => ?_
  exact passed_confined positions placed _ fun _ => passed_confined values valued _ fun _ => .pure _

end Assignments

/-- A lambda is typed by its parameters and its body. -/
theorem lambda_confined {expected : Option Ty} {m : Mark} {params : List Param} {result : Option TypeExpr} {body : LambdaBody}
    (bound : ∀ wants, Confined spans scope.owner c (inferParams scope wants params))
    (results : result.elim [] TypeExpr.spans ⊆ spans)
    (bodies : ∀ bindings declared, Confined spans scope.owner c (inferBody (scope.enter bindings) declared body)) :
    Confined spans scope.owner c (infer scope expected (.lambda m params result body)) := by
  rw [infer]
  refine Stays.noting ((bound _).bind fun bindings _ => ?_)
  have rest (declared : Option Ty) : Confined spans scope.owner c (do
      let result ← inferBody (scope.enter bindings) declared body
      return Ty.function (bindings.map (·.type)) result) :=
    (bodies bindings declared).bind fun _ _ => .pure _
  cases result with
  | none => exact rest _
  | some t => exact (written_confined t results).map.bind fun declared _ => rest declared

/-- A call of something that is neither the superclass nor a member. -/
private theorem call_confined {expected : Option Ty} {m : Mark} {callee : Expr} {args : List Expr}
    (notParent : ∀ pm, callee = .parent pm → False) (notMember : ∀ cm o p, callee = .member cm o p → False)
    (here : m.span ∈ spans) (within : callee.spans ⊆ spans) (called : Confined spans around c (infer scope none callee))
    (passed : ∀ wants, Confined spans around c (passAll scope wants args)) :
    Confined spans around c (infer scope expected (.call m callee args)) := by
  have unfolded : infer scope expected (.call m callee args) = noting m.span (do
      let t ← infer scope none callee
      let s ← valueSignature callee.text.shown t args.length m.span callee.span
      passAll scope s.params args
      return s.result) := by
    rw [infer]
    · rfl
    · exact notParent
    · exact notMember
  rw [unfolded]
  refine Stays.noting (called.bind fun t _ => ?_)
  exact (valueSignature_confined _ t _ here (within callee.span_mem_spans)).bind fun s _ => called_confined passed s

-- The induction is on the syntax. The declaration around the scope stays the same all the way down.
mutual

theorem infer_confined {c : Context} (scope : Scope) (expected : Option Ty) (e : Expr) (within : e.spans ⊆ spans) :
    Confined spans scope.owner c (infer scope expected e) := by
  have here := within e.span_mem_spans
  cases e with
  | name id =>
    rw [infer]
    exact (nameType_confined id here).noting
  | number m digits =>
    rw [infer]
    exact Stays.noting (.pure _)
  | string q =>
    rw [infer]
    exact Stays.noting (.pure _)
  | boolean m value =>
    rw [infer]
    exact Stays.noting (.pure _)
  | null m =>
    rw [infer]
    exact Stays.noting (.pure _)
  | self m =>
    rw [infer]
    refine Stays.noting ?_
    cases scope.find? Builtin.selfName with
    | none => exact Confined.reject here
    | some b => exact .pure _
  | parent m =>
    rw [infer]
    exact Stays.noting (Confined.reject here)
  | unary m op operand =>
    simp only [Expr.spans, List.cons_subset] at within
    rw [infer]
    refine Stays.noting ((infer_confined scope none operand within.2).bind fun _ _ => ?_)
    exact (Confined.requireAccepts here).bind fun _ _ => .pure _
  | binary m op left right =>
    simp only [Expr.spans, List.cons_subset, List.append_subset] at within
    rw [infer]
    refine Stays.noting ((infer_confined scope none left within.2.1).bind fun l _ => ?_)
    exact (infer_confined scope none right within.2.2).bind fun r _ => binaryType_confined here op l r
  | assign m target value =>
    simp only [Expr.spans, List.cons_subset, List.append_subset] at within
    obtain ⟨-, targets, values⟩ := within
    have valued := values value.span_mem_spans
    have typed (want : Option Ty) := infer_confined (c := c) scope want value values
    cases target with
    | name id =>
      rw [infer]
      refine Stays.noting ((assignedName_confined id (targets (Expr.name id).span_mem_spans)).bind fun want _ => ?_)
      exact assigned_confined typed valued want
    | member tm object property =>
      simp only [Expr.spans, List.cons_subset] at targets
      have objects := infer_confined (c := c) scope none object targets.2.2
      exact assignToMember_confined typed valued targets.2.2 objects targets.2.1
    | index tm object position =>
      simp only [Expr.spans, List.cons_subset, List.append_subset] at targets
      refine assignToIndex_confined here typed valued targets.2.1 (infer_confined scope none object targets.2.1)
        (fun want => ?_) (targets.2.2 position.span_mem_spans)
      exact infer_confined scope want position targets.2.2
    | _ =>
      rw [infer]
      · exact Stays.noting (Confined.reject (targets (Expr.span_mem_spans _)))
      all_goals simp
  | member m object property =>
    simp only [Expr.spans, List.cons_subset] at within
    rw [infer]
    refine Stays.noting (received_confined within.2.2 (infer_confined scope none object within.2.2) fun recv => ?_)
    cases recv with
    | none => exact Stays.fresh _
    | some recv => exact (useMember_confined recv _ within.2.1).bind fun m _ => type_confined m
  | index m object position =>
    simp only [Expr.spans, List.cons_subset, List.append_subset] at within
    rw [infer]
    refine Stays.noting (received_confined within.2.1 (infer_confined scope none object within.2.1) fun recv => ?_)
    refine (indexSignature_confined recv _ 1 here).bind fun s _ => ?_
    exact passed_confined (fun want => infer_confined scope want position within.2.2)
      (within.2.2 position.span_mem_spans) _ fun _ => .pure _
  | call m callee args =>
    simp only [Expr.spans, List.cons_subset, List.append_subset] at within
    obtain ⟨-, callees, all⟩ := within
    have called := callees callee.span_mem_spans
    have typed := infer_confined (c := c) scope none callee callees
    have passed (wants : List Ty) := passAll_confined (c := c) scope wants args all
    cases callee with
    | parent pm =>
      rw [infer]
      exact Stays.noting ((parentConstructor_confined args.length called here).bind fun s _ => called_confined passed s)
    | member cm object property =>
      simp only [Expr.spans, List.cons_subset] at callees
      rw [infer]
      refine Stays.noting (received_confined callees.2.2 (infer_confined scope none object callees.2.2) fun recv => ?_)
      exact (memberSignature_confined recv property args.length called callees.2.1 here).bind fun s _ =>
        called_confined passed s
    | _ => exact call_confined (by simp) (by simp) here callees typed passed
  | create m type args =>
    simp only [Expr.spans, List.cons_subset, List.append_subset] at within
    rw [infer]
    refine Stays.noting ((constructed_confined type expected within.2.1).bind fun p _ => ?_)
    exact (constructionSignature_confined p.1 p.2 args.length here).bind fun s _ =>
      called_confined (fun wants => passAll_confined scope wants args within.2.2) s
  | array m items =>
    simp only [Expr.spans, List.cons_subset] at within
    rw [infer]
    refine Stays.noting ((inferElements_confined scope _ _ items within.2).bind fun element _ => ?_)
    exact arrayType_confined here element
  | lambda m params result body =>
    simp only [Expr.spans, List.cons_subset, List.append_subset] at within
    obtain ⟨-, ⟨paramSpans, results⟩, bodies⟩ := within
    exact lambda_confined (fun wants => inferParams_confined scope wants params paramSpans) results
      fun bindings declared => inferBody_confined (scope.enter bindings) declared body bodies
  | markup element =>
    obtain ⟨m, tag, attributes, children, selfClosing⟩ := element
    simp only [Expr.spans, List.cons_subset, List.append_subset] at within
    rw [infer]
    refine Stays.noting ((inferAttributes_confined scope attributes within.2.1).bind fun _ _ => ?_)
    exact (inferChildren_confined scope children within.2.2).bind fun _ _ => markupType_confined

theorem passAll_confined {c : Context} (scope : Scope) (wants : List Ty) (es : List Expr)
    (within : Expr.spansAll es ⊆ spans) :
    Confined spans scope.owner c (passAll scope wants es) := by
  cases es with
  | nil =>
    rw [passAll]
    exact .pure ()
  | cons e es =>
    simp only [Expr.spansAll, List.append_subset] at within
    rw [passAll]
    refine (infer_confined scope wants.head? e within.1).bind fun t _ => ?_
    refine (requirePassed_confined _ t (within.1 e.span_mem_spans)).bind fun _ _ => ?_
    exact passAll_confined scope wants.tail es within.2

theorem inferElements_confined {c : Context} (scope : Scope) (declared : Bool) (element : Option Ty) (es : List Expr)
    (within : Expr.spansAll es ⊆ spans) : Confined spans scope.owner c (inferElements scope declared element es) := by
  cases es with
  | nil =>
    rw [inferElements]
    exact .pure _
  | cons e es =>
    simp only [Expr.spansAll, List.append_subset] at within
    rw [inferElements]
    refine (infer_confined scope element e within.1).bind fun t _ => ?_
    refine (joinElement_confined declared (within.1 e.span_mem_spans) element t).bind fun t _ => ?_
    exact inferElements_confined scope declared (some t) es within.2

theorem inferParams_confined {c : Context} (scope : Scope) (wants : List Ty) (ps : List Param)
    (within : Param.spansAll ps ⊆ spans) :
    Confined spans scope.owner c (inferParams scope wants ps) := by
  cases ps with
  | nil =>
    rw [inferParams]
    exact .pure []
  | cons p ps =>
    obtain ⟨m, name, type, fallback⟩ := p
    simp only [Param.spansAll_cons, List.cons_append, List.cons_subset, List.append_subset] at within
    obtain ⟨-, ⟨types, fallbacks⟩, rest⟩ := within
    rw [inferParams]
    refine (paramType_confined name type _ types).bind fun t _ => ?_
    refine (inferDefault_confined scope name.text t fallback fallbacks).bind fun _ _ => ?_
    exact (inferParams_confined scope wants.tail ps rest).bind fun _ _ => .pure _

theorem inferDefault_confined {c : Context} (scope : Scope) (name : String) (want : Ty) (fallback : Option Expr)
    (within : fallback.elim [] Expr.spans ⊆ spans) :
    Confined spans scope.owner c (inferDefault scope name want fallback) := by
  cases fallback with
  | none =>
    rw [inferDefault]
    exact .pure ()
  | some e =>
    rw [inferDefault]
    refine (infer_confined scope (some want) e within).bind fun _ _ => ?_
    exact Confined.requireAccepts (within e.span_mem_spans)

theorem inferBody_confined {c : Context} (scope : Scope) (declared : Option Ty) (body : LambdaBody)
    (within : body.spans ⊆ spans) :
    Confined spans scope.owner c (inferBody scope declared body) := by
  cases body with
  | value e =>
    rw [LambdaBody.spans] at within
    rw [inferBody]
    refine (infer_confined scope declared e within).bind fun t _ => ?_
    cases declared with
    | none => exact .pure _
    | some d =>
      refine Stays.ite (fun _ => .pure _) fun _ => ?_
      exact (Confined.requireAccepts (within e.span_mem_spans)).bind fun _ _ => .pure _
  | block b =>
    rw [LambdaBody.spans] at within
    have checked (d : Ty) : Confined spans scope.owner c (do
        expecting d (checkBlock scope b)
        return d) :=
      (Confined.withReader (checkBlock_confined scope b within) rfl rfl).bind fun _ _ => .pure _
    cases declared with
    | none =>
      rw [inferBody]
      exact (Stays.fresh _).bind fun d _ => checked d
    | some d =>
      rw [inferBody]
      exact Stays.bind (.pure d) fun d _ => checked d

theorem inferAttributes_confined {c : Context} (scope : Scope) (as : List Attribute)
    (within : Attribute.spansAll as ⊆ spans) :
    Confined spans scope.owner c (inferAttributes scope as) := by
  cases as with
  | nil =>
    rw [inferAttributes]
    exact .pure ()
  | cons a as =>
    obtain ⟨m, name, value⟩ := a
    simp only [Attribute.spansAll, List.append_subset] at within
    rw [inferAttributes]
    exact (infer_confined scope none value within.1).bind fun _ _ => inferAttributes_confined scope as within.2

theorem inferChildren_confined {c : Context} (scope : Scope) (cs : List Child) (within : Child.spansAll cs ⊆ spans) :
    Confined spans scope.owner c (inferChildren scope cs) := by
  cases cs with
  | nil =>
    rw [inferChildren]
    exact .pure ()
  | cons child cs =>
    cases child with
    | element e =>
      obtain ⟨m, tag, attributes, children, selfClosing⟩ := e
      simp only [Child.spansAll, List.cons_append, List.cons_subset, List.append_subset] at within
      rw [inferChildren]
      refine (inferAttributes_confined scope attributes within.2.1.1).bind fun _ _ => ?_
      refine (inferChildren_confined scope children within.2.1.2).bind fun _ _ => ?_
      refine markupType_confined.bind fun t _ => (Stays.note _ t).bind fun _ _ => ?_
      exact inferChildren_confined scope cs within.2.2
    | text m text =>
      rw [Child.spansAll] at within
      rw [inferChildren]
      exact inferChildren_confined scope cs within
    | hole m e =>
      simp only [Child.spansAll, List.append_subset] at within
      rw [inferChildren]
      exact (infer_confined scope none e within.1).bind fun _ _ => inferChildren_confined scope cs within.2

theorem checkBlock_confined {c : Context} (scope : Scope) (b : Block) (within : b.spans ⊆ spans) :
    Confined spans scope.owner c (checkBlock scope b) := by
  obtain ⟨m, statements⟩ := b
  rw [Block.spans] at within
  rw [checkBlock]
  exact (checkAll_confined (scope.enter []) statements within).bind fun _ _ => .pure _

theorem checkAll_confined {c : Context} (scope : Scope) (ss : List Stmt) (within : Stmt.spansAll ss ⊆ spans) :
    Confined spans scope.owner c (checkAll scope ss) := by
  cases ss with
  | nil =>
    rw [checkAll]
    exact .pure _
  | cons s ss =>
    simp only [Stmt.spansAll, List.append_subset] at within
    rw [checkAll]
    refine (check_confined scope s within.1).bind fun scope' gives => ?_
    rw [← check_owner _ _ _ gives]
    exact checkAll_confined scope' ss within.2

theorem checkArms_confined {c : Context} (scope : Scope) (subject : Ty) (as : List Arm)
    (within : Arm.spansAll as ⊆ spans) :
    Confined spans scope.owner c (checkArms scope subject as) := by
  cases as with
  | nil =>
    rw [checkArms]
    exact .pure ()
  | cons a as =>
    obtain ⟨m, value, body⟩ := a
    simp only [Arm.spansAll, List.append_subset] at within
    rw [checkArms]
    refine (infer_confined scope (some subject) value within.1.1).bind fun t _ => ?_
    refine (Confined.requireAccepts (within.1.1 value.span_mem_spans)).bind fun _ _ => ?_
    exact (checkBlock_confined scope body within.1.2).bind fun _ _ => checkArms_confined scope subject as within.2

theorem check_confined {c : Context} (scope : Scope) (s : Stmt) (within : s.spans ⊆ spans) :
    Confined spans scope.owner c (check scope s) := by
  cases s with
  | does m e =>
    simp only [Stmt.spans, List.cons_subset] at within
    rw [check]
    exact (infer_confined scope none e within.2).bind fun _ _ => .pure _
  | binds m name type value =>
    have split : name.span ∈ spans ∧ TypeExpr.spansOf? type ⊆ spans ∧ ∀ e ∈ value, e.spans ⊆ spans := by
      cases value <;> simp_all [Stmt.spans]
    obtain ⟨named, types, values⟩ := split
    rw [check]
    refine (Confined.require named).bind fun _ _ => declared_confined type types fun declared => ?_
    have bound (v : Option (Span × Ty)) (within : ∀ v' ∈ v, v'.1 ∈ spans) : Confined spans scope.owner c
        (boundType name.text declared v >>= fun t => pure (scope.define ⟨name.text, t, false⟩)) :=
      (boundType_confined name.text declared v within).bind fun _ _ => .pure _
    cases value with
    | none => exact bound none (by simp)
    | some e =>
      refine (infer_confined scope declared e (values e rfl)).bind fun t _ => ?_
      exact bound (some (e.span, t)) (by simpa using values e rfl e.span_mem_spans)
  | block b =>
    simp only [Stmt.spans, List.cons_subset] at within
    rw [check]
    exact (checkBlock_confined scope b within.2).bind fun _ _ => .pure _
  | branch m condition yes no =>
    have start (conditions : condition.spans ⊆ spans) (block : yes.spans ⊆ spans) {x : Analysis Scope}
        (next : Confined spans scope.owner c x) : Confined spans scope.owner c
          (infer scope (some .boolean) condition >>= fun t =>
            requireAccepts .boolean t condition.span (.badCondition t) >>= fun _ =>
              checkBlock scope yes >>= fun _ => x) := by
      refine (infer_confined scope (some .boolean) condition conditions).bind fun t _ => ?_
      refine (Confined.requireAccepts (conditions condition.span_mem_spans)).bind fun _ _ => ?_
      exact (checkBlock_confined scope yes block).bind fun _ _ => next
    cases no with
    | none =>
      simp only [Stmt.spans, List.cons_subset, List.append_subset] at within
      rw [check]
      exact start within.2.1 within.2.2 (.pure _)
    | some s =>
      simp only [Stmt.spans, List.cons_subset, List.append_subset] at within
      rw [check]
      exact start within.2.1.1 within.2.1.2 ((check_confined scope s within.2.2).bind fun _ _ => .pure _)
  | select m subject arms fallback =>
    have start (subjects : subject.spans ⊆ spans) (all : Arm.spansAll arms ⊆ spans) {x : Analysis Scope}
        (next : Confined spans scope.owner c x) :
        Confined spans scope.owner c (infer scope none subject >>= fun t => checkArms scope t arms >>= fun _ => x) :=
      (infer_confined scope none subject subjects).bind fun t _ =>
        (checkArms_confined scope t arms all).bind fun _ _ => next
    cases fallback with
    | none =>
      simp only [Stmt.spans, List.cons_subset, List.append_subset] at within
      rw [check]
      exact start within.2.1 within.2.2 (.pure _)
    | some b =>
      simp only [Stmt.spans, List.cons_subset, List.append_subset] at within
      rw [check]
      exact start within.2.1.1 within.2.1.2 ((checkBlock_confined scope b within.2.2).bind fun _ _ => .pure _)
  | each m item iterable body =>
    simp only [Stmt.spans, List.cons_subset, List.append_subset] at within
    rw [check]
    refine (infer_confined scope none iterable within.2.1).bind fun t _ => ?_
    refine (elementType_confined (within.2.1 iterable.span_mem_spans) t).bind fun t _ => ?_
    exact (checkBlock_confined (scope.enter [⟨item.text, t, false⟩]) body within.2.2).bind fun _ _ => .pure _
  | returns m value =>
    cases value with
    | none =>
      simp only [Stmt.spans, List.cons_subset] at within
      rw [check]
      exact Stays.read ((Confined.require within.1).bind fun _ _ => .pure _)
    | some e =>
      simp only [Stmt.spans, List.cons_subset] at within
      rw [check]
      refine Stays.read ((Confined.require (within.2 e.span_mem_spans)).bind fun _ _ => ?_)
      refine (infer_confined scope _ e within.2).bind fun t _ => ?_
      exact (Confined.requireAccepts (within.2 e.span_mem_spans)).bind fun _ _ => .pure _
  | declares d =>
    rw [check]
    exact Confined.reject (within (Stmt.declares d).span_mem_spans)
  | uses m names path =>
    simp only [Stmt.spans, List.cons_subset] at within
    rw [check]
    exact Confined.reject within.1

end

end ClassScript.Typing
