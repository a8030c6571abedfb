import ClassScript.Proofs.Mirrors
import ClassScript.Proofs.Sites
import ClassScript.Typing.Expressions

/-!
Code is typed alike in contexts that are alike (`infer_mirrors`, `check_mirrors`), as long as it does not
mention a field whose type is left open.
-/

namespace ClassScript.Typing

section Parts

variable {W W' : Pairing} {B : String → Prop} {c c' : Context}
variable (contexts : Context.Alike W B c c') {scope scope' : Scope} (scopes : scope.Alike W scope')
include contexts

/-! ## Expressions and statements, beside the code in them -/

include scopes in
theorem nameType_mirrors (id : Name) : Mirrors W c c' (nameType scope id) (nameType scope' id) Ty.Alike := by
  have bindings := scopes.find? id.text
  unfold nameType
  generalize scope.find? id.text = a at bindings ⊢
  generalize scope'.find? id.text = b at bindings ⊢
  cases bindings with
  | some bindings => exact .pure bindings.type
  | none =>
    have found := contexts.registry.find id.text
    refine .read ?_
    dsimp only
    generalize c.registry.find? id.text = a at found ⊢
    generalize c'.registry.find? id.text = b at found ⊢
    cases found with
    | none => exact .reject
    | some decls =>
      refine .pure ?_
      rw [decls.nominal]
      rfl

include scopes in
theorem assignedName_mirrors (id : Name) :
    Mirrors W c c' (assignedName scope id) (assignedName scope' id) Ty.Alike := by
  have bindings := scopes.find? id.text
  unfold assignedName
  generalize scope.find? id.text = a at bindings ⊢
  generalize scope'.find? id.text = b at bindings ⊢
  cases bindings with
  | some bindings =>
    refine (Mirrors.require (by rw [bindings.isSelf])).bind fun _ _ _ le _ => ?_
    exact Mirrors.note.bind fun _ _ _ le' _ => .pure (bindings.type.mono (le.trans le'))
  | none => exact (nameType_mirrors contexts scopes id).bind fun _ _ _ _ _ => .reject

include scopes in
theorem assignedMember_mirrors {recv recv' : Option Receiver} (receivers : Option.Rel (Receiver.Alike W B) recv recv')
    (span : Span) (property : Name) (settled : ¬ B property.text) :
    Mirrors W c c' (assignedMember scope recv span property) (assignedMember scope' recv' span property) Ty.Alike := by
  cases receivers with
  | none => exact .fresh property.text
  | some receivers =>
    refine (useMember_mirrors contexts scopes receivers property.text property.span).bind fun _ m m' le members => ?_
    refine (requireAssignable_mirrors (scopes.mono le) members property.span).bind fun _ _ _ le' _ => ?_
    exact .noting (type_mirrors ⟨members.symbol.mono le', members.subst.mono le'⟩ settled)

private theorem both_mirrors (slot result : Ty) (slots : slot.Alike W slot) (results : ∀ W, result.Alike W result)
    {left left' right right' : Ty} (lefts : left.Alike W left') (rights : right.Alike W right') :
    Mirrors W c c'
      ((accepts slot left >>= fun l => accepts slot right >>= fun r => pure (l && r)) >>= fun both =>
        pure (if both then some result else none))
      ((accepts slot left' >>= fun l => accepts slot right' >>= fun r => pure (l && r)) >>= fun both =>
        pure (if both then some result else none))
      fun W' => Option.Rel (Ty.Alike W') := by
  refine Mirrors.bind (P := fun _ a b => a = b) ?_ fun _ a b _ same => ?_
  · refine (accepts_mirrors contexts slots lefts).bind fun _ _ _ le same => ?_
    refine (accepts_mirrors (contexts.mono le) (slots.mono le) (rights.mono le)).bind fun _ _ _ _ same' => ?_
    exact .pure (by rw [same, same'])
  · subst same
    refine .pure ?_
    split
    · exact .some (results _)
    · exact .none

theorem binaryType?_mirrors (op : BinaryOp) {left left' right right' : Ty} (lefts : left.Alike W left')
    (rights : right.Alike W right') :
    Mirrors W c c' (binaryType? op left right) (binaryType? op left' right') fun W' => Option.Rel (Ty.Alike W') := by
  have equality :
      Mirrors W c c' (do return if ← accepts left right then some Ty.boolean else none)
        (do return if ← accepts left' right' then some Ty.boolean else none) fun W' => Option.Rel (Ty.Alike W') := by
    refine (accepts_mirrors contexts lefts rights).bind fun _ _ _ _ same => .pure ?_
    subst same
    split
    · exact .some rfl
    · exact .none
  cases op with
  | add =>
    unfold binaryType?
    dsimp only
    split
    · cases lefts
      exact .pure (.some rfl)
    · cases rights
      split
      · exact .pure (.some rfl)
      · exact .pure (.some rfl)
      · next differs => exact absurd rfl (differs)
    · next left right notLeft notRight =>
      split
      · exact absurd lefts.eq_string notLeft
      · exact absurd rights.eq_string notRight
      · exact both_mirrors contexts .number .number rfl (fun _ => rfl) lefts rights
  | sub | mul | div | rem => exact both_mirrors contexts .number .number rfl (fun _ => rfl) lefts rights
  | less | greater | lessEq | greaterEq => exact both_mirrors contexts .number .boolean rfl (fun _ => rfl) lefts rights
  | and | or => exact both_mirrors contexts .boolean .boolean rfl (fun _ => rfl) lefts rights
  | equal | notEqual => exact equality

theorem binaryType_mirrors (span : Span) (op : BinaryOp) {left left' right right' : Ty} (lefts : left.Alike W left')
    (rights : right.Alike W right') :
    Mirrors W c c' (binaryType span op left right) (binaryType span op left' right') Ty.Alike := by
  refine (binaryType?_mirrors contexts op lefts rights).bind fun _ a b _ types => ?_
  cases types with
  | none => exact .reject
  | some types => exact .pure types

omit contexts in
theorem argsFromExpected_mirrors {d d' : DeclSymbol} (decls : d.Alike W B d') {expected expected' : Option Ty}
    (wanted : Option.Rel (Ty.Alike W) expected expected') :
    Mirrors W c c' (argsFromExpected d expected) (argsFromExpected d' expected') Ty.AlikeAll := by
  have unknown : Mirrors W c c' (d.params.mapM fun v => fresh v.name) (d'.params.mapM fun v => fresh v.name)
      Ty.AlikeAll := by
    refine (Mirrors.mapM (R := Paired W) (Q := Ty.Alike) (fun _ _ _ _ le types => types.mono le) (fun _ v v' _ paired => ?_)
      decls.params).imp fun _ _ _ _ types => alikeAll_iff.2 types
    rw [paired.1]
    exact .fresh _
  unfold argsFromExpected
  cases wanted with
  | none => exact unknown
  | @some t t' types =>
    have bases := types.base
    simp only [Option.map_some]
    generalize t.base = u at bases ⊢
    generalize t'.base = u' at bases ⊢
    cases u with
    | ref n args =>
      obtain ⟨args', rfl, all⟩ := bases
      refine .ite ?_ (.pure all) unknown
      rw [decls.nominal, (alikeAll_iff.1 all).length_eq, decls.params.length_eq]
    | nullable t => obtain ⟨t', rfl, -⟩ := bases; exact unknown
    | var v => obtain ⟨v', rfl, -⟩ := bases; exact unknown
    | function params result => obtain ⟨params', result', rfl, -⟩ := bases; exact unknown
    | _ => cases bases; exact unknown

theorem constructed_mirrors (t : TypeExpr) {expected expected' : Option Ty}
    (wanted : Option.Rel (Ty.Alike W) expected expected') :
    Mirrors W c c' (constructed t expected) (constructed t expected')
      fun W' p p' => p.1.Alike W' B p'.1 ∧ Ty.AlikeAll W' p.2 p'.2 := by
  refine (Mirrors.require rfl).bind fun _ _ _ le₁ _ => .read ?_
  refine (written_mirrors (contexts.kin.mono le₁) t).bind fun _ u u' le₂ types => ?_
  cases u with
  | ref n args =>
    obtain ⟨args', rfl, all⟩ := types
    refine (Mirrors.require rfl).bind fun _ _ _ le₃ _ => ?_
    have le := (le₁.trans le₂).trans le₃
    have found := contexts.registry.find n.name
    generalize c.registry.find? n.name = a at found ⊢
    generalize c'.registry.find? n.name = b at found ⊢
    cases found with
    | none => exact .reject
    | some decls =>
      have decls := decls.mono le
      refine .ite ?_ ?_ ?_
      · rw [isEmpty_related (alikeAll_iff.1 all), isEmpty_related decls.params]
      · refine (argsFromExpected_mirrors decls (optionRel_imp (fun _ _ types => types.mono le) wanted)).bind
          fun _ _ _ le' types => ?_
        exact .pure ⟨decls.mono le', types⟩
      · exact .pure ⟨decls, all.mono le₃⟩
  | _ => exact .reject

include scopes in
theorem constructionSignature_mirrors {d d' : DeclSymbol} (decls : d.Alike W B d') {args args' : List Ty}
    (types : Ty.AlikeAll W args args') (count : Nat) (span : Span) :
    Mirrors W c c' (constructionSignature scope d args count span) (constructionSignature scope' d' args' count span)
      Signature.Alike := by
  have signed {W' : Pairing} (le : W ≤ W') {ctor ctor' : Option MethodSymbol}
      (ctors : Option.Rel (MethodSymbol.Alike W) ctor ctor') :
      Mirrors W' c c'
        (do
          let s ← constructorSignature d args ctor count span
          return (⟨s.params, .ref d.nominal args⟩ : Signature))
        (do
          let s ← constructorSignature d' args' ctor' count span
          return (⟨s.params, .ref d'.nominal args'⟩ : Signature)) Signature.Alike := by
    refine (constructorSignature_mirrors (contexts.mono le) (decls.mono le) (types.mono le)
      (optionRel_imp (fun _ _ methods => methods.mono le) ctors) count span).bind fun _ _ _ le' signatures => ?_
    refine .pure ⟨signatures.params, ?_⟩
    rw [decls.nominal]
    exact ⟨args', rfl, types.mono (le.trans le')⟩
  have ctors := contexts.registry.constructor? decls
  refine .read ?_
  dsimp only
  generalize c.registry.constructor? d = a at ctors ⊢
  generalize c'.registry.constructor? d' = b at ctors ⊢
  cases ctors with
  | none => exact signed le_rfl .none
  | @some m m' methods =>
    have sees : (!m.isPrivate || seesPrivate c.registry scope m.owner) =
        (!m'.isPrivate || seesPrivate c'.registry scope' m'.owner) := by
      rw [MethodSymbol.isPrivate, MethodSymbol.isPrivate, methods.decl, methods.owner,
        seesPrivate_alike contexts.registry scopes]
    refine (Mirrors.require sees).bind fun _ _ _ le _ => ?_
    exact Mirrors.noteAccess.bind fun _ _ _ le' _ => signed (le.trans le') (.some methods)

include scopes in
theorem parentConstructor_mirrors (parent : Span) (count : Nat) (span : Span) :
    Mirrors W c c' (parentConstructor scope parent count span) (parentConstructor scope' parent count span)
      Signature.Alike := by
  have parents := parentOf?_alike contexts.registry scopes
  refine .read ?_
  dsimp only
  generalize parentOf? c.registry scope = a at parents ⊢
  generalize parentOf? c'.registry scope' = b at parents ⊢
  cases parents with
  | none => exact .reject
  | @some p p' parents =>
    have ctors := contexts.registry.constructor? parents.1
    refine (Mirrors.require scopes.inConstructor).bind fun _ _ _ le _ => ?_
    refine Mirrors.note.bind fun _ _ _ le' _ => ?_
    have signed {W' : Pairing} (le : W ≤ W') {ctor ctor' : Option MethodSymbol}
        (ctors : Option.Rel (MethodSymbol.Alike W) ctor ctor') :
        Mirrors W' c c'
          (do
            let s ← constructorSignature p.1 p.2 ctor count span
            return (⟨s.params, .void⟩ : Signature))
          (do
            let s ← constructorSignature p'.1 p'.2 ctor' count span
            return (⟨s.params, .void⟩ : Signature)) Signature.Alike := by
      refine (constructorSignature_mirrors (contexts.mono le) (parents.1.mono le) (parents.2.mono le)
        (optionRel_imp (fun _ _ methods => methods.mono le) ctors) count span).bind fun _ _ _ _ signatures => ?_
      exact .pure ⟨signatures.params, rfl⟩
    have le := le.trans le'
    generalize c.registry.constructor? p.1 = a at ctors ⊢
    generalize c'.registry.constructor? p'.1 = b at ctors ⊢
    cases ctors with
    | none => exact signed le .none
    | some methods => exact Mirrors.noteAccess.bind fun _ _ _ le' _ => signed (le.trans le') (.some methods)

include scopes in
theorem memberSignature_mirrors {recv recv' : Option Receiver} (receivers : Option.Rel (Receiver.Alike W B) recv recv')
    (callee : Span) (property : Name) (count : Nat) (span : Span) (settled : ¬ B property.text) :
    Mirrors W c c' (memberSignature scope recv callee property count span)
      (memberSignature scope' recv' callee property count span) Signature.Alike := by
  cases receivers with
  | none => exact (Mirrors.fresh _).bind fun _ _ _ _ result => .pure ⟨.nil, result⟩
  | some receivers =>
    refine (useMember_mirrors contexts scopes receivers property.text property.span).bind fun _ m m' _ members => ?_
    refine (Mirrors.noting (type_mirrors members settled)).bind fun _ t t' le types => ?_
    obtain ⟨symbol, subst⟩ := m
    obtain ⟨symbol', subst'⟩ := m'
    obtain ⟨symbols, substs⟩ := members
    cases symbols with
    | field => exact valueSignature_mirrors _ types count span callee
    | method methods => exact methodSignature_mirrors _ _ (methods.mono le) (substs.mono le) count span

private theorem arrayOf_mirrors (span : Span) {t t' : Ty} (types : t.Alike W t') :
    Mirrors W c c'
      (do
        match ← builtinRef? Builtin.arrayClass [t] with
        | some t => return t
        | none => reject span (.noArrayClass Builtin.arrayClass))
      (do
        match ← builtinRef? Builtin.arrayClass [t'] with
        | some t => return t
        | none => reject span (.noArrayClass Builtin.arrayClass)) Ty.Alike := by
  refine (builtinRef?_mirrors contexts _ (alikeAll_iff.2 (.cons types .nil))).bind fun _ a b _ arrays => ?_
  cases arrays with
  | none => exact .reject
  | some arrays => exact .pure arrays

theorem arrayType_mirrors (span : Span) {element element' : Option Ty}
    (elements : Option.Rel (Ty.Alike W) element element') :
    Mirrors W c c' (arrayType span element) (arrayType span element') Ty.Alike := by
  have unknown := (Mirrors.fresh "T").bind fun W' _ _ (le : W ≤ W') types => arrayOf_mirrors (contexts.mono le) span types
  unfold arrayType
  cases elements with
  | none => exact unknown
  | @some t t' types =>
    have known := (Mirrors.pure types).bind fun W' _ _ (le : W ≤ W') types => arrayOf_mirrors (contexts.mono le) span types
    cases t with
    | null => cases types; exact unknown
    | nullable t => obtain ⟨t', rfl, -⟩ := types; exact known
    | var v => obtain ⟨v', rfl, -⟩ := types; exact known
    | function params result => obtain ⟨params', result', rfl, -⟩ := types; exact known
    | ref n args => obtain ⟨args', rfl, -⟩ := types; exact known
    | _ => cases types; exact known

theorem joinElement_mirrors (declared : Bool) (span : Span) {element element' : Option Ty}
    (elements : Option.Rel (Ty.Alike W) element element') {t t' : Ty} (types : t.Alike W t') :
    Mirrors W c c' (joinElement declared span element t) (joinElement declared span element' t') Ty.Alike := by
  cases elements with
  | none => exact .pure types
  | some elements =>
    refine (accepts_mirrors contexts elements types).bind fun _ _ _ le same => ?_
    refine .ite same (.pure (elements.mono le)) ?_
    exact .ite rfl .reject (.pure rfl)

omit contexts in
theorem expectedElement_alike {expected expected' : Option Ty} (wanted : Option.Rel (Ty.Alike W) expected expected') :
    Option.Rel (Ty.Alike W) (expectedElement expected) (expectedElement expected') := by
  unfold expectedElement
  cases wanted with
  | none => exact .none
  | @some t t' types =>
    have bases := types.base
    simp only [Option.map_some]
    generalize t.base = u at bases ⊢
    generalize t'.base = u' at bases ⊢
    cases u with
    | ref n args =>
      obtain ⟨args', rfl, all⟩ := bases
      cases alikeAll_iff.1 all with
      | nil => exact .none
      | cons first rest =>
        cases rest with
        | cons => exact .none
        | nil =>
          dsimp only
          split
          · exact .some first
          · exact .none
    | nullable t => obtain ⟨t', rfl, -⟩ := bases; exact .none
    | var v => obtain ⟨v', rfl, -⟩ := bases; exact .none
    | function params result => obtain ⟨params', result', rfl, -⟩ := bases; exact .none
    | _ => cases bases; exact .none

omit contexts in
theorem expectedFunction_alike {expected expected' : Option Ty} (wanted : Option.Rel (Ty.Alike W) expected expected')
    (count : Nat) :
    Option.Rel (fun p p' => List.Forall₂ (Ty.Alike W) p.1 p'.1 ∧ p.2.Alike W p'.2) (expectedFunction expected count)
      (expectedFunction expected' count) := by
  unfold expectedFunction
  cases wanted with
  | none => exact .none
  | @some t t' types =>
    have bases := types.base
    simp only [Option.map_some]
    generalize t.base = u at bases ⊢
    generalize t'.base = u' at bases ⊢
    cases u with
    | function params result =>
      obtain ⟨params', result', rfl, params, result⟩ := bases
      simp only [(alikeAll_iff.1 params).length_eq]
      split
      · exact .some ⟨alikeAll_iff.1 params, result⟩
      · exact .none
    | nullable t => obtain ⟨t', rfl, -⟩ := bases; exact .none
    | var v => obtain ⟨v', rfl, -⟩ := bases; exact .none
    | ref n args => obtain ⟨args', rfl, -⟩ := bases; exact .none
    | _ => cases bases; exact .none

theorem paramType_mirrors (name : Name) (type : Option TypeExpr) {want want' : Option Ty}
    (wanted : Option.Rel (Ty.Alike W) want want') :
    Mirrors W c c' (paramType name type want) (paramType name type want') Ty.Alike := by
  cases type with
  | some t => exact written_mirrors contexts.kin t
  | none =>
    cases wanted with
    | none => exact .fresh name.text
    | some types => exact .pure types

theorem markupType_mirrors : Mirrors W c c' markupType markupType Ty.Alike := by
  refine (builtinRef?_mirrors contexts Builtin.nodeClass (alikeAll_iff.2 .nil)).bind fun _ a b _ types => ?_
  cases types with
  | none => exact .pure rfl
  | some types => exact .pure types

omit contexts in
theorem elementType_mirrors (span : Span) {t t' : Ty} (types : t.Alike W t') :
    Mirrors W c c' (elementType span t) (elementType span t') Ty.Alike := by
  unfold elementType
  cases t with
  | var v =>
    obtain ⟨v', rfl, -⟩ := types
    exact .fresh _
  | ref n args =>
    obtain ⟨args', rfl, all⟩ := types
    refine .ite rfl ?_ (.never fun a gives => ?_)
    · cases alikeAll_iff.1 all with
      | nil => exact .reject
      | cons first rest =>
        cases rest with
        | nil => exact .pure first
        | cons => exact .reject
    · obtain ⟨found, -, gives⟩ := gives_bind gives
      cases found <;> exact not_gives_reject gives
  | _ =>
    refine .never fun a gives => ?_
    obtain ⟨found, -, gives⟩ := gives_bind gives
    cases found <;> exact not_gives_reject gives

omit contexts in
theorem mayReturnNothing_alike {t t' : Ty} (types : t.Alike W t') : mayReturnNothing t' = mayReturnNothing t :=
  types.byShape mayReturnNothing (fun _ _ => rfl) (fun _ _ => rfl) (fun _ _ _ _ => rfl) fun _ _ _ => rfl

theorem boundType_mirrors (name : String) {declared declared' : Option Ty}
    (written : Option.Rel (Ty.Alike W) declared declared') {value value' : Option (Span × Ty)}
    (values : Option.Rel (fun v v' => v.1 = v'.1 ∧ v.2.Alike W v'.2) value value') :
    Mirrors W c c' (boundType name declared value) (boundType name declared' value') Ty.Alike := by
  cases values with
  | none =>
    cases written with
    | none => exact .pure rfl
    | some types => exact .pure types
  | @some v v' both =>
    refine (Mirrors.require (by rw [both.2.isVoid])).bind fun _ _ _ le _ => ?_
    cases written with
    | some types =>
      refine (requireAccepts_mirrors (contexts.mono le) (types.mono le) (both.2.mono le)).bind fun _ _ _ le' _ => ?_
      exact .pure (types.mono (le.trans le'))
    | none =>
      refine .ite both.2.isNull.symm ?_ (.pure (both.2.mono le))
      exact (Mirrors.fresh name).bind fun _ _ _ _ types => .pure types.orNull

end Parts

/-! ## Code -/

/-- Code that mentions no member in `B`. -/
def Avoids (B : String → Prop) (sites : List Site) : Prop := ∀ site ∈ sites, ∀ n, site.node = .name n → ¬ B n.text

section Avoids

variable {B : String → Prop} {sites sites' : List Site}

theorem avoids_cons {site : Site} :
    Avoids B (site :: sites) ↔ (∀ n, site.node = .name n → ¬ B n.text) ∧ Avoids B sites := by
  simp [Avoids]

theorem avoids_append : Avoids B (sites ++ sites') ↔ Avoids B sites ∧ Avoids B sites' := by
  simp only [Avoids, List.mem_append, or_imp, forall_and]

theorem avoids_carry : Avoids B (sites.map Site.carry) ↔ Avoids B sites := by
  simp [Avoids, Site.carry]

end Avoids

theorem getElem?_related {α β : Type} {R : α → β → Prop} {as : List α} {bs : List β} (related : List.Forall₂ R as bs)
    (i : Nat) : Option.Rel R as[i]? bs[i]? := by
  induction related generalizing i with
  | nil => exact .none
  | cons first _ ih =>
    cases i with
    | zero => exact .some first
    | succ i => simpa using ih i

theorem head?_related {α β : Type} {R : α → β → Prop} {as : List α} {bs : List β} (related : List.Forall₂ R as bs) :
    Option.Rel R as.head? bs.head? := by
  cases related with
  | nil => exact .none
  | cons first _ => exact .some first

theorem tail_related {α β : Type} {R : α → β → Prop} {as : List α} {bs : List β} (related : List.Forall₂ R as bs) :
    List.Forall₂ R as.tail bs.tail := by
  cases related with
  | nil => exact .nil
  | cons _ rest => exact rest

/-- What a member is looked up in: the superclass, or the value of an expression. -/
theorem received_mirrors {W : Pairing} {B : String → Prop} {c c' : Context} (contexts : Context.Alike W B c c')
    {scope scope' : Scope} (scopes : scope.Alike W scope') {object : Expr}
    (objects : Mirrors W c c' (infer scope none object) (infer scope' none object) Ty.Alike) {α β : Type}
    {f : Option Receiver → Analysis α} {g : Option Receiver → Analysis β} {Q : Pairing → α → β → Prop}
    (next : ∀ W' recv recv', W ≤ W' → Option.Rel (Receiver.Alike W' B) recv recv' → Mirrors W' c c' (f recv) (g recv') Q) :
    Mirrors W c c'
      (if object.isParent then (some <$> parentReceiver scope object.span) >>= f
        else infer scope none object >>= fun t => receiver? object.span t >>= f)
      (if object.isParent then (some <$> parentReceiver scope' object.span) >>= g
        else infer scope' none object >>= fun t => receiver? object.span t >>= g) Q := by
  refine .ite rfl ?_ ?_
  · exact (parentReceiver_mirrors contexts scopes object.span).some.bind next
  · refine objects.bind fun _ _ _ le types => ?_
    exact (receiver?_mirrors (contexts.mono le) object.span types).bind fun _ _ _ le' => next _ _ _ (le.trans le')

/-- An argument is typed and passed. -/
private theorem passed_mirrors {W : Pairing} {B : String → Prop} {c c' : Context} (contexts : Context.Alike W B c c')
    {scope scope' : Scope} {want want' : Option Ty} (wanted : Option.Rel (Ty.Alike W) want want') {e : Expr}
    (typed : Mirrors W c c' (infer scope want e) (infer scope' want' e) Ty.Alike) {α β : Type} {f : Ty → Analysis α}
    {g : Ty → Analysis β} {Q : Pairing → α → β → Prop}
    (next : ∀ W' t t', W ≤ W' → t.Alike W' t' → Mirrors W' c c' (f t) (g t') Q) :
    Mirrors W c c' (infer scope want e >>= fun t => requirePassed want t e.span >>= fun _ => f t)
      (infer scope' want' e >>= fun t => requirePassed want' t e.span >>= fun _ => g t) Q := by
  refine typed.bind fun _ t t' le types => ?_
  have wanted := optionRel_imp (fun _ _ (types : Ty.Alike W _ _) => types.mono le) wanted
  refine (requirePassed_mirrors (contexts.mono le) wanted types e.span).bind fun _ _ _ le' _ => ?_
  exact next _ t t' (le.trans le') (types.mono le')

private theorem declared_mirrors {W : Pairing} {c c' : Context} (kin : Context.Kin W c c') (type : Option TypeExpr)
    {α β : Type} {f : Option Ty → Analysis α} {g : Option Ty → Analysis β} {Q : Pairing → α → β → Prop}
    (next : ∀ W' d d', W ≤ W' → Option.Rel (Ty.Alike W') d d' → Mirrors W' c c' (f d) (g d') Q) :
    Mirrors W c c'
      (match type with
        | some t => (some <$> written t) >>= f
        | none => pure none >>= f)
      (match type with
        | some t => (some <$> written t) >>= g
        | none => pure none >>= g) Q := by
  cases type with
  | none => exact next W none none le_rfl .none
  | some t => exact (written_mirrors kin t).some.bind next

/-! ## Constructs with others inside -/

section Constructs

variable {W : Pairing} {B : String → Prop} {c c' : Context} {scope scope' : Scope}

/-- At every later pairing, the expression is typed alike, whatever is wanted. -/
def TypedAlike (W : Pairing) (c c' : Context) (scope scope' : Scope) (e : Expr) : Prop :=
  ∀ W', W ≤ W' → ∀ {want want' : Option Ty}, Option.Rel (Ty.Alike W') want want' →
    Mirrors W' c c' (infer scope want e) (infer scope' want' e) Ty.Alike

/-- At every later pairing, the arguments are passed alike. -/
def PassedAlike (W : Pairing) (c c' : Context) (scope scope' : Scope) (args : List Expr) : Prop :=
  ∀ W', W ≤ W' → ∀ {wants wants' : List Ty}, List.Forall₂ (Ty.Alike W') wants wants' →
    Mirrors W' c c' (passAll scope wants args) (passAll scope' wants' args) fun _ _ _ => True

theorem TypedAlike.mono {W' : Pairing} {e : Expr} (typed : TypedAlike W c c' scope scope' e) (le : W ≤ W') :
    TypedAlike W' c c' scope scope' e := fun _ le' _ _ => typed _ (le.trans le')

theorem TypedAlike.unwanted {e : Expr} (typed : TypedAlike W c c' scope scope' e) :
    Mirrors W c c' (infer scope none e) (infer scope' none e) Ty.Alike := typed W le_rfl .none

theorem PassedAlike.mono {W' : Pairing} {args : List Expr} (passed : PassedAlike W c c' scope scope' args) (le : W ≤ W') :
    PassedAlike W' c c' scope scope' args := fun _ le' _ _ => passed _ (le.trans le')

/-- What is called takes its arguments, and gives its result. -/
theorem called_mirrors {s s' : Signature} (signatures : Signature.Alike W s s') {args : List Expr}
    (passed : PassedAlike W c c' scope scope' args) :
    Mirrors W c c' (passAll scope s.params args >>= fun _ => pure s.result)
      (passAll scope' s'.params args >>= fun _ => pure s'.result) Ty.Alike :=
  (passed W le_rfl signatures.params).bind fun _ _ _ le _ => .pure (signatures.result.mono le)

variable (contexts : Context.Alike W B c c') (scopes : scope.Alike W scope') {expected expected' : Option Ty} {m : Mark}
include contexts

/-- A value is typed by the type that it is assigned to, and accepted by it. -/
theorem assigned_mirrors {want want' : Ty} (wanted : want.Alike W want') {value : Expr}
    (values : TypedAlike W c c' scope scope' value) :
    Mirrors W c c'
      (do
        let got ← infer scope (some want) value
        requireAccepts want got value.span (.badAssignment got want)
        return want)
      (do
        let got ← infer scope' (some want') value
        requireAccepts want' got value.span (.badAssignment got want')
        return want') Ty.Alike := by
  refine (values W le_rfl (.some wanted)).bind fun _ _ _ le gots => ?_
  have wanted := wanted.mono le
  refine (requireAccepts_mirrors (contexts.mono le) wanted gots).bind fun _ _ _ le' _ => ?_
  exact .pure (wanted.mono le')

include scopes

theorem assignToName_mirrors {id : Name} {value : Expr} (values : TypedAlike W c c' scope scope' value) :
    Mirrors W c c' (infer scope expected (.assign m (.name id) value)) (infer scope' expected' (.assign m (.name id) value))
      Ty.Alike := by
  rw [infer, infer]
  refine .noting ((assignedName_mirrors contexts scopes id).bind fun _ _ _ le wants => ?_)
  exact assigned_mirrors (contexts.mono le) wants (values.mono le)

theorem assignToMember_mirrors {tm : Mark} {object value : Expr} {property : Name}
    (objects : TypedAlike W c c' scope scope' object) (settled : ¬ B property.text)
    (values : TypedAlike W c c' scope scope' value) :
    Mirrors W c c' (infer scope expected (.assign m (.member tm object property) value))
      (infer scope' expected' (.assign m (.member tm object property) value)) Ty.Alike := by
  rw [infer, infer]
  refine .noting (received_mirrors contexts scopes objects.unwanted fun W₁ recv recv' le₁ receivers => ?_)
  refine (assignedMember_mirrors (contexts.mono le₁) (scopes.mono le₁) receivers tm.span property settled).bind
    fun _ _ _ le₂ wants => ?_
  have le := le₁.trans le₂
  exact assigned_mirrors (contexts.mono le) wants (values.mono le)

theorem assignToIndex_mirrors {tm : Mark} {object position value : Expr} (objects : TypedAlike W c c' scope scope' object)
    (positions : TypedAlike W c c' scope scope' position) (values : TypedAlike W c c' scope scope' value) :
    Mirrors W c c' (infer scope expected (.assign m (.index tm object position) value))
      (infer scope' expected' (.assign m (.index tm object position) value)) Ty.Alike := by
  rw [infer, infer]
  refine .noting (received_mirrors contexts scopes objects.unwanted fun W₁ recv recv' le₁ receivers => ?_)
  refine (indexSignature_mirrors (contexts.mono le₁) (scopes.mono le₁) receivers _ 2 m.span).bind
    fun _ s s' le₂ signatures => ?_
  have le := le₁.trans le₂
  have places := getElem?_related signatures.params 0
  refine passed_mirrors (contexts.mono le) places (positions _ le places) fun W₃ _ _ le₃ _ => ?_
  have le := le.trans le₃
  have slots := getElem?_related (signatures.params.imp fun _ _ types => types.mono le₃) 1
  exact passed_mirrors (contexts.mono le) slots (values _ le slots) fun _ _ _ _ gots => .pure gots

theorem index_mirrors {object position : Expr} (objects : TypedAlike W c c' scope scope' object)
    (positions : TypedAlike W c c' scope scope' position) :
    Mirrors W c c' (infer scope expected (.index m object position)) (infer scope' expected' (.index m object position))
      Ty.Alike := by
  rw [infer, infer]
  refine .noting (received_mirrors contexts scopes objects.unwanted fun W₁ recv recv' le₁ receivers => ?_)
  refine (indexSignature_mirrors (contexts.mono le₁) (scopes.mono le₁) receivers _ 1 m.span).bind
    fun _ s s' le₂ signatures => ?_
  have le := le₁.trans le₂
  have places := getElem?_related signatures.params 0
  exact passed_mirrors (contexts.mono le) places (positions _ le places) fun _ _ _ le₃ _ =>
    .pure (signatures.result.mono le₃)

theorem memberCall_mirrors {cm : Mark} {object : Expr} {property : Name} {args : List Expr}
    (objects : TypedAlike W c c' scope scope' object) (settled : ¬ B property.text)
    (passed : PassedAlike W c c' scope scope' args) :
    Mirrors W c c' (infer scope expected (.call m (.member cm object property) args))
      (infer scope' expected' (.call m (.member cm object property) args)) Ty.Alike := by
  rw [infer, infer]
  refine .noting (received_mirrors contexts scopes objects.unwanted fun W₁ recv recv' le₁ receivers => ?_)
  refine (memberSignature_mirrors (contexts.mono le₁) (scopes.mono le₁) receivers cm.span property args.length m.span
    settled).bind fun _ s s' le₂ signatures => ?_
  exact called_mirrors signatures (passed.mono (le₁.trans le₂))

theorem superCall_mirrors {pm : Mark} {args : List Expr} (passed : PassedAlike W c c' scope scope' args) :
    Mirrors W c c' (infer scope expected (.call m (.parent pm) args)) (infer scope' expected' (.call m (.parent pm) args))
      Ty.Alike := by
  rw [infer, infer]
  refine .noting ((parentConstructor_mirrors contexts scopes pm.span args.length m.span).bind
    fun _ s s' le signatures => ?_)
  exact called_mirrors signatures (passed.mono le)

theorem creation_mirrors (wanted : Option.Rel (Ty.Alike W) expected expected') {type : TypeExpr} {args : List Expr}
    (passed : PassedAlike W c c' scope scope' args) :
    Mirrors W c c' (infer scope expected (.create m type args)) (infer scope' expected' (.create m type args)) Ty.Alike := by
  rw [infer, infer]
  refine .noting ((constructed_mirrors contexts type wanted).bind fun _ p p' le classes => ?_)
  refine (constructionSignature_mirrors (contexts.mono le) (scopes.mono le) classes.1 classes.2 args.length m.span).bind
    fun _ s s' le' signatures => ?_
  exact called_mirrors signatures (passed.mono (le.trans le'))

omit scopes in
theorem lambda_mirrors (wanted : Option.Rel (Ty.Alike W) expected expected') {params : List Param} {result : Option TypeExpr}
    {body : LambdaBody}
    (bound : ∀ {wants wants' : List Ty}, List.Forall₂ (Ty.Alike W) wants wants' →
      Mirrors W c c' (inferParams scope wants params) (inferParams scope' wants' params)
        fun W' => List.Forall₂ (Binding.Alike W'))
    (bodies : ∀ W', W ≤ W' → ∀ {bs bs' : List Binding}, List.Forall₂ (Binding.Alike W') bs bs' →
      ∀ {d d' : Option Ty}, Option.Rel (Ty.Alike W') d d' →
        Mirrors W' c c' (inferBody (scope.enter bs) d body) (inferBody (scope'.enter bs') d' body) Ty.Alike) :
    Mirrors W c c' (infer scope expected (.lambda m params result body))
      (infer scope' expected' (.lambda m params result body)) Ty.Alike := by
  have wants := expectedFunction_alike wanted params.length
  rw [infer, infer]
  dsimp only
  generalize expectedFunction expected params.length = want at wants ⊢
  generalize expectedFunction expected' params.length = want' at wants ⊢
  have given : List.Forall₂ (Ty.Alike W) ((want.map (·.1)).getD []) ((want'.map (·.1)).getD []) := by
    cases wants with
    | none => exact .nil
    | some both => exact both.1
  have results : Option.Rel (Ty.Alike W) (want.map (·.2)) (want'.map (·.2)) := by
    cases wants with
    | none => exact .none
    | some both => exact .some both.2
  refine .noting ((bound given).bind fun W₁ bs bs' le₁ bindings => ?_)
  have finish {W₂ : Pairing} (le₂ : W₁ ≤ W₂) {d d' : Option Ty} (declared : Option.Rel (Ty.Alike W₂) d d') :
      Mirrors W₂ c c' (inferBody (scope.enter bs) d body >>= fun t => pure (.function (bs.map (·.type)) t))
        (inferBody (scope'.enter bs') d' body >>= fun t => pure (.function (bs'.map (·.type)) t)) Ty.Alike := by
    have bindings := bindings.imp fun _ _ binding => binding.mono le₂
    refine (bodies _ (le₁.trans le₂) bindings declared).bind fun _ _ _ le₃ types => ?_
    refine .pure ⟨_, _, rfl, alikeAll_iff.2 (List.rel_map ?_ bindings), types⟩
    exact fun _ _ binding => binding.type.mono le₃
  cases result with
  | some t =>
    exact (written_mirrors (contexts.kin.mono le₁) t).some.bind fun _ _ _ le₂ declared => finish le₂ declared
  | none =>
    refine Mirrors.bind (Mirrors.pure (P := fun W' => Option.Rel (Ty.Alike W')) ?_) fun _ _ _ le₂ declared =>
      finish le₂ declared
    exact optionRel_imp (fun _ _ types => types.mono le₁) results

end Constructs

/-- A call of something that is neither the superclass nor a member. -/
private theorem infer_call {scope : Scope} {expected : Option Ty} {m : Mark} {callee : Expr} {args : List Expr}
    (notParent : ∀ pm, callee = .parent pm → False) (notMember : ∀ cm o p, callee = .member cm o p → False) :
    infer scope expected (.call m callee args) = noting m.span (do
      let t ← infer scope none callee
      let s ← valueSignature callee.text.shown t args.length m.span callee.span
      passAll scope s.params args
      return s.result) := by
  rw [infer]
  · rfl
  · exact notParent
  · exact notMember

private theorem call_mirrors {W : Pairing} {c c' : Context} {scope scope' : Scope} {expected expected' : Option Ty}
    {m : Mark} {callee : Expr} {args : List Expr} (notParent : ∀ pm, callee = .parent pm → False)
    (notMember : ∀ cm o p, callee = .member cm o p → False)
    (called : Mirrors W c c' (infer scope none callee) (infer scope' none callee) Ty.Alike)
    (passed : PassedAlike W c c' scope scope' args) :
    Mirrors W c c' (infer scope expected (.call m callee args)) (infer scope' expected' (.call m callee args))
      Ty.Alike := by
  rw [infer_call notParent notMember, infer_call notParent notMember]
  refine .noting (called.bind fun _ _ _ le types => ?_)
  refine (valueSignature_mirrors _ types args.length m.span callee.span).bind fun _ s s' le' signatures => ?_
  exact called_mirrors signatures (passed.mono (le.trans le'))

/-! ## Expressions and statements -/

-- The induction is on the syntax. The pairing grows along the run: the code that comes next is mirrored at the
-- pairing that has been reached, and what is known at an earlier one is moved there by `mono`.
mutual

theorem infer_mirrors {W : Pairing} {B : String → Prop} {c c' : Context} (contexts : Context.Alike W B c c')
    {scope scope' : Scope} (scopes : scope.Alike W scope') {expected expected' : Option Ty}
    (wanted : Option.Rel (Ty.Alike W) expected expected') (e : Expr) (avoids : Avoids B e.sites) :
    Mirrors W c c' (infer scope expected e) (infer scope' expected' e) Ty.Alike := by
  cases e with
  | name id =>
    rw [infer, infer]
    exact .noting (nameType_mirrors contexts scopes id)
  | number m digits =>
    rw [infer, infer]
    exact .noting (.pure rfl)
  | string q =>
    rw [infer, infer]
    exact .noting (.pure rfl)
  | boolean m value =>
    rw [infer, infer]
    exact .noting (.pure rfl)
  | null m =>
    rw [infer, infer]
    exact .noting (.pure rfl)
  | self m =>
    have bindings := scopes.find? Builtin.selfName
    rw [infer, infer]
    refine .noting ?_
    generalize scope.find? Builtin.selfName = a at bindings ⊢
    generalize scope'.find? Builtin.selfName = b at bindings ⊢
    cases bindings with
    | none => exact .reject
    | some bindings => exact .pure bindings.type
  | parent m =>
    rw [infer, infer]
    exact .noting .reject
  | unary m op operand =>
    simp only [Expr.sites, avoids_cons] at avoids
    rw [infer, infer]
    refine .noting ((infer_mirrors contexts scopes .none operand avoids.2).bind fun _ _ _ le types => ?_)
    have slots {W : Pairing} : (unaryType op).Alike W (unaryType op) := by cases op <;> rfl
    refine (requireAccepts_mirrors (contexts.mono le) slots types).bind fun _ _ _ _ _ => ?_
    exact .pure slots
  | binary m op left right =>
    simp only [Expr.sites, avoids_cons, avoids_append] at avoids
    rw [infer, infer]
    refine .noting ((infer_mirrors contexts scopes .none left avoids.2.1).bind fun _ _ _ le lefts => ?_)
    refine (infer_mirrors (contexts.mono le) (scopes.mono le) .none right avoids.2.2).bind fun _ _ _ le' rights => ?_
    exact binaryType_mirrors (contexts.mono (le.trans le')) m.span op (lefts.mono le') rights
  | assign m target value =>
    simp only [Expr.sites, avoids_cons, avoids_append] at avoids
    obtain ⟨-, targets, avoided⟩ := avoids
    have values : TypedAlike W c c' scope scope' value := fun _ le _ _ wanted =>
      infer_mirrors (contexts.mono le) (scopes.mono le) wanted value avoided
    cases target with
    | name id => exact assignToName_mirrors contexts scopes values
    | member tm object property =>
      simp only [Expr.sites, avoids_cons] at targets
      refine assignToMember_mirrors contexts scopes (fun _ le _ _ wanted => ?_) (targets.2.1 property rfl) values
      exact infer_mirrors (contexts.mono le) (scopes.mono le) wanted object targets.2.2
    | index tm object position =>
      simp only [Expr.sites, avoids_cons, avoids_append] at targets
      refine assignToIndex_mirrors contexts scopes (fun _ le _ _ wanted => ?_) (fun _ le _ _ wanted => ?_) values
      · exact infer_mirrors (contexts.mono le) (scopes.mono le) wanted object targets.2.1
      · exact infer_mirrors (contexts.mono le) (scopes.mono le) wanted position targets.2.2
    | _ =>
      rw [infer, infer]
      · exact .noting .reject
      all_goals simp
  | member m object property =>
    simp only [Expr.sites, avoids_cons] at avoids
    rw [infer, infer]
    refine .noting (received_mirrors contexts scopes (infer_mirrors contexts scopes .none object avoids.2.2) ?_)
    intro W₁ recv recv' le receivers
    cases receivers with
    | none => exact .fresh property.text
    | some receivers =>
      refine (useMember_mirrors (contexts.mono le) (scopes.mono le) receivers property.text property.span).bind
        fun _ _ _ _ members => ?_
      exact type_mirrors members (avoids.2.1 property rfl)
  | index m object position =>
    simp only [Expr.sites, avoids_cons, avoids_append] at avoids
    refine index_mirrors contexts scopes (fun _ le _ _ wanted => ?_) (fun _ le _ _ wanted => ?_)
    · exact infer_mirrors (contexts.mono le) (scopes.mono le) wanted object avoids.2.1
    · exact infer_mirrors (contexts.mono le) (scopes.mono le) wanted position avoids.2.2
  | call m callee args =>
    simp only [Expr.sites, avoids_cons, avoids_append] at avoids
    obtain ⟨-, callees, all⟩ := avoids
    have called := infer_mirrors contexts scopes .none callee callees
    have passed : PassedAlike W c c' scope scope' args := fun _ le _ _ wanted =>
      passAll_mirrors (contexts.mono le) (scopes.mono le) wanted args all
    cases callee with
    | parent pm => exact superCall_mirrors contexts scopes passed
    | member cm object property =>
      simp only [Expr.sites, avoids_cons] at callees
      refine memberCall_mirrors contexts scopes (fun _ le _ _ wanted => ?_) (callees.2.1 property rfl) passed
      exact infer_mirrors (contexts.mono le) (scopes.mono le) wanted object callees.2.2
    | _ => exact call_mirrors (by simp) (by simp) called passed
  | create m type args =>
    simp only [Expr.sites, avoids_cons] at avoids
    refine creation_mirrors contexts scopes wanted fun _ le _ _ params => ?_
    exact passAll_mirrors (contexts.mono le) (scopes.mono le) params args avoids.2.2
  | array m items =>
    simp only [Expr.sites, avoids_cons] at avoids
    have wants := expectedElement_alike wanted
    rw [infer, infer]
    dsimp only
    have declared : (expectedElement expected).isSome = (expectedElement expected').isSome := by
      generalize expectedElement expected = a at wants ⊢
      generalize expectedElement expected' = b at wants ⊢
      cases wants <;> rfl
    rw [declared]
    refine .noting ((inferElements_mirrors contexts scopes _ wants items avoids.2).bind fun _ _ _ le elements => ?_)
    exact arrayType_mirrors (contexts.mono le) m.span elements
  | lambda m params result body =>
    simp only [Expr.sites, avoids_cons, avoids_append, avoids_carry] at avoids
    refine lambda_mirrors contexts wanted (fun given => ?_) fun _ le _ _ bindings _ _ declared => ?_
    · exact inferParams_mirrors contexts scopes given params avoids.2.1
    · exact inferBody_mirrors (contexts.mono le) ((scopes.mono le).enter bindings) declared body avoids.2.2
  | markup element =>
    obtain ⟨m, tag, attributes, children, selfClosing⟩ := element
    simp only [Expr.sites, avoids_cons, avoids_append] at avoids
    rw [infer, infer]
    refine .noting ((inferAttributes_mirrors contexts scopes attributes avoids.2.1).bind fun _ _ _ le _ => ?_)
    refine (inferChildren_mirrors (contexts.mono le) (scopes.mono le) children avoids.2.2).bind fun _ _ _ le' _ => ?_
    exact markupType_mirrors (contexts.mono (le.trans le'))

theorem passAll_mirrors {W : Pairing} {B : String → Prop} {c c' : Context} (contexts : Context.Alike W B c c')
    {scope scope' : Scope} (scopes : scope.Alike W scope') {wants wants' : List Ty}
    (wanted : List.Forall₂ (Ty.Alike W) wants wants') (es : List Expr) (avoids : Avoids B (Expr.sitesAll es)) :
    Mirrors W c c' (passAll scope wants es) (passAll scope' wants' es) fun _ _ _ => True := by
  cases es with
  | nil =>
    rw [passAll, passAll]
    exact .pure trivial
  | cons e es =>
    rw [Expr.sitesAll, avoids_append] at avoids
    rw [passAll, passAll]
    refine passed_mirrors contexts (head?_related wanted) (infer_mirrors contexts scopes (head?_related wanted) e avoids.1)
      fun _ _ _ le _ => ?_
    have params := wanted.imp fun _ _ types => types.mono le
    exact passAll_mirrors (contexts.mono le) (scopes.mono le) (tail_related params) es avoids.2

theorem inferElements_mirrors {W : Pairing} {B : String → Prop} {c c' : Context} (contexts : Context.Alike W B c c')
    {scope scope' : Scope} (scopes : scope.Alike W scope') (declared : Bool) {element element' : Option Ty}
    (elements : Option.Rel (Ty.Alike W) element element') (es : List Expr) (avoids : Avoids B (Expr.sitesAll es)) :
    Mirrors W c c' (inferElements scope declared element es) (inferElements scope' declared element' es)
      fun W' => Option.Rel (Ty.Alike W') := by
  cases es with
  | nil =>
    rw [inferElements, inferElements]
    exact .pure elements
  | cons e es =>
    rw [Expr.sitesAll, avoids_append] at avoids
    rw [inferElements, inferElements]
    refine (infer_mirrors contexts scopes elements e avoids.1).bind fun _ _ _ le types => ?_
    have elements := optionRel_imp (fun _ _ (types : Ty.Alike W _ _) => types.mono le) elements
    refine (joinElement_mirrors (contexts.mono le) declared e.span elements types).bind fun _ _ _ le' types => ?_
    have le := le.trans le'
    exact inferElements_mirrors (contexts.mono le) (scopes.mono le) declared (.some types) es avoids.2

theorem inferParams_mirrors {W : Pairing} {B : String → Prop} {c c' : Context} (contexts : Context.Alike W B c c')
    {scope scope' : Scope} (scopes : scope.Alike W scope') {wants wants' : List Ty}
    (wanted : List.Forall₂ (Ty.Alike W) wants wants') (ps : List Param) (avoids : Avoids B (Param.sitesAll ps)) :
    Mirrors W c c' (inferParams scope wants ps) (inferParams scope' wants' ps)
      fun W' => List.Forall₂ (Binding.Alike W') := by
  cases ps with
  | nil =>
    rw [inferParams, inferParams]
    exact .pure .nil
  | cons p ps =>
    obtain ⟨m, name, type, fallback⟩ := p
    have split : (∀ e, fallback = some e → Avoids B e.sites) ∧ Avoids B (Param.sitesAll ps) := by
      cases fallback with
      | none => exact ⟨by simp, by simpa only [Param.sitesAll] using avoids⟩
      | some e =>
        rw [Param.sitesAll, avoids_append] at avoids
        exact ⟨by simpa using avoids.1, avoids.2⟩
    rw [inferParams, inferParams]
    refine (paramType_mirrors contexts name type (head?_related wanted)).bind fun _ _ _ le types => ?_
    refine (inferDefault_mirrors (contexts.mono le) (scopes.mono le) name.text types fallback split.1).bind
      fun _ _ _ le' _ => ?_
    have le := le.trans le'
    have params := wanted.imp fun _ _ types => types.mono le
    refine (inferParams_mirrors (contexts.mono le) (scopes.mono le) (tail_related params) ps split.2).bind
      fun _ _ _ le'' bindings => ?_
    exact .pure (.cons ⟨rfl, types.mono (le'.trans le''), rfl⟩ bindings)

theorem inferDefault_mirrors {W : Pairing} {B : String → Prop} {c c' : Context} (contexts : Context.Alike W B c c')
    {scope scope' : Scope} (scopes : scope.Alike W scope') (name : String) {want want' : Ty}
    (wanted : want.Alike W want') (fallback : Option Expr) (avoids : ∀ e, fallback = some e → Avoids B e.sites) :
    Mirrors W c c' (inferDefault scope name want fallback) (inferDefault scope' name want' fallback)
      fun _ _ _ => True := by
  cases fallback with
  | none =>
    rw [inferDefault, inferDefault]
    exact .pure trivial
  | some e =>
    rw [inferDefault, inferDefault]
    refine (infer_mirrors contexts scopes (.some wanted) e (avoids e rfl)).bind fun _ _ _ le types => ?_
    exact requireAccepts_mirrors (contexts.mono le) (wanted.mono le) types

theorem inferBody_mirrors {W : Pairing} {B : String → Prop} {c c' : Context} (contexts : Context.Alike W B c c')
    {scope scope' : Scope} (scopes : scope.Alike W scope') {declared declared' : Option Ty}
    (written : Option.Rel (Ty.Alike W) declared declared') (body : LambdaBody) (avoids : Avoids B body.sites) :
    Mirrors W c c' (inferBody scope declared body) (inferBody scope' declared' body) Ty.Alike := by
  cases body with
  | value e =>
    rw [LambdaBody.sites] at avoids
    rw [inferBody, inferBody]
    refine (infer_mirrors contexts scopes written e avoids).bind fun _ _ _ le types => ?_
    cases written with
    | none => exact .pure types
    | some written =>
      have written := written.mono le
      refine .ite written.isVoid.symm (.pure written) ?_
      refine (requireAccepts_mirrors (contexts.mono le) written types).bind fun _ _ _ le' _ => ?_
      exact .pure (written.mono le')
  | block b =>
    rw [LambdaBody.sites] at avoids
    have checked {W' : Pairing} (le : W ≤ W') {d d' : Ty} (types : d.Alike W' d') :
        Mirrors W' c c' (expecting d (checkBlock scope b) >>= fun _ => pure d)
          (expecting d' (checkBlock scope' b) >>= fun _ => pure d') Ty.Alike := by
      have inner : Context.Alike W' B { c with result := d } { c' with result := d' } :=
        { contexts.mono le with result := types }
      refine Mirrors.bind (.withReader (checkBlock_mirrors inner (scopes.mono le) b avoids)) fun _ _ _ le' _ => ?_
      exact .pure (types.mono le')
    cases written with
    | some written =>
      rw [inferBody, inferBody]
      exact (Mirrors.pure written).bind fun _ _ _ le types => checked le types
    | none =>
      rw [inferBody, inferBody]
      exact (Mirrors.fresh "R").bind fun _ _ _ le types => checked le types

theorem inferAttributes_mirrors {W : Pairing} {B : String → Prop} {c c' : Context} (contexts : Context.Alike W B c c')
    {scope scope' : Scope} (scopes : scope.Alike W scope') (as : List Attribute)
    (avoids : Avoids B (Attribute.sitesAll as)) :
    Mirrors W c c' (inferAttributes scope as) (inferAttributes scope' as) fun _ _ _ => True := by
  cases as with
  | nil =>
    rw [inferAttributes, inferAttributes]
    exact .pure trivial
  | cons a as =>
    obtain ⟨m, name, value⟩ := a
    rw [Attribute.sitesAll, avoids_append] at avoids
    rw [inferAttributes, inferAttributes]
    refine (infer_mirrors contexts scopes .none value avoids.1).bind fun _ _ _ le _ => ?_
    exact inferAttributes_mirrors (contexts.mono le) (scopes.mono le) as avoids.2

theorem inferChildren_mirrors {W : Pairing} {B : String → Prop} {c c' : Context} (contexts : Context.Alike W B c c')
    {scope scope' : Scope} (scopes : scope.Alike W scope') (cs : List Child) (avoids : Avoids B (Child.sitesAll cs)) :
    Mirrors W c c' (inferChildren scope cs) (inferChildren scope' cs) fun _ _ _ => True := by
  cases cs with
  | nil =>
    rw [inferChildren, inferChildren]
    exact .pure trivial
  | cons child cs =>
    cases child with
    | element e =>
      obtain ⟨m, tag, attributes, children, selfClosing⟩ := e
      simp only [Child.sitesAll, List.cons_append, avoids_cons, avoids_append] at avoids
      rw [inferChildren, inferChildren]
      refine (inferAttributes_mirrors contexts scopes attributes avoids.2.1.1).bind fun _ _ _ le₁ _ => ?_
      refine (inferChildren_mirrors (contexts.mono le₁) (scopes.mono le₁) children avoids.2.1.2).bind
        fun _ _ _ le₂ _ => ?_
      have le := le₁.trans le₂
      refine (markupType_mirrors (contexts.mono le)).bind fun _ _ _ le₃ _ => ?_
      refine Mirrors.note.bind fun _ _ _ le₄ _ => ?_
      have le := (le.trans le₃).trans le₄
      exact inferChildren_mirrors (contexts.mono le) (scopes.mono le) cs avoids.2.2
    | text m text =>
      rw [Child.sitesAll] at avoids
      rw [inferChildren, inferChildren]
      exact inferChildren_mirrors contexts scopes cs avoids
    | hole m e =>
      rw [Child.sitesAll, avoids_append] at avoids
      rw [inferChildren, inferChildren]
      refine (infer_mirrors contexts scopes .none e avoids.1).bind fun _ _ _ le _ => ?_
      exact inferChildren_mirrors (contexts.mono le) (scopes.mono le) cs avoids.2

theorem checkBlock_mirrors {W : Pairing} {B : String → Prop} {c c' : Context} (contexts : Context.Alike W B c c')
    {scope scope' : Scope} (scopes : scope.Alike W scope') (b : Block) (avoids : Avoids B b.sites) :
    Mirrors W c c' (checkBlock scope b) (checkBlock scope' b) fun _ _ _ => True := by
  obtain ⟨m, statements⟩ := b
  rw [Block.sites] at avoids
  rw [checkBlock, checkBlock]
  refine (checkAll_mirrors contexts (scopes.enter .nil) statements avoids).bind fun _ _ _ _ _ => ?_
  exact .pure trivial

theorem checkAll_mirrors {W : Pairing} {B : String → Prop} {c c' : Context} (contexts : Context.Alike W B c c')
    {scope scope' : Scope} (scopes : scope.Alike W scope') (ss : List Stmt) (avoids : Avoids B (Stmt.sitesAll ss)) :
    Mirrors W c c' (checkAll scope ss) (checkAll scope' ss) Scope.Alike := by
  cases ss with
  | nil =>
    rw [checkAll, checkAll]
    exact .pure scopes
  | cons s ss =>
    rw [Stmt.sitesAll, avoids_append] at avoids
    rw [checkAll, checkAll]
    refine (check_mirrors contexts scopes s avoids.1).bind fun _ _ _ le scopes => ?_
    exact checkAll_mirrors (contexts.mono le) scopes ss avoids.2

theorem checkArms_mirrors {W : Pairing} {B : String → Prop} {c c' : Context} (contexts : Context.Alike W B c c')
    {scope scope' : Scope} (scopes : scope.Alike W scope') {subject subject' : Ty}
    (subjects : subject.Alike W subject') (as : List Arm) (avoids : Avoids B (Arm.sitesAll as)) :
    Mirrors W c c' (checkArms scope subject as) (checkArms scope' subject' as) fun _ _ _ => True := by
  cases as with
  | nil =>
    rw [checkArms, checkArms]
    exact .pure trivial
  | cons a as =>
    obtain ⟨m, value, body⟩ := a
    rw [Arm.sitesAll, avoids_append, avoids_append] at avoids
    rw [checkArms, checkArms]
    refine (infer_mirrors contexts scopes (.some subjects) value avoids.1.1).bind fun _ _ _ le₁ types => ?_
    refine (requireAccepts_mirrors (contexts.mono le₁) (subjects.mono le₁) types).bind fun _ _ _ le₂ _ => ?_
    have le := le₁.trans le₂
    refine (checkBlock_mirrors (contexts.mono le) (scopes.mono le) body avoids.1.2).bind fun _ _ _ le₃ _ => ?_
    have le := le.trans le₃
    exact checkArms_mirrors (contexts.mono le) (scopes.mono le) (subjects.mono le) as avoids.2

theorem check_mirrors {W : Pairing} {B : String → Prop} {c c' : Context} (contexts : Context.Alike W B c c')
    {scope scope' : Scope} (scopes : scope.Alike W scope') (s : Stmt) (avoids : Avoids B s.sites) :
    Mirrors W c c' (check scope s) (check scope' s) Scope.Alike := by
  cases s with
  | does m e =>
    simp only [Stmt.sites, avoids_cons] at avoids
    rw [check, check]
    exact (infer_mirrors contexts scopes .none e avoids.2).bind fun _ _ _ le _ => .pure (scopes.mono le)
  | binds m name type value =>
    rw [check, check]
    refine (Mirrors.require (by rw [scopes.isLocal])).bind fun W₁ _ _ le₁ _ => ?_
    refine declared_mirrors (contexts.kin.mono le₁) type fun W₂ d d' le₂ declared => ?_
    have le := le₁.trans le₂
    have bound {W₃ : Pairing} (le₃ : W₂ ≤ W₃) {v v' : Option (Span × Ty)}
        (values : Option.Rel (fun v v' => v.1 = v'.1 ∧ v.2.Alike W₃ v'.2) v v') :
        Mirrors W₃ c c' (boundType name.text d v >>= fun t => pure (scope.define ⟨name.text, t, false⟩))
          (boundType name.text d' v' >>= fun t => pure (scope'.define ⟨name.text, t, false⟩)) Scope.Alike := by
      have le := le.trans le₃
      have declared := optionRel_imp (fun _ _ (types : Ty.Alike W₂ _ _) => types.mono le₃) declared
      refine (boundType_mirrors (contexts.mono le) name.text declared values).bind fun _ _ _ le₄ types => ?_
      exact .pure ((scopes.mono (le.trans le₄)).define ⟨rfl, types, rfl⟩)
    cases value with
    | none => exact bound le_rfl .none
    | some e =>
      simp only [Stmt.sites, avoids_cons] at avoids
      refine (infer_mirrors (contexts.mono le) (scopes.mono le) declared e avoids.2).bind fun _ _ _ le₃ types => ?_
      exact bound le₃ (.some ⟨rfl, types⟩)
  | block b =>
    simp only [Stmt.sites, avoids_cons] at avoids
    rw [check, check]
    exact (checkBlock_mirrors contexts scopes b avoids.2).bind fun _ _ _ le _ => .pure (scopes.mono le)
  | branch m condition yes no =>
    have start (conditions : Avoids B condition.sites) (block : Avoids B yes.sites) {x y : Analysis Scope}
        (next : ∀ W', W ≤ W' → Mirrors W' c c' x y Scope.Alike) :
        Mirrors W c c'
          (infer scope (some .boolean) condition >>= fun t =>
            requireAccepts .boolean t condition.span (.badCondition t) >>= fun _ => checkBlock scope yes >>= fun _ => x)
          (infer scope' (some .boolean) condition >>= fun t =>
            requireAccepts .boolean t condition.span (.badCondition t) >>= fun _ => checkBlock scope' yes >>= fun _ => y)
          Scope.Alike := by
      have boolean {W : Pairing} : Ty.boolean.Alike W .boolean := rfl
      refine (infer_mirrors contexts scopes (.some boolean) condition conditions).bind fun _ _ _ le₁ types => ?_
      refine (requireAccepts_mirrors (contexts.mono le₁) boolean types).bind fun _ _ _ le₂ _ => ?_
      have le := le₁.trans le₂
      exact (checkBlock_mirrors (contexts.mono le) (scopes.mono le) yes block).bind fun _ _ _ le₃ _ =>
        next _ (le.trans le₃)
    cases no with
    | none =>
      simp only [Stmt.sites, avoids_cons, avoids_append] at avoids
      rw [check, check]
      exact start avoids.2.1 avoids.2.2 fun _ le => .pure (scopes.mono le)
    | some s =>
      simp only [Stmt.sites, avoids_cons, avoids_append] at avoids
      rw [check, check]
      refine start avoids.2.1.1 avoids.2.1.2 fun _ le => ?_
      refine (check_mirrors (contexts.mono le) (scopes.mono le) s avoids.2.2).bind fun _ _ _ le' _ => ?_
      exact .pure (scopes.mono (le.trans le'))
  | select m subject arms fallback =>
    have start (subjects : Avoids B subject.sites) (all : Avoids B (Arm.sitesAll arms)) {x y : Analysis Scope}
        (next : ∀ W', W ≤ W' → Mirrors W' c c' x y Scope.Alike) :
        Mirrors W c c' (infer scope none subject >>= fun t => checkArms scope t arms >>= fun _ => x)
          (infer scope' none subject >>= fun t => checkArms scope' t arms >>= fun _ => y) Scope.Alike := by
      refine (infer_mirrors contexts scopes .none subject subjects).bind fun _ _ _ le₁ types => ?_
      exact (checkArms_mirrors (contexts.mono le₁) (scopes.mono le₁) types arms all).bind fun _ _ _ le₂ _ =>
        next _ (le₁.trans le₂)
    cases fallback with
    | none =>
      simp only [Stmt.sites, avoids_cons, avoids_append] at avoids
      rw [check, check]
      exact start avoids.2.1 avoids.2.2 fun _ le => .pure (scopes.mono le)
    | some b =>
      simp only [Stmt.sites, avoids_cons, avoids_append] at avoids
      rw [check, check]
      refine start avoids.2.1.1 avoids.2.1.2 fun _ le => ?_
      refine (checkBlock_mirrors (contexts.mono le) (scopes.mono le) b avoids.2.2).bind fun _ _ _ le' _ => ?_
      exact .pure (scopes.mono (le.trans le'))
  | each m item iterable body =>
    simp only [Stmt.sites, avoids_cons, avoids_append] at avoids
    rw [check, check]
    refine (infer_mirrors contexts scopes .none iterable avoids.2.1).bind fun _ _ _ le₁ types => ?_
    refine (elementType_mirrors iterable.span types).bind fun W₂ t t' le₂ types => ?_
    have le := le₁.trans le₂
    have item : Binding.Alike W₂ ⟨item.text, t, false⟩ ⟨item.text, t', false⟩ := ⟨rfl, types, rfl⟩
    have inner := (scopes.mono le).enter (.cons item .nil)
    refine (checkBlock_mirrors (contexts.mono le) inner body avoids.2.2).bind fun _ _ _ le₃ _ => ?_
    exact .pure (scopes.mono (le.trans le₃))
  | returns m value =>
    have results := contexts.result
    cases value with
    | none =>
      rw [check, check]
      refine .read ((Mirrors.require (mayReturnNothing_alike results).symm).bind fun _ _ _ le _ => ?_)
      exact .pure (scopes.mono le)
    | some e =>
      simp only [Stmt.sites, avoids_cons] at avoids
      rw [check, check]
      refine .read ((Mirrors.require (by rw [results.isVoid])).bind fun _ _ _ le₁ _ => ?_)
      refine (infer_mirrors (contexts.mono le₁) (scopes.mono le₁) (.some (results.mono le₁)) e avoids.2).bind
        fun _ _ _ le₂ types => ?_
      have le := le₁.trans le₂
      refine (requireAccepts_mirrors (contexts.mono le) (results.mono le) types).bind fun _ _ _ le₃ _ => ?_
      exact .pure (scopes.mono (le.trans le₃))
  | declares d =>
    rw [check, check]
    exact .reject
  | uses m names path =>
    rw [check, check]
    exact .reject

end

end ClassScript.Typing
