import ClassScript.Proofs.Phases

/-!
Initial and default values are typed one declaration after the other, and see the types of fields that have been
found before. If no such value mentions a field of another declaration for which no type is written, the order of
the declarations makes no difference (`keyed_settle`).
-/

namespace ClassScript

/-- The fields for which no type is written. -/
def Declaration.untyped (d : Declaration) : List String :=
  (d.fields.filter fun f => f.type.isNone).map fun f => f.name.text

/-- The values that are typed before the types of all fields are known: the initial values of fields for which no
type is written, and the default values of methods. -/
def Declaration.earlyValues (d : Declaration) : List Expr :=
  (d.fields.filter fun f => f.type.isNone).filterMap Field.init ++ (d.methods.flatMap Method.params).filterMap Param.fallback

/-- The member that a site names. -/
def Site.member? (s : Site) : Option String :=
  match s.node with
  | .name n => some n.text
  | _ => none

/-- The members that an expression mentions. -/
def Expr.members (e : Expr) : List String := e.sites.filterMap Site.member?

/-- No value that is typed early mentions a member with the name of a field of another declaration for which no
type is written. -/
def Independent (declarations : List (String × Declaration)) : Prop :=
  ∀ d ∈ declarations, ∀ other ∈ declarations, other.2.name.text ≠ d.2.name.text →
    ∀ e ∈ d.2.earlyValues, ∀ n ∈ e.members, n ∉ other.2.untyped

instance (declarations : List (String × Declaration)) : Decidable (Independent declarations) :=
  inferInstanceAs (Decidable (∀ d ∈ declarations, ∀ other ∈ declarations, other.2.name.text ≠ d.2.name.text →
    ∀ e ∈ d.2.earlyValues, ∀ n ∈ e.members, n ∉ other.2.untyped))

namespace Typing

variable {W : Pairing} {B : String → Prop} {c c' : Context} {declarations : List (String × Declaration)}
  {r r' r₁ : Registry} {name : String}

/-- The names of fields without a written type of the declarations beside one. -/
def OpenBeside (declarations : List (String × Declaration)) (name : String) (n : String) : Prop :=
  ∃ d ∈ declarations, d.2.name.text ≠ name ∧ n ∈ d.2.untyped

theorem avoids_early (independent : Independent declarations) {d : String × Declaration} (declared : d ∈ declarations)
    {e : Expr} (early : e ∈ d.2.earlyValues) : Avoids (OpenBeside declarations d.2.name.text) e.sites := by
  rintro site within n named ⟨other, declared', differs, untyped⟩
  refine independent d declared other declared' differs e early n.text ?_ untyped
  exact List.mem_filterMap.2 ⟨site, within, by rw [Site.member?, named]⟩

/-! ## Symbols of what was written -/

/-- A symbol of one of the declarations, with members that were written there. -/
structure Written (declarations : List (String × Declaration)) (d : DeclSymbol) : Prop where
  declared : (d.file, d.decl) ∈ declarations
  named : d.name = d.decl.name.text
  fields : ∀ f ∈ d.fields, f.decl ∈ d.decl.fields ∧ f.name = f.decl.name.text ∧ (f.type = none → f.decl.type = none)
  params : ∀ m ∈ d.methods, ∀ p ∈ m.params, ∃ written ∈ d.decl.methods, p.decl ∈ written.params

theorem Written.mono {others : List (String × Declaration)} {d : DeclSymbol} (written : Written declarations d)
    (more : (d.file, d.decl) ∈ declarations → (d.file, d.decl) ∈ others) : Written others d :=
  { written with declared := more written.declared }

theorem Written.untyped {d : DeclSymbol} (written : Written declarations d) {f : FieldSymbol} (member : f ∈ d.fields)
    (untyped : f.type = none) : f.name ∈ d.decl.untyped := by
  obtain ⟨within, named, none⟩ := written.fields f member
  rw [named]
  exact List.mem_map_of_mem (List.mem_filter.2 ⟨within, by simp [none untyped]⟩)

theorem Written.initial {d : DeclSymbol} (written : Written declarations d) {f : FieldSymbol} (member : f ∈ d.fields)
    (untyped : f.type = none) {e : Expr} (initial : f.decl.init = some e) : e ∈ d.decl.earlyValues := by
  obtain ⟨within, -, none⟩ := written.fields f member
  refine List.mem_append_left _ (List.mem_filterMap.2 ⟨f.decl, List.mem_filter.2 ⟨within, ?_⟩, initial⟩)
  simp [none untyped]

theorem Written.fallback {d : DeclSymbol} (written : Written declarations d) {m : MethodSymbol} (member : m ∈ d.methods)
    {p : ParamSymbol} (param : p ∈ m.params) {e : Expr} (fallback : p.decl.fallback = some e) :
    e ∈ d.decl.earlyValues := by
  obtain ⟨method, within, there⟩ := written.params m member p param
  exact List.mem_append_right _ (List.mem_filterMap.2 ⟨p.decl, List.mem_flatMap.2 ⟨method, within, there⟩, fallback⟩)

/-- Before its members are added, a symbol has none. -/
theorem written_registered (registered : Registered declarations r)
    (bare : ∀ d ∈ r, d.fields = [] ∧ d.methods = []) : ∀ d ∈ r, Written declarations d := by
  intro d member
  refine ⟨?_, ?_, by simp [(bare d member).1], by simp [(bare d member).2]⟩
  · rw [← registered.declared]
    exact List.mem_map_of_mem member
  · rw [DeclSymbol.name, registered.nominal d member]

theorem written_update {f : DeclSymbol → DeclSymbol} (written : ∀ d ∈ r, Written declarations d)
    (changed : ∀ d, Written declarations d → d.name = name → Written declarations (f d)) :
    ∀ d ∈ r.update name f, Written declarations d := by
  intro d member
  obtain ⟨e, within, rfl⟩ := Registry.mem_update.1 member
  split
  · next same => exact changed e (written e within) (by simpa using same)
  · exact written e within

theorem written_replace {f : DeclSymbol → Analysis DeclSymbol}
    (changed : ∀ {c d d'}, Written declarations d → Gives (f d) c d' → Written declarations d')
    (written : ∀ d ∈ r, Written declarations d) (gives : Gives (replace f r name) c r₁) :
    ∀ d ∈ r₁, Written declarations d := by
  rcases gives_replace gives with ⟨-, rfl⟩ | ⟨d, d', found, inner, rfl⟩
  · exact written
  · exact written_update written fun _ _ _ => changed (written d (Registry.mem_of_find? found)) inner

theorem written_withSupers {d d' : DeclSymbol} (written : Written declarations d) (gives : Gives (withSupers d) c d') :
    Written declarations d' := by
  obtain ⟨parent, interfaces, rfl⟩ := gives_withSupers_shape gives
  exact ⟨written.declared, written.named, written.fields, written.params⟩

theorem written_withMembers {d d' : DeclSymbol} (written : Written declarations d) (gives : Gives (withMembers d) c d') :
    Written declarations d' := by
  have members := (gives_withMembers gives).2.methods
  obtain ⟨fields, fieldsGive, gives⟩ := gives_bind (gives_inDecl gives)
  obtain ⟨methods, -, gives⟩ := gives_bind gives
  obtain rfl := gives_pure gives
  refine ⟨written.declared, written.named, fun s member => ?_, fun s member p param => ?_⟩
  · obtain ⟨f, within, gives⟩ := mem_of_forall₂_right (gives_mapM fieldsGive) member
    obtain ⟨⟨rfl, named, -⟩, none⟩ := gives_fieldSymbol gives
    exact ⟨within, named, none⟩
  · obtain ⟨m, within, symbolizes⟩ := mem_of_forall₂_right members member
    refine ⟨m, within, ?_⟩
    rw [← symbolizes.params]
    exact List.mem_map_of_mem param

theorem written_settleFields {fs : List FieldSymbol} (written : ∀ d ∈ r, Written declarations d)
    (gives : Gives (settleFields name fs r) c r₁) : ∀ d ∈ r₁, Written declarations d := by
  induction fs generalizing r with
  | nil =>
    rw [gives_pure gives]
    exact written
  | cons f fs ih =>
    unfold settleFields at gives
    split at gives
    · obtain ⟨t, -, gives⟩ := gives_bind gives
      refine ih (written_update written fun d written _ => ?_) gives
      refine ⟨written.declared, written.named, fun s member => ?_, written.params⟩
      obtain ⟨g, within, rfl⟩ := List.mem_map.1 member
      obtain ⟨there, named, none⟩ := written.fields g within
      split
      · exact ⟨there, named, by simp⟩
      · exact ⟨there, named, none⟩
    · exact ih written gives

/-! ## What settling leaves alone -/

/-- A field without its type, if its name is in `names`. -/
def blurField (names : List String) (f : FieldSymbol) : FieldSymbol :=
  if f.name ∈ names then { f with type := none } else f

/-- A method without the types of its default values. -/
def blurMethod (m : MethodSymbol) : MethodSymbol :=
  { m with params := m.params.map fun p => { p with defaultType := none } }

/-- A symbol without the types of some fields, and of default values. -/
def blur (names : List String) (d : DeclSymbol) : DeclSymbol :=
  { d with fields := d.fields.map (blurField names), methods := d.methods.map blurMethod }

theorem blurField_alike {names : List String} {f f' : FieldSymbol} :
    (blurField names f).Alike W (· ∈ names) (blurField names f') ↔ f.Alike W (· ∈ names) f' := by
  have kept (f : FieldSymbol) : (blurField names f).name = f.name ∧ (blurField names f).owner = f.owner ∧
      (blurField names f).decl = f.decl := by
    unfold blurField
    split <;> exact ⟨rfl, rfl, rfl⟩
  obtain ⟨name, owner, decl⟩ := kept f
  obtain ⟨name', owner', decl'⟩ := kept f'
  constructor
  · rintro ⟨names₁, owners, decls, types⟩
    rw [name, name'] at names₁
    rw [owner, owner'] at owners
    rw [decl, decl'] at decls
    refine ⟨names₁, owners, decls, ?_⟩
    by_cases here : f.name ∈ names
    · exact .inl here
    · have there : f'.name ∉ names := names₁ ▸ here
      simpa [blurField, here, there] using types
  · rintro ⟨names₁, owners, decls, types⟩
    refine ⟨by rw [name, name', names₁], by rw [owner, owner', owners], by rw [decl, decl', decls], ?_⟩
    by_cases here : f.name ∈ names
    · exact .inl (name ▸ here)
    · have there : f'.name ∉ names := names₁ ▸ here
      simpa [blurField, here, there] using types

theorem blurMethod_alike {m m' : MethodSymbol} : (blurMethod m).Alike W (blurMethod m') ↔ m.Alike W m' := by
  constructor
  · rintro ⟨name, owner, decl, typeParams, params, result⟩
    refine ⟨name, owner, decl, typeParams, ?_, result⟩
    refine (List.forall₂_map_left_iff.1 (List.forall₂_map_right_iff.1 params)).imp fun p p' param => ?_
    exact ⟨param.name, param.decl, param.type⟩
  · rintro ⟨name, owner, decl, typeParams, params, result⟩
    refine ⟨name, owner, decl, typeParams, List.rel_map (fun p p' param => ?_) params, result⟩
    exact ⟨param.name, param.decl, param.type⟩

theorem blur_alike {names : List String} {d d' : DeclSymbol} :
    (blur names d).Alike W (· ∈ names) (blur names d') ↔ d.Alike W (· ∈ names) d' := by
  constructor
  · rintro ⟨nominal, file, decl, params, parent, interfaces, fields, methods⟩
    refine ⟨nominal, file, decl, params, parent, interfaces, ?_, ?_⟩
    · exact (List.forall₂_map_left_iff.1 (List.forall₂_map_right_iff.1 fields)).imp fun _ _ => blurField_alike.1
    · exact (List.forall₂_map_left_iff.1 (List.forall₂_map_right_iff.1 methods)).imp fun _ _ => blurMethod_alike.1
  · rintro ⟨nominal, file, decl, params, parent, interfaces, fields, methods⟩
    refine ⟨nominal, file, decl, params, parent, interfaces, ?_, ?_⟩
    · exact List.forall₂_map_left_iff.2 (List.forall₂_map_right_iff.2 (fields.imp fun _ _ => blurField_alike.2))
    · exact List.forall₂_map_left_iff.2 (List.forall₂_map_right_iff.2 (methods.imp fun _ _ => blurMethod_alike.2))

/-- One registry follows another in which only the symbol of one name has changed, and of it only what `blur`
does not show. -/
structure Touches (name : String) (untyped : List String) (r r₁ : Registry) : Prop where
  names : r₁.names = r.names
  frame : ∀ n, n ≠ name → r₁.find? n = r.find? n
  own : (r₁.find? name).map (blur untyped) = (r.find? name).map (blur untyped)

theorem Touches.refl {untyped : List String} : Touches name untyped r r := ⟨rfl, fun _ _ => rfl, rfl⟩

theorem Touches.trans {untyped : List String} {r₂ : Registry} (first : Touches name untyped r r₁)
    (second : Touches name untyped r₁ r₂) : Touches name untyped r r₂ :=
  ⟨second.names.trans first.names, fun n differs => (second.frame n differs).trans (first.frame n differs),
    second.own.trans first.own⟩

theorem Touches.length {untyped : List String} (touches : Touches name untyped r r₁) :
    List.length r₁ = List.length r := by
  simpa [Registry.names] using congrArg List.length touches.names

theorem touches_update {names : List String} {f : DeclSymbol → DeclSymbol} (named : ∀ d, (f d).name = d.name)
    (kept : ∀ d, r.find? name = some d → blur names (f d) = blur names d) :
    Touches name names r (r.update name f) := by
  have named : ∀ d ∈ r, d.name = name → (f d).name = name := fun d _ same => (named d).trans same
  refine ⟨Registry.names_update named, fun n differs => Registry.find?_update_ne named differs, ?_⟩
  rw [Registry.find?_update_self named]
  cases found : r.find? name with
  | none => rfl
  | some d => simp [kept d found]

theorem touches_settleFields {names : List String} {fs : List FieldSymbol}
    (untyped : ∀ f ∈ fs, f.type = none → f.name ∈ names) (gives : Gives (settleFields name fs r) c r₁) :
    Touches name names r r₁ := by
  induction fs generalizing r with
  | nil =>
    rw [gives_pure gives]
    exact .refl
  | cons f fs ih =>
    have rest := fun g member => untyped g (List.mem_cons_of_mem f member)
    unfold settleFields at gives
    split at gives
    · next absent _ =>
      obtain ⟨t, -, gives⟩ := gives_bind gives
      refine Touches.trans ?_ (ih rest gives)
      refine touches_update (fun _ => rfl) fun d _ => ?_
      have here := untyped f List.mem_cons_self absent
      simp only [blur, List.map_map]
      congr 1
      refine List.map_congr_left fun g _ => ?_
      by_cases same : g.name = f.name
      · simp [blurField, same, here]
      · simp [same]
    · exact ih rest gives

theorem gives_settleParam_kept {d : DeclSymbol} {p p' : ParamSymbol} (gives : Gives (settleParam d p) c p') :
    ∃ t, p' = { p with defaultType := t } := by
  unfold settleParam at gives
  split at gives
  · exact ⟨p.defaultType, gives_pure gives⟩
  · obtain ⟨t, -, gives⟩ := gives_bind gives
    obtain ⟨_, -, gives⟩ := gives_bind gives
    exact ⟨some t, gives_pure gives⟩

theorem map_related {α γ : Type} {R : α → α → Prop} {f : α → γ} (kept : ∀ a b, R a b → f b = f a) {as bs : List α}
    (related : List.Forall₂ R as bs) : bs.map f = as.map f := by
  induction related with
  | nil => rfl
  | cons first _ ih => rw [List.map_cons, List.map_cons, kept _ _ first, ih]

theorem gives_settleMethod_kept {d : DeclSymbol} {m m' : MethodSymbol} (gives : Gives (settleMethod d m) c m') :
    blurMethod m' = blurMethod m := by
  obtain ⟨params, paramsGive, gives⟩ := gives_bind (gives_withReader gives)
  obtain rfl := gives_pure gives
  simp only [blurMethod]
  congr 1
  refine map_related (fun p p' gives => ?_) (gives_mapM paramsGive)
  obtain ⟨t, rfl⟩ := gives_settleParam_kept gives
  rfl

theorem touches_settle {names : List String}
    (untyped : ∀ d, r.find? name = some d → ∀ f ∈ d.fields, f.type = none → f.name ∈ names)
    (gives : Gives (settle r name) c r₁) : Touches name names r r₁ := by
  unfold settle at gives
  split at gives
  · rw [gives_pure gives]
    exact .refl
  · next d found =>
    obtain ⟨r₂, fieldsGive, gives⟩ := gives_bind gives
    have fields := touches_settleFields (untyped d found) fieldsGive
    split at gives
    · rw [gives_pure gives]
      exact fields
    · next e found' =>
      obtain ⟨methods, methodsGive, gives⟩ := gives_bind gives
      obtain rfl := gives_pure gives
      refine fields.trans (touches_update (fun _ => rfl) fun d' same => ?_)
      obtain rfl : d' = e := Option.some.inj (same.symm.trans found')
      have kept := map_related (fun _ _ gives => gives_settleMethod_kept gives)
        (gives_mapM (gives_inDecl (gives_knowing methodsGive)))
      simp only [blur, kept]

/-- Settling a symbol takes nothing from what was written. -/
theorem written_settle (distinct : r.names.Nodup) (written : ∀ d ∈ r, Written declarations d)
    (gives : Gives (settle r name) c r₁) : ∀ d ∈ r₁, Written declarations d := by
  unfold settle at gives
  split at gives
  · rw [gives_pure gives]
    exact written
  · next d found =>
    obtain ⟨r₂, fieldsGive, gives⟩ := gives_bind gives
    have untyped := fun f member => (written d (Registry.mem_of_find? found)).untyped (f := f) member
    have touches := touches_settleFields untyped fieldsGive
    have written := written_settleFields written fieldsGive
    split at gives
    · rw [gives_pure gives]
      exact written
    · next e found' =>
      obtain ⟨methods, methodsGive, gives⟩ := gives_bind gives
      obtain rfl := gives_pure gives
      intro s member
      obtain ⟨d', within, rfl⟩ := Registry.mem_update.1 member
      split
      · next same =>
        have only : r₂.find? name = some d' :=
          (Registry.find?_eq_some_iff (touches.names.symm ▸ distinct)).2 ⟨within, by simpa using same⟩
        obtain rfl : e = d' := Option.some.inj (found'.symm.trans only)
        have written := written e within
        refine ⟨written.declared, written.named, written.fields, fun m' member p' param => ?_⟩
        obtain ⟨m, there, gives⟩ :=
          mem_of_forall₂_right (gives_mapM (gives_inDecl (gives_knowing methodsGive))) member
        obtain ⟨params, paramsGive, gives⟩ := gives_bind (gives_withReader gives)
        obtain rfl := gives_pure gives
        obtain ⟨p, before, gives⟩ := mem_of_forall₂_right (gives_mapM paramsGive) param
        rw [gives_settleParam gives]
        exact written.params m there p before
      · exact written d' within

/-! ## Settling in two runs -/

/-- The context in which declarations are made. -/
structure Context.Bare (c : Context) : Prop where
  typeParams : c.typeParams = []
  result : c.result = .void

theorem Context.Bare.knowing (bare : c.Bare) (alike : r.Alike W B r') :
    Context.Alike W B { c with registry := r } { c with registry := r' } := by
  refine ⟨alike, ?_, ?_⟩
  · rw [bare.typeParams]
    exact .nil
  · rw [bare.result]
    rfl

theorem Context.Alike.inside {d d' : DeclSymbol} (contexts : Context.Alike W B c c') (decls : d.Alike W B d') :
    Context.Alike W B (c.inside d) (c'.inside d') :=
  ⟨contexts.registry, contexts.typeParams.extend decls.params, contexts.result⟩

theorem memberScope_alike {outer outer' : Scope} (outers : outer.Alike W outer') {d d' : DeclSymbol}
    (decls : d.Alike W B d') (isStatic : Bool) :
    (memberScope outer d isStatic).Alike W (memberScope outer' d' isStatic) := by
  unfold memberScope Scope.ofOwner
  rw [← decls.nominal]
  have entered : List.Forall₂ (Binding.Alike W)
      (if (isStatic && !d.nominal.isInterface) = true then [] else [⟨Builtin.selfName, d.selfType, true⟩])
      (if (isStatic && !d.nominal.isInterface) = true then [] else [⟨Builtin.selfName, d'.selfType, true⟩]) := by
    split
    · exact .nil
    · exact .cons ⟨rfl, decls.selfType, rfl⟩ .nil
  exact ⟨(outers.enter entered).frames, rfl, rfl, outers.inConstructor⟩

theorem initialType_mirrors (contexts : Context.Alike W B c c') {d d' : DeclSymbol} (decls : d.Alike W B d')
    {f f' : FieldSymbol} (name : f.name = f'.name) (decl : f.decl = f'.decl)
    (avoids : ∀ e, f.decl.init = some e → Avoids B e.sites) :
    Mirrors W c c' (initialType d f) (initialType d' f') Ty.Alike := by
  unfold initialType FieldSymbol.isStatic
  rw [← decl, ← name]
  cases initial : f.decl.init with
  | none => exact .pure rfl
  | some e =>
    refine .ite (by rw [decls.nominal]) (.pure rfl) ?_
    refine (infer_mirrors contexts (memberScope_alike .global decls _) .none e (avoids e initial)).bind
      fun _ _ _ _ types => ?_
    refine .ite types.isNull.symm ?_ (.pure types)
    exact (Mirrors.fresh f.name).bind fun _ _ _ _ types => .pure types.orNull

/-- Changing the symbols of one name alike. -/
theorem alike_update (alike : r.Alike W B r') {f f' : DeclSymbol → DeclSymbol} (named : ∀ d, (f d).name = d.name)
    (named' : ∀ d, (f' d).name = d.name)
    (own : Option.Rel (DeclSymbol.Same W) ((r.find? name).map f) ((r'.find? name).map f')) :
    (r.update name f).Alike W B (r'.update name f') ∧
      Option.Rel (DeclSymbol.Same W) ((r.update name f).find? name) ((r'.update name f').find? name) := by
  have named : ∀ d ∈ r, d.name = name → (f d).name = name := fun d _ same => (named d).trans same
  have named' : ∀ d ∈ r', d.name = name → (f' d).name = name := fun d _ same => (named' d).trans same
  rw [← Registry.find?_update_self named, ← Registry.find?_update_self named'] at own
  refine ⟨⟨?_, ?_, ?_, fun n => ?_⟩, own⟩
  · simpa [Registry.update] using alike.length
  · rw [Registry.names_update named]
    exact alike.distinct
  · rw [Registry.names_update named']
    exact alike.distinct'
  · by_cases here : n = name
    · rw [here]
      exact optionRel_imp (fun _ _ decls => DeclSymbol.Same.weaken decls) own
    · rw [Registry.find?_update_ne named here, Registry.find?_update_ne named' here]
      exact alike.find n

/-- Fields of one declaration of which both or none have a type. -/
def FieldsPaired (f f' : FieldSymbol) : Prop := f.name = f'.name ∧ f.decl = f'.decl ∧ (f.type = none ↔ f'.type = none)

/-- The symbol with that type for its fields of that name. -/
def withType (name : String) (t : Ty) (d : DeclSymbol) : DeclSymbol :=
  { d with fields := d.fields.map fun g => if g.name == name then { g with type := some t } else g }

theorem withType_same {d d' : DeclSymbol} (same : d.Same W d') (name : String) {t t' : Ty} (types : t.Alike W t') :
    (withType name t d).Same W (withType name t' d') := by
  refine { same with fields := List.rel_map ?_ same.fields }
  intro g g' field
  have same : (g.name == name) = (g'.name == name) := by rw [field.name]
  dsimp only
  rw [← same]
  split
  · exact { field with type := .inr (.some types) }
  · exact field

theorem settleFields_mirrors (bare : c.Bare) {fs fs' : List FieldSymbol} (fields : List.Forall₂ FieldsPaired fs fs')
    (avoids : ∀ f ∈ fs, f.type = none → ∀ e, f.decl.init = some e → Avoids B e.sites) (alike : r.Alike W B r')
    (own : Option.Rel (DeclSymbol.Same W) (r.find? name) (r'.find? name)) :
    Mirrors W c c (settleFields name fs r) (settleFields name fs' r') fun W' r₁ r₁' =>
      r₁.Alike W' B r₁' ∧ Option.Rel (DeclSymbol.Same W') (r₁.find? name) (r₁'.find? name) := by
  induction fields generalizing W r r' with
  | nil => exact .pure ⟨alike, own⟩
  | @cons f f' fs fs' first _ ih =>
    obtain ⟨names, decls, types⟩ := first
    have rest := fun g member => avoids g (List.mem_cons_of_mem f member)
    unfold settleFields
    cases known : f.type with
    | some t =>
      obtain ⟨t', known'⟩ : ∃ t', f'.type = some t' := Option.ne_none_iff_exists'.1 (by simp [← types, known])
      rw [known']
      exact ih rest alike own
    | none =>
      rw [types.1 known]
      rcases optionRel_cases own with ⟨absent, absent'⟩ | ⟨d, d', found, found', same⟩
      · rw [absent, absent']
        exact ih rest alike own
      · rw [found, found']
        have contexts := (bare.knowing alike).inside same.weaken
        refine Mirrors.bind (.withReader (.inDecl (initialType_mirrors contexts same.weaken names decls
          (avoids f List.mem_cons_self known)))) fun W₁ t t' le types => ?_
        have changed : (r.update name (withType f.name t)).Alike W₁ B (r'.update name (withType f'.name t')) ∧
            Option.Rel (DeclSymbol.Same W₁) ((r.update name (withType f.name t)).find? name)
              ((r'.update name (withType f'.name t')).find? name) := by
          refine alike_update (alike.mono le) (fun _ => rfl) (fun _ => rfl) ?_
          rw [found, found', ← names]
          exact .some (withType_same (same.mono le) f.name types)
        exact ih rest changed.1 changed.2

theorem settleParam_mirrors (contexts : Context.Alike W B c c') {d d' : DeclSymbol} (decls : d.Alike W B d')
    {p p' : ParamSymbol} (params : p.Alike W p') (avoids : ∀ e, p.decl.fallback = some e → Avoids B e.sites) :
    Mirrors W c c' (settleParam d p) (settleParam d' p') ParamSymbol.Alike := by
  have fallbacks : p'.decl.fallback = p.decl.fallback := by rw [params.decl]
  unfold settleParam
  rw [fallbacks]
  cases default : p.decl.fallback with
  | none => exact .pure params
  | some e =>
    refine (infer_mirrors contexts (memberScope_alike .global decls true) (.some params.type) e (avoids e default)).bind
      fun _ _ _ le types => ?_
    refine (requireAccepts_mirrors (contexts.mono le) (params.type.mono le) types).bind fun _ _ _ le' _ => .pure ?_
    exact ⟨params.name, params.decl, params.type.mono (le.trans le')⟩

theorem settleMethod_mirrors (contexts : Context.Alike W B c c') {d d' : DeclSymbol} (decls : d.Alike W B d')
    {m m' : MethodSymbol} (methods : m.Alike W m')
    (avoids : ∀ p ∈ m.params, ∀ e, p.decl.fallback = some e → Avoids B e.sites) :
    Mirrors W c c' (settleMethod d m) (settleMethod d' m') MethodSymbol.Alike := by
  have inner : Context.Alike W B
      { c with typeParams := (m.typeParams.map fun v => (v.name, v)).reverse ++ c.typeParams }
      { c' with typeParams := (m'.typeParams.map fun v => (v.name, v)).reverse ++ c'.typeParams } :=
    { contexts with typeParams := contexts.typeParams.extend methods.typeParams }
  refine .withReader ?_
  refine (Mirrors.mapM (Q := ParamSymbol.Alike) (fun _ _ _ _ le param => ⟨param.name, param.decl, param.type.mono le⟩) ?_
    ((List.forall₂_and_left _ _).2 ⟨avoids, methods.params⟩)).bind fun _ _ _ le params => .pure ?_
  · rintro _ p p' le ⟨avoids, params⟩
    exact settleParam_mirrors (inner.mono le) (decls.mono le) ⟨params.name, params.decl, params.type.mono le⟩ avoids
  · exact { methods.mono le with params := params }

/-- What a step that settles a symbol sees: its own symbol, and the others up to the types of untyped fields. -/
structure SettleView (declarations : List (String × Declaration)) (name : String) (W : Pairing) (r r' : Registry) :
    Prop where
  alike : r.Alike W (OpenBeside declarations name) r'
  own : Option.Rel (DeclSymbol.Same W) (r.find? name) (r'.find? name)
  written : ∀ d ∈ r, Written declarations d

theorem settle_mirrors (bare : c.Bare) (independent : Independent declarations)
    (view : SettleView declarations name W r r') :
    Mirrors W c c (settle r name) (settle r' name) fun W' r₁ r₁' =>
      Option.Rel (DeclSymbol.Same W') (r₁.find? name) (r₁'.find? name) := by
  have early {d : DeclSymbol} (written : Written declarations d) (named : d.name = name) {e : Expr}
      (within : e ∈ d.decl.earlyValues) : Avoids (OpenBeside declarations name) e.sites := by
    rw [← named, written.named]
    exact avoids_early independent written.declared within
  unfold settle
  rcases optionRel_cases view.own with ⟨absent, absent'⟩ | ⟨d, d', found, found', same⟩
  · rw [absent, absent']
    exact .pure view.own
  · rw [found, found']
    have written := view.written d (Registry.mem_of_find? found)
    have fields : List.Forall₂ FieldsPaired d.fields d'.fields := same.fields.imp fun f f' field =>
      ⟨field.name, field.decl, optionRel_none_iff (field.type.resolve_left id)⟩
    -- the default values of methods are typed after the fields of the symbol have been settled
    refine (Mirrors.gives (settleFields_mirrors bare fields (fun f member untyped e initial => ?_) view.alike
      view.own)).bind fun W₁ r₁ r₁' le₁ both => ?_
    · exact early written (Registry.find?_name found) (written.initial member untyped initial)
    · obtain ⟨⟨alike, own⟩, gives, -⟩ := both
      rcases optionRel_cases own with ⟨absent, absent'⟩ | ⟨e, e', found, found', same⟩
      · rw [absent, absent']
        exact .pure own
      · rw [found, found']
        have written := written_settleFields view.written gives e (Registry.mem_of_find? found)
        have contexts := (bare.knowing alike).inside same.weaken
        have avoids : ∀ m ∈ e.methods, ∀ p ∈ m.params, ∀ e, p.decl.fallback = some e →
            Avoids (OpenBeside declarations name) e.sites := fun m member p param _ fallback =>
          early written (Registry.find?_name found) (written.fallback member param fallback)
        refine Mirrors.bind (.withReader (.inDecl (Mirrors.mapM (Q := MethodSymbol.Alike)
          (fun _ _ _ _ le method => method.mono le) ?_ ((List.forall₂_and_left _ _).2 ⟨avoids, same.methods⟩))))
          fun _ ms ms' le methods => .pure ?_
        · rintro _ m m' le ⟨avoids, methods⟩
          exact settleMethod_mirrors (contexts.mono le) (same.weaken.mono le) (methods.mono le) avoids
        · rw [Registry.find?_update_self, Registry.find?_update_self, found, found']
          · exact .some { same.mono le with methods := methods }
          · exact fun _ _ named => named
          · exact fun _ _ named => named

/-- Whether or not a symbol has been settled, the registries are alike up to its untyped fields. -/
theorem alike_of_touches {untyped : List String} {r₁' : Registry} (same : r.Same W r')
    (left : Touches name untyped r r₁) (right : Touches name untyped r' r₁') (covered : ∀ n ∈ untyped, B n) :
    r₁.Alike W B r₁' := by
  refine ⟨?_, ?_, ?_, fun n => ?_⟩
  · rw [left.length, right.length, same.length]
  · rw [left.names]
    exact same.distinct
  · rw [right.names]
    exact same.distinct'
  · by_cases here : n = name
    · subst here
      have own := left.own
      have own' := right.own
      rcases optionRel_cases (same.find n) with ⟨absent, absent'⟩ | ⟨d, d', found, found', decls⟩
      · rw [absent] at own
        rw [absent'] at own'
        rw [Option.map_eq_none_iff.1 own, Option.map_eq_none_iff.1 own']
        exact .none
      · rw [found] at own
        rw [found'] at own'
        obtain ⟨e, found₁, blurred⟩ := Option.map_eq_some_iff.1 own
        obtain ⟨e', found₁', blurred'⟩ := Option.map_eq_some_iff.1 own'
        have alike : e.Alike W (· ∈ untyped) e' := by
          rw [← blur_alike, blurred, blurred', blur_alike]
          exact DeclSymbol.Same.weaken decls
        rw [found₁, found₁']
        exact .some { alike with fields := alike.fields.imp fun _ _ field => field.weaken (covered _) }
    · rw [left.frame n here, right.frame n here]
      exact optionRel_imp (fun _ _ decls => DeclSymbol.Same.weaken decls) (same.find n)

theorem touches_settled (gives : Gives (settle r name) c r₁) : ∃ untyped, Touches name untyped r r₁ := by
  cases found : r.find? name with
  | none => exact ⟨[], touches_settle (by simp [found]) gives⟩
  | some d =>
    refine ⟨d.fields.map (·.name), touches_settle (fun e found' f member _ => ?_) gives⟩
    obtain rfl : d = e := Option.some.inj (found.symm.trans found')
    exact List.mem_map_of_mem member

/-- What changes when a symbol is settled is left open for the others. -/
theorem touches_beside (written : ∀ d ∈ r, Written declarations d) {other : String} (differ : name ≠ other)
    (gives : Gives (settle r name) c r₁) :
    ∃ untyped, Touches name untyped r r₁ ∧ ∀ n ∈ untyped, OpenBeside declarations other n := by
  cases found : r.find? name with
  | none => exact ⟨[], touches_settle (by simp [found]) gives, by simp⟩
  | some d =>
    have written := written d (Registry.mem_of_find? found)
    refine ⟨d.decl.untyped, touches_settle (fun e found' f member untyped => ?_) gives, fun n member => ?_⟩
    · obtain rfl : d = e := Option.some.inj (found.symm.trans found')
      exact written.untyped member untyped
    · refine ⟨(d.file, d.decl), written.declared, ?_, member⟩
      rw [← written.named, Registry.find?_name found]
      exact differ

/-- Settling symbols can be done in any order. -/
theorem keyed_settle (bare : c.Bare) (independent : Independent declarations) :
    Keyed id settle c 0 (fun r => r.names.Nodup ∧ ∀ d ∈ r, Written declarations d) (SettleView declarations) where
  size gives := by
    obtain ⟨untyped, touches⟩ := touches_settled gives
    exact touches.length
  distinct distinct gives := by
    obtain ⟨untyped, touches⟩ := touches_settled gives
    rw [touches.names]
    exact distinct
  frame gives differs := by
    obtain ⟨untyped, touches⟩ := touches_settled gives
    exact touches.frame _ differs
  keeps inv gives := by
    obtain ⟨untyped, touches⟩ := touches_settled gives
    exact ⟨touches.names.symm ▸ inv.1, written_settle inv.1 inv.2 gives⟩
  view name same inv _ := ⟨same.weaken, same.find name, inv.2⟩
  viewLeft {W r r' r₁ name _} same inv _ differ gives := by
    obtain ⟨untyped, touches, covered⟩ := touches_beside inv.2 differ gives
    refine ⟨alike_of_touches same touches .refl covered, ?_, written_settle inv.1 inv.2 gives⟩
    rw [touches.frame name (Ne.symm differ)]
    exact same.find name
  viewRight {W r r' r₁ name _} same inv inv' differ gives := by
    obtain ⟨untyped, touches, covered⟩ := touches_beside inv'.2 differ gives
    refine ⟨alike_of_touches same .refl touches covered, ?_, inv.2⟩
    rw [touches.frame name (Ne.symm differ)]
    exact same.find name
  mirrors view := settle_mirrors bare independent view

end Typing

end ClassScript
