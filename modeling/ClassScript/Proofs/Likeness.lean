import ClassScript.Proofs.Pairings
import ClassScript.Proofs.Headers
import ClassScript.Typing.Members

/-!
Symbols that are the same up to the numbers of type variables. Two registries with the same declarations, in
any order, are alike if the symbols of each name are (`Registry.Alike`); everything that is looked up in them
is then alike too. The types of some fields may be left open, those with names in a set `B`: a registry in which
fewer initial values have been looked at differs from another in such fields.
-/

namespace ClassScript

variable {W W' : Pairing} {B : String → Prop}

/-! ## Related lists -/

theorem find?_related {α β : Type} {R : α → β → Prop} {f : α → Bool} {g : β → Bool} {as : List α} {bs : List β}
    (same : ∀ a b, R a b → f a = g b) (related : List.Forall₂ R as bs) :
    Option.Rel (fun a b => R a b ∧ f a = true) (as.find? f) (bs.find? g) := by
  induction related with
  | nil => exact .none
  | @cons a b _ _ first _ ih =>
    rw [List.find?_cons, List.find?_cons, ← same a b first]
    cases holds : f a with
    | true => exact .some ⟨first, holds⟩
    | false => exact ih

theorem any_related {α β : Type} {R : α → β → Prop} {f : α → Bool} {g : β → Bool} {as : List α} {bs : List β}
    (same : ∀ a b, R a b → f a = g b) (related : List.Forall₂ R as bs) : as.any f = bs.any g := by
  induction related with
  | nil => rfl
  | cons first _ ih => rw [List.any_cons, List.any_cons, same _ _ first, ih]

theorem findSome?_rel {α β γ δ : Type} {R : α → β → Prop} {S : γ → δ → Prop} {f : α → Option γ} {g : β → Option δ}
    {as : List α} {bs : List β} (each : ∀ a b, R a b → Option.Rel S (f a) (g b)) (related : List.Forall₂ R as bs) :
    Option.Rel S (as.findSome? f) (bs.findSome? g) := by
  induction related with
  | nil => exact .none
  | @cons a b _ _ first _ ih =>
    have found := each a b first
    rw [List.findSome?_cons, List.findSome?_cons]
    generalize f a = r at found ⊢
    generalize g b = r' at found ⊢
    cases found with
    | none => exact ih
    | some related => exact .some related

theorem optionRel_imp {α β : Type} {R S : α → β → Prop} (implies : ∀ a b, R a b → S a b) {a : Option α} {b : Option β}
    (related : Option.Rel R a b) : Option.Rel S a b := by
  cases related with
  | none => exact .none
  | some related => exact .some (implies _ _ related)

theorem forall₂_right {α β : Type} {R : α → β → Prop} {S : β → β → Prop} (each : ∀ a b, R a b → S b b) {as : List α}
    {bs : List β} (related : List.Forall₂ R as bs) : List.Forall₂ S bs bs := by
  induction related with
  | nil => exact .nil
  | cons first _ ih => exact .cons (each _ _ first) ih

theorem forall₂_trans {α β γ : Type} {R : α → β → Prop} {S : β → γ → Prop} {T : α → γ → Prop}
    (each : ∀ a b c, R a b → S b c → T a c) {as : List α} {bs : List β} {cs : List γ} (first : List.Forall₂ R as bs)
    (second : List.Forall₂ S bs cs) : List.Forall₂ T as cs := by
  induction first generalizing cs with
  | nil =>
    cases second
    exact .nil
  | cons head _ ih =>
    cases second with
    | cons head' rest => exact .cons (each _ _ _ head head') (ih rest)

theorem optionRel_none_iff {α β : Type} {R : α → β → Prop} {a : Option α} {b : Option β} (related : Option.Rel R a b) :
    a = none ↔ b = none := by
  cases related <;> simp

theorem optionRel_cases {α β : Type} {R : α → β → Prop} {a : Option α} {b : Option β} (related : Option.Rel R a b) :
    (a = none ∧ b = none) ∨ ∃ x y, a = some x ∧ b = some y ∧ R x y := by
  cases related with
  | none => exact .inl ⟨rfl, rfl⟩
  | some related => exact .inr ⟨_, _, rfl, rfl, related⟩

theorem optionRel_right {α β : Type} {R : α → β → Prop} {S : β → β → Prop} (each : ∀ a b, R a b → S b b)
    {a : Option α} {b : Option β} (related : Option.Rel R a b) : Option.Rel S b b := by
  cases related with
  | none => exact .none
  | some related => exact .some (each _ _ related)

theorem optionRel_trans {α β γ : Type} {R : α → β → Prop} {S : β → γ → Prop} {T : α → γ → Prop}
    (each : ∀ a b c, R a b → S b c → T a c) {a : Option α} {b : Option β} {c : Option γ} (first : Option.Rel R a b)
    (second : Option.Rel S b c) : Option.Rel T a c := by
  cases first with
  | none =>
    cases second
    exact .none
  | some first =>
    cases second with
    | some second => exact .some (each _ _ _ first second)

/-! ## Symbols -/

/-- Fields of one declaration with types that are alike, unless the type is left open. -/
structure FieldSymbol.Alike (W : Pairing) (B : String → Prop) (f f' : FieldSymbol) : Prop where
  name : f.name = f'.name
  owner : f.owner = f'.owner
  decl : f.decl = f'.decl
  type : B f.name ∨ Option.Rel (Ty.Alike W) f.type f'.type

/-- Parameters of one declaration with types that are alike. -/
structure ParamSymbol.Alike (W : Pairing) (p p' : ParamSymbol) : Prop where
  name : p.name = p'.name
  decl : p.decl = p'.decl
  type : p.type.Alike W p'.type

/-- Methods of one declaration with types that are alike. -/
structure MethodSymbol.Alike (W : Pairing) (m m' : MethodSymbol) : Prop where
  name : m.name = m'.name
  owner : m.owner = m'.owner
  decl : m.decl = m'.decl
  typeParams : List.Forall₂ (Paired W) m.typeParams m'.typeParams
  params : List.Forall₂ (ParamSymbol.Alike W) m.params m'.params
  result : m.result.Alike W m'.result

/-- The same supertype with arguments that are alike. -/
def SuperAlike (W : Pairing) (p p' : Nominal × List Ty) : Prop := p.1 = p'.1 ∧ Ty.AlikeAll W p.2 p'.2

/-- Symbols of one declaration that are alike. -/
structure DeclSymbol.Alike (W : Pairing) (B : String → Prop) (d d' : DeclSymbol) : Prop where
  nominal : d.nominal = d'.nominal
  file : d.file = d'.file
  decl : d.decl = d'.decl
  params : List.Forall₂ (Paired W) d.params d'.params
  parent : Option.Rel (SuperAlike W) d.parent d'.parent
  interfaces : List.Forall₂ (SuperAlike W) d.interfaces d'.interfaces
  fields : List.Forall₂ (FieldSymbol.Alike W B) d.fields d'.fields
  methods : List.Forall₂ (MethodSymbol.Alike W) d.methods d'.methods

/-- As many symbols, of which those of the same name are alike. -/
structure Registry.Alike (W : Pairing) (B : String → Prop) (r r' : Registry) : Prop where
  length : List.length r = List.length r'
  distinct : r.names.Nodup
  distinct' : r'.names.Nodup
  find (name : String) : Option.Rel (DeclSymbol.Alike W B) (r.find? name) (r'.find? name)

theorem FieldSymbol.Alike.mono {f f' : FieldSymbol} (alike : f.Alike W B f') (le : W ≤ W') : f.Alike W' B f' :=
  ⟨alike.name, alike.owner, alike.decl,
    alike.type.imp_right (optionRel_imp fun _ _ types => types.mono le)⟩

theorem MethodSymbol.Alike.mono {m m' : MethodSymbol} (alike : m.Alike W m') (le : W ≤ W') : m.Alike W' m' where
  name := alike.name
  owner := alike.owner
  decl := alike.decl
  typeParams := alike.typeParams.imp fun _ _ paired => paired.mono le
  params := alike.params.imp fun _ _ param => ⟨param.name, param.decl, param.type.mono le⟩
  result := alike.result.mono le

theorem SuperAlike.mono {p p' : Nominal × List Ty} (alike : SuperAlike W p p') (le : W ≤ W') : SuperAlike W' p p' :=
  ⟨alike.1, alike.2.mono le⟩

theorem DeclSymbol.Alike.mono {d d' : DeclSymbol} (alike : d.Alike W B d') (le : W ≤ W') : d.Alike W' B d' where
  nominal := alike.nominal
  file := alike.file
  decl := alike.decl
  params := alike.params.imp fun _ _ paired => paired.mono le
  parent := optionRel_imp (fun _ _ supers => supers.mono le) alike.parent
  interfaces := alike.interfaces.imp fun _ _ supers => supers.mono le
  fields := alike.fields.imp fun _ _ field => field.mono le
  methods := alike.methods.imp fun _ _ method => method.mono le

theorem Registry.Alike.mono {r r' : Registry} (alike : r.Alike W B r') (le : W ≤ W') : r.Alike W' B r' :=
  ⟨alike.length, alike.distinct, alike.distinct', fun name =>
    optionRel_imp (fun _ _ decl => decl.mono le) (alike.find name)⟩

/-- Symbols that are alike, with no type left open. -/
abbrev DeclSymbol.Same (W : Pairing) (d d' : DeclSymbol) : Prop := d.Alike W (fun _ => False) d'

/-- Registries that are alike, with no type left open. -/
abbrev Registry.Same (W : Pairing) (r r' : Registry) : Prop := r.Alike W (fun _ => False) r'

/-- More types may be left open. -/
theorem FieldSymbol.Alike.weaken {B' : String → Prop} {f f' : FieldSymbol} (alike : f.Alike W B f')
    (more : B f.name → B' f.name) : f.Alike W B' f' :=
  { alike with type := alike.type.imp_left more }

theorem DeclSymbol.Same.weaken {d d' : DeclSymbol} (same : d.Same W d') : d.Alike W B d' :=
  { same with fields := same.fields.imp fun _ _ field => field.weaken False.elim }

theorem Registry.Same.weaken {r r' : Registry} (same : r.Same W r') : r.Alike W B r' :=
  { same with find := fun name => optionRel_imp (fun _ _ decls => DeclSymbol.Same.weaken decls) (same.find name) }

theorem MethodSymbol.Alike.ofRight {m m' : MethodSymbol} (alike : m.Alike W m') : m'.Alike W.ofRight m' where
  name := rfl
  owner := rfl
  decl := rfl
  typeParams := forall₂_right (fun _ _ paired => paired.ofRight) alike.typeParams
  params := forall₂_right (fun _ _ param => ⟨rfl, rfl, param.type.ofRight⟩) alike.params
  result := alike.result.ofRight

theorem DeclSymbol.Same.ofRight {d d' : DeclSymbol} (same : d.Same W d') : d'.Same W.ofRight d' where
  nominal := rfl
  file := rfl
  decl := rfl
  params := forall₂_right (fun _ _ paired => paired.ofRight) same.params
  parent := optionRel_right (fun _ _ supers => ⟨rfl, supers.2.ofRight⟩) same.parent
  interfaces := forall₂_right (fun _ _ supers => ⟨rfl, supers.2.ofRight⟩) same.interfaces
  fields := by
    refine forall₂_right (fun f f' field => ⟨rfl, rfl, rfl, .inr ?_⟩) same.fields
    exact optionRel_right (fun _ _ types => types.ofRight) (field.type.resolve_left id)
  methods := forall₂_right (fun _ _ method => method.ofRight) same.methods

theorem Registry.Same.ofRight {r r' : Registry} (same : r.Same W r') : r'.Same W.ofRight r' :=
  ⟨rfl, same.distinct', same.distinct', fun name =>
    optionRel_right (fun _ _ decls => DeclSymbol.Same.ofRight decls) (same.find name)⟩

theorem MethodSymbol.Alike.trans {m m' m'' : MethodSymbol} (alike : m.Alike W m') (alike' : m'.Alike W' m'') :
    m.Alike (W.comp W') m'' where
  name := alike.name.trans alike'.name
  owner := alike.owner.trans alike'.owner
  decl := alike.decl.trans alike'.decl
  typeParams := forall₂_trans (fun _ _ _ paired paired' => paired.trans paired') alike.typeParams alike'.typeParams
  params := by
    refine forall₂_trans (fun _ _ _ param param' => ?_) alike.params alike'.params
    exact ⟨param.name.trans param'.name, param.decl.trans param'.decl, param.type.trans param'.type⟩
  result := alike.result.trans alike'.result

theorem SuperAlike.trans {p p' p'' : Nominal × List Ty} (alike : SuperAlike W p p') (alike' : SuperAlike W' p' p'') :
    SuperAlike (W.comp W') p p'' :=
  ⟨alike.1.trans alike'.1, alike.2.trans alike'.2⟩

theorem DeclSymbol.Same.trans {d d' d'' : DeclSymbol} (same : d.Same W d') (same' : d'.Same W' d'') :
    d.Same (W.comp W') d'' where
  nominal := same.nominal.trans same'.nominal
  file := same.file.trans same'.file
  decl := same.decl.trans same'.decl
  params := forall₂_trans (fun _ _ _ paired paired' => paired.trans paired') same.params same'.params
  parent := optionRel_trans (fun _ _ _ supers supers' => supers.trans supers') same.parent same'.parent
  interfaces := forall₂_trans (fun _ _ _ supers supers' => supers.trans supers') same.interfaces same'.interfaces
  fields := by
    refine forall₂_trans (fun f f' f'' field field' => ?_) same.fields same'.fields
    refine ⟨field.name.trans field'.name, field.owner.trans field'.owner, field.decl.trans field'.decl, .inr ?_⟩
    exact optionRel_trans (fun _ _ _ types types' => types.trans types') (field.type.resolve_left id)
      (field'.type.resolve_left id)
  methods := forall₂_trans (fun _ _ _ method method' => method.trans method') same.methods same'.methods

theorem Registry.Same.trans {r r' r'' : Registry} (same : r.Same W r') (same' : r'.Same W' r'') :
    r.Same (W.comp W') r'' :=
  ⟨same.length.trans same'.length, same.distinct, same'.distinct', fun name =>
    optionRel_trans (R := DeclSymbol.Same W) (S := DeclSymbol.Same W') (fun _ _ _ decls decls' => decls.trans decls')
      (same.find name) (same'.find name)⟩

namespace DeclSymbol.Alike

variable {d d' : DeclSymbol}

theorem name (alike : d.Alike W B d') : d.name = d'.name := congrArg Nominal.name alike.nominal

theorem supers (alike : d.Alike W B d') : List.Forall₂ (Ty.Alike W) d.supers d'.supers := by
  unfold DeclSymbol.supers
  refine List.rel_map ?_ (List.rel_append ?_ alike.interfaces)
  · rintro ⟨n, args⟩ ⟨n', args'⟩ ⟨rfl, all⟩
    exact ⟨args', rfl, all⟩
  · have parents := alike.parent
    generalize d.parent = a at parents ⊢
    generalize d'.parent = b at parents ⊢
    cases parents with
    | none => exact .nil
    | some supers => exact .cons supers .nil

theorem selfArgs (alike : d.Alike W B d') : Ty.AlikeAll W d.selfArgs d'.selfArgs :=
  alikeAll_iff.2 (List.rel_map (fun _ _ paired => ⟨_, rfl, paired⟩) alike.params)

theorem selfType (alike : d.Alike W B d') : d.selfType.Alike W d'.selfType := by
  unfold DeclSymbol.selfType
  rw [alike.nominal]
  exact ⟨_, rfl, alike.selfArgs⟩

theorem field? (alike : d.Alike W B d') (name : String) :
    Option.Rel (fun f f' => f.Alike W B f' ∧ f.name = name) (d.field? name) (d'.field? name) :=
  optionRel_imp (fun _ _ both => ⟨both.1, by simpa using both.2⟩)
    (find?_related (fun _ _ field => by rw [field.name]) alike.fields)

theorem method? (alike : d.Alike W B d') (name : String) :
    Option.Rel (MethodSymbol.Alike W) (d.method? name) (d'.method? name) :=
  optionRel_imp (fun _ _ both => both.1) (find?_related (fun _ _ method => by rw [method.name]) alike.methods)

end DeclSymbol.Alike

namespace MethodSymbol.Alike

variable {m m' : MethodSymbol}

theorem isStatic (alike : m.Alike W m') : m.isStatic = m'.isStatic := by
  rw [MethodSymbol.isStatic, MethodSymbol.isStatic, alike.decl]

theorem isConstructor (alike : m.Alike W m') : m.isConstructor = m'.isConstructor := by
  rw [MethodSymbol.isConstructor, MethodSymbol.isConstructor, alike.decl]

theorem signature (alike : m.Alike W m') : m.signature.Alike W m'.signature :=
  ⟨_, _, rfl, alikeAll_iff.2 (List.rel_map (fun _ _ param => param.type) alike.params), alike.result⟩

end MethodSymbol.Alike

/-! ## Looking up -/

namespace Registry

variable {r r' : Registry} {d d' : DeclSymbol}

/-- With distinct names, what is found by its nominal is what is found by its name, if it has that nominal. -/
theorem find?_nominal (distinct : r.names.Nodup) (n : Nominal) :
    List.find? (fun d => d.nominal == n) r = (r.find? n.name).filter fun d => d.nominal == n := by
  induction r with
  | nil => rfl
  | cons d r ih =>
    rw [names, List.map_cons, List.nodup_cons] at distinct
    have rest := ih distinct.2
    rw [find?] at rest ⊢
    by_cases same : d.nominal = n
    · have named : d.name = n.name := congrArg Nominal.name same
      simp [same, named, Option.filter_some]
    · rw [List.find?_cons_of_neg (by simpa using same), rest]
      by_cases named : d.name = n.name
      · have absent : List.find? (fun d => d.name == n.name) r = none := by
          refine List.find?_eq_none.2 fun e member equal => distinct.1 ?_
          rw [named, ← (by simpa using equal : e.name = n.name)]
          exact List.mem_map_of_mem member
        simp [named, absent, same, Option.filter_some]
      · rw [List.find?_cons_of_neg (by simpa using named)]

theorem ancestorsFrom_succ (r : Registry) (fuel : Nat) (seen : List String) (d : DeclSymbol) :
    r.ancestorsFrom (fuel + 1) seen d =
      if seen.contains d.name then []
      else d :: (d.parent.bind fun p => r.find? p.1.name).elim [] (r.ancestorsFrom fuel (d.name :: seen)) := by
  rw [ancestorsFrom]
  split
  · rfl
  · split
    · next absent =>
      have absent : (d.parent.bind fun p => r.find? p.1.name) = none := absent
      rw [absent, Option.elim_none]
    · next p found =>
      have found : (d.parent.bind fun p => r.find? p.1.name) = some p := found
      rw [found, Option.elim_some]

namespace Alike

variable (alike : r.Alike W B r')
include alike

theorem table : r.table.Alike W r'.table := by
  constructor
  · simpa [Registry.table] using alike.length
  · intro n
    have found := alike.find n.name
    unfold TypeTable.find? Registry.table
    rw [List.find?_map, List.find?_map]
    change Option.Rel _ ((List.find? (fun d => d.nominal == n) r).map _)
      ((List.find? (fun d => d.nominal == n) r').map _)
    rw [find?_nominal alike.distinct, find?_nominal alike.distinct']
    generalize r.find? n.name = a at found ⊢
    generalize r'.find? n.name = b at found ⊢
    cases found with
    | none => exact .none
    | @some d d' decls =>
      simp only [Option.filter_some, ← decls.nominal]
      split
      · exact .some ⟨decls.params, decls.supers⟩
      · exact .none

theorem class? (name : String) : Option.Rel (DeclSymbol.Alike W B) (r.class? name) (r'.class? name) := by
  have found := alike.find name
  unfold Registry.class?
  generalize r.find? name = a at found ⊢
  generalize r'.find? name = b at found ⊢
  cases found with
  | none => exact .none
  | some decls =>
    simp only [← decls.nominal]
    split
    · exact .none
    · exact .some decls

theorem parent (decls : d.Alike W B d') :
    Option.Rel (DeclSymbol.Alike W B) (d.parent.bind fun p => r.find? p.1.name)
      (d'.parent.bind fun p => r'.find? p.1.name) := by
  have parents := decls.parent
  generalize d.parent = a at parents ⊢
  generalize d'.parent = b at parents ⊢
  cases parents with
  | none => exact .none
  | @some p p' supers =>
    simp only [Option.bind_some, ← supers.1]
    exact alike.find p.1.name

theorem ancestorsFrom (fuel : Nat) (seen : List String) (decls : d.Alike W B d') :
    List.Forall₂ (DeclSymbol.Alike W B) (r.ancestorsFrom fuel seen d) (r'.ancestorsFrom fuel seen d') := by
  induction fuel generalizing seen d d' with
  | zero => exact .nil
  | succ fuel ih =>
    have parents := alike.parent decls
    rw [ancestorsFrom_succ, ancestorsFrom_succ, ← decls.name]
    generalize (d.parent.bind fun p => r.find? p.1.name) = a at parents ⊢
    generalize (d'.parent.bind fun p => r'.find? p.1.name) = b at parents ⊢
    split
    · exact .nil
    · cases parents with
      | none => exact .cons decls .nil
      | some parents => exact .cons decls (ih _ parents)

theorem ancestors (decls : d.Alike W B d') :
    List.Forall₂ (DeclSymbol.Alike W B) (r.ancestors d) (r'.ancestors d') := by
  unfold Registry.ancestors
  rw [← alike.length]
  exact alike.ancestorsFrom _ [] decls

theorem classField? (decls : d.Alike W B d') (name : String) :
    Option.Rel (fun f f' => f.Alike W B f' ∧ f.name = name) (r.classField? d name) (r'.classField? d' name) :=
  findSome?_rel (fun _ _ decls => decls.field? name) (alike.ancestors decls)

theorem classMethod? (decls : d.Alike W B d') (name : String) :
    Option.Rel (MethodSymbol.Alike W) (r.classMethod? d name) (r'.classMethod? d' name) := by
  refine findSome?_rel (fun e e' decls => ?_) (alike.ancestors decls)
  have found := decls.method? name
  generalize e.method? name = a at found ⊢
  generalize e'.method? name = b at found ⊢
  cases found with
  | none => exact .none
  | some methods =>
    simp only [Option.filter_some, methods.isConstructor]
    split
    · exact .some methods
    · exact .none

theorem constructor? (decls : d.Alike W B d') :
    Option.Rel (MethodSymbol.Alike W) (r.constructor? d) (r'.constructor? d') :=
  findSome?_rel (fun _ _ decls => decls.method? _) (alike.ancestors decls)

end Alike

/-! ## Interfaces -/

/-- Methods that are alike, with substitutions that are alike. -/
def InheritedAlike (W : Pairing) (i i' : Inherited) : Prop := i.method.Alike W i'.method ∧ i.subst.Alike W i'.subst

/-- Walks that went over the same interfaces and found methods that are alike. -/
structure WalkAlike (W : Pairing) (w w' : MethodWalk) : Prop where
  visited : w.visited = w'.visited
  found : List.Forall₂ (InheritedAlike W) w.found w'.found

theorem Alike.walkMethods (alike : r.Alike W B r') (fuel : Nat) (decls : d.Alike W B d') {s s' : Subst}
    (substs : s.Alike W s') {w w' : MethodWalk} (walks : WalkAlike W w w') :
    WalkAlike W (r.walkMethods fuel d s w) (r'.walkMethods fuel d' s' w') := by
  induction fuel generalizing d d' s s' w w' with
  | zero => exact walks
  | succ fuel ih =>
    rw [Registry.walkMethods, Registry.walkMethods, ← decls.name, ← walks.visited]
    split
    · exact walks
    · refine List.rel_foldl ?_ ⟨rfl, ?_⟩ decls.interfaces
      · rintro w w' walks ⟨n, args⟩ ⟨n', args'⟩ ⟨rfl, types⟩
        have found := alike.find n.name
        dsimp only
        generalize r.find? n.name = a at found ⊢
        generalize r'.find? n.name = b at found ⊢
        cases found with
        | none => exact walks
        | some parents =>
          simp only [← parents.nominal]
          split
          · refine ih parents ?_ walks
            exact .ofLists parents.params (alikeAll_iff.1 (applyAll_alike substs types))
          · exact walks
      · refine List.rel_foldl ?_ walks.found decls.methods
        intro found found' alike m m' methods
        have known := any_related (f := fun i => i.method.name == m.name) (g := fun i => i.method.name == m'.name)
          (fun i i' both => by rw [both.1.name, methods.name]) alike
        dsimp only
        rw [known]
        split
        · exact alike
        · exact List.rel_append alike (.cons ⟨methods, substs⟩ .nil)

theorem Alike.allMethods (alike : r.Alike W B r') (decls : d.Alike W B d') {args args' : List Ty}
    (types : Ty.AlikeAll W args args') :
    List.Forall₂ (InheritedAlike W) (r.allMethods d args) (r'.allMethods d' args') := by
  unfold Registry.allMethods
  rw [← alike.length]
  exact (alike.walkMethods _ decls (.ofLists decls.params (alikeAll_iff.1 types)) ⟨rfl, .nil⟩).found

theorem Alike.interfaceField? (alike : r.Alike W B r') (decls : d.Alike W B d') (name : String) :
    Option.Rel (fun f f' => f.Alike W B f' ∧ f.name = name) (r.interfaceField? d name)
      (r'.interfaceField? d' name) := by
  unfold Registry.interfaceField?
  rw [← alike.length]
  generalize List.length r + 1 = fuel
  induction fuel generalizing d d' with
  | zero => exact .none
  | succ fuel ih =>
    have own := decls.field? name
    rw [interfaceFieldFrom, interfaceFieldFrom]
    generalize d.field? name = a at own ⊢
    generalize d'.field? name = b at own ⊢
    cases own with
    | some fields => exact .some fields
    | none =>
      refine findSome?_rel ?_ decls.interfaces
      rintro ⟨n, args⟩ ⟨n', args'⟩ ⟨rfl, -⟩
      have found := alike.find n.name
      dsimp only
      generalize r.find? n.name = a at found ⊢
      generalize r'.find? n.name = b at found ⊢
      cases found with
      | none => exact .none
      | some parents =>
        simp only [← parents.nominal]
        split
        · exact ih parents
        · exact .none

end Registry

end ClassScript
