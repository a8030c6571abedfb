import ClassScript.Proofs.DeclarationOrder
import ClassScript.Proofs.Substitutions

/-!
Whose type parameters types mention. The types that are written in a declaration can mention its own parameters,
those of its methods, and unknown types, but never the parameters of another declaration (`homely_of_declare`).
Types that are found otherwise, by looking at initial values, are not bound by this.
-/

namespace ClassScript

/-! ## Variables that a pairing leaves out -/

/-- Every number below `n` stands for itself, except those in `S`. -/
def Pairing.sparing (n : Nat) (S : Nat → Prop) : Pairing where
  rel a b := a = b ∧ a < n ∧ ¬ S a
  left := n
  right := n
  bound := by
    rintro a b ⟨rfl, small, -⟩
    exact ⟨small, small⟩
  unique := by
    rintro a b a' b' ⟨rfl, -⟩ ⟨rfl, -⟩
    exact Iff.rfl

variable {n m : Nat} {S T : Nat → Prop}

/-- Numbers that are handed out later are spared by none. -/
theorem Pairing.sparing_grow (below : ∀ a, S a → a < n) (u : Nat) : (sparing n S).grow u = sparing (n + u) S := by
  ext a b
  · constructor
    · rintro (⟨rfl, small, free⟩ | ⟨i, small, rfl, rfl⟩)
      · exact ⟨rfl, Nat.lt_add_right u small, free⟩
      · refine ⟨rfl, Nat.add_lt_add_left small n, fun spared => ?_⟩
        have := below _ spared
        have : n ≤ n + i := Nat.le_add_right n i
        exact absurd (below _ spared) (Nat.not_lt.2 this)
    · rintro ⟨rfl, small, free⟩
      by_cases early : a < n
      · exact .inl ⟨rfl, early, free⟩
      · exact .inr ⟨a - n, by omega, by simp only [sparing]; omega, by simp only [sparing]; omega⟩
  · rfl
  · rfl

/-- Later, and where fewer are spared below the number reached, no fewer numbers stand for themselves. -/
theorem Pairing.sparing_le (le : n ≤ m) (fewer : ∀ a < n, T a → S a) : sparing n S ≤ sparing m T := by
  rintro a b ⟨rfl, small, free⟩
  exact ⟨rfl, Nat.lt_of_lt_of_le small le, fun spared => free (fewer a small spared)⟩

mutual

/-- A type that is like itself has only variables that stand for themselves. -/
theorem Ty.Alike.rel_of_mem_vars {W : Pairing} {t : Ty} (alike : t.Alike W t) {v : TypeVar} (occurs : v ∈ t.vars) :
    W.rel v.id v.id := by
  cases t with
  | nullable t =>
    obtain ⟨_, same, inner⟩ := alike
    cases same
    exact inner.rel_of_mem_vars occurs
  | var w =>
    obtain ⟨_, same, paired⟩ := alike
    cases same
    obtain rfl := List.mem_singleton.1 occurs
    exact paired.2
  | function params result =>
    obtain ⟨_, _, same, all, inner⟩ := alike
    cases same
    rcases List.mem_append.1 occurs with inParams | inResult
    · exact Ty.AlikeAll.rel_of_mem_vars all inParams
    · exact inner.rel_of_mem_vars inResult
  | ref d args =>
    obtain ⟨_, same, all⟩ := alike
    cases same
    exact Ty.AlikeAll.rel_of_mem_vars all occurs
  | _ => cases occurs

theorem Ty.AlikeAll.rel_of_mem_vars {W : Pairing} {ts : List Ty} (alike : Ty.AlikeAll W ts ts) {v : TypeVar}
    (occurs : v ∈ Ty.varsAll ts) : W.rel v.id v.id := by
  cases ts with
  | nil => cases occurs
  | cons t ts =>
    obtain ⟨_, _, same, first, rest⟩ := alike
    cases same
    rcases List.mem_append.1 occurs with inFirst | inRest
    · exact first.rel_of_mem_vars inFirst
    · exact Ty.AlikeAll.rel_of_mem_vars rest inRest

end

/-! ## Parameters of other declarations -/

/-- The numbers of the type parameters of other declarations. -/
def Registry.Foreign (r : Registry) (d : DeclSymbol) (id : Nat) : Prop :=
  ∃ e ∈ r, e.name ≠ d.name ∧ ∃ v ∈ e.params, v.id = id

/-- Each declaration has parameters of its own, below `n`, and its types mention none of the others; fields with
names in `B` may have any type. -/
structure Registry.Homely (r : Registry) (n : Nat) (B : DeclSymbol → String → Prop) : Prop where
  names : r.names.Nodup
  distinct : ∀ d ∈ r, d.params.Nodup
  own : ∀ d ∈ r, d.Alike (.sparing n (r.Foreign d)) (B d) d

/-- Where no type is left open. -/
abbrev Registry.HomelySo (r : Registry) (n : Nat) : Prop := r.Homely n fun _ _ => False

namespace Registry

variable {r r' : Registry} {B : DeclSymbol → String → Prop} {d d' e : DeclSymbol}

theorem eq_of_name (distinct : r.names.Nodup) (member : d ∈ r) (member' : e ∈ r) (same : d.name = e.name) : d = e :=
  List.inj_on_of_nodup_map distinct member member' same

theorem Homely.param_lt (homely : r.Homely n B) (member : d ∈ r) {v : TypeVar} (isParam : v ∈ d.params) : v.id < n :=
  (List.forall₂_same.1 (homely.own d member).params v isParam).2.2.1

theorem Homely.foreign_lt (homely : r.Homely n B) {a : Nat} (foreign : r.Foreign d a) : a < n := by
  obtain ⟨e, member, -, v, isParam, rfl⟩ := foreign
  exact homely.param_lt member isParam

/-- What is foreign depends only on the names and parameters of the declarations. -/
theorem foreign_congr (heads : r'.map (fun d => (d.name, d.params)) = r.map fun d => (d.name, d.params))
    (same : d'.name = d.name) : r'.Foreign d' = r.Foreign d := by
  have half {r r' : Registry} {d d' : DeclSymbol}
      (heads : r'.map (fun d => (d.name, d.params)) = r.map fun d => (d.name, d.params)) (same : d'.name = d.name)
      (a : Nat) (foreign : r'.Foreign d' a) : r.Foreign d a := by
    obtain ⟨e, member, other, v, isParam, isNumber⟩ := foreign
    have inside : (e.name, e.params) ∈ r'.map fun d => (d.name, d.params) := List.mem_map_of_mem member
    rw [heads] at inside
    obtain ⟨e', member', alike⟩ := List.mem_map.1 inside
    obtain ⟨isName, params⟩ := Prod.mk.inj alike
    exact ⟨e', member', by rwa [isName, ← same], v, by rwa [params], isNumber⟩
  exact funext fun a => propext ⟨half heads same a, half heads.symm same.symm a⟩

end Registry

namespace Typing

variable {α β : Type} {c : Context} {p q : Progress} {r r' : Registry} {name : String}

/-- What every step of a loop preserves, with what was handed out before it, holds after all of them. -/
theorem foldlM_ran {f : β → α → Analysis β} {I : Nat → β → Prop}
    (step : ∀ {b a b' p q}, I p.fresh b → f b a c p = .ok (b', q) → I q.fresh b') {items : List α} {b b' : β}
    (start : I p.fresh b) (ran : items.foldlM f b c p = .ok (b', q)) : I q.fresh b' := by
  induction items generalizing b p with
  | nil =>
    rw [List.foldlM_nil] at ran
    cases ran
    exact start
  | cons a items ih =>
    rw [List.foldlM_cons] at ran
    obtain ⟨b₁, p₁, first, rest⟩ := ran_bind ran
    exact ih (step start first) rest

theorem freshVars_ran {items : List Name} {vs : List TypeVar}
    (ran : (items.mapM fun p => freshVar p.text) c p = .ok (vs, q)) :
    p.fresh ≤ q.fresh ∧ (∀ v ∈ vs, p.fresh ≤ v.id ∧ v.id < q.fresh) ∧ vs.Nodup := by
  induction items generalizing p vs with
  | nil =>
    rw [List.mapM_nil] at ran
    cases ran
    exact ⟨Nat.le_refl _, by simp, List.nodup_nil⟩
  | cons a items ih =>
    rw [List.mapM_cons] at ran
    obtain ⟨v, p₁, first, ran⟩ := ran_bind ran
    obtain ⟨vs', q', rest, last⟩ := ran_bind ran
    cases last
    obtain ⟨rfl, next⟩ : v = ⟨a.text, p.fresh⟩ ∧ p₁.fresh = p.fresh + 1 := by
      cases first
      exact ⟨rfl, rfl⟩
    obtain ⟨grown, between, distinct⟩ := ih rest
    rw [next] at grown between
    refine ⟨by omega, fun w member => ?_, List.nodup_cons.2 ⟨fun again => ?_, distinct⟩⟩
    · rcases List.mem_cons.1 member with rfl | member
      · exact ⟨Nat.le_refl _, by dsimp only; omega⟩
      · have := between w member
        omega
    · have := (between _ again).1
      dsimp only at this
      omega

theorem require_ran {condition : Bool} {span : Span} {fault : TypeFault} {u : Unit}
    (ran : require condition span fault c p = .ok (u, q)) : q = p := by
  unfold require at ran
  split at ran
  · cases ran
    rfl
  · cases ran

theorem inFile_ran {file : String} {x : Analysis α} : inFile file x c p = x { c with file } p := rfl

/-- A new declaration has new parameters. -/
theorem homely_register {file : String} {d : Declaration} (homely : r.HomelySo p.fresh)
    (ran : register r file d c p = .ok (r', q)) : r'.HomelySo q.fresh := by
  have names := keyed_register.distinct (a := (file, d)) homely.names ⟨p, q, ran⟩
  rw [register, inFile_ran] at ran
  obtain ⟨_, p₁, required, rest⟩ := ran_bind ran
  obtain rfl := require_ran required
  obtain ⟨params, p₂, made, last⟩ := ran_bind rest
  cases last
  obtain ⟨grown, between, distinct⟩ := freshVars_ran made
  refine ⟨names, fun e member => ?_, fun e member => ?_⟩
  · rcases List.mem_append.1 member with early | last
    · exact homely.distinct e early
    · obtain rfl := List.mem_singleton.1 last
      exact distinct
  · rcases List.mem_append.1 member with early | last
    · refine (homely.own e early).mono (Pairing.sparing_le grown fun a small foreign => ?_)
      obtain ⟨other, within, isOther, v, isParam, rfl⟩ := foreign
      rcases List.mem_append.1 within with early | last
      · exact ⟨other, early, isOther, v, isParam, rfl⟩
      · obtain rfl := List.mem_singleton.1 last
        exact absurd small (Nat.not_lt.2 (between v isParam).1)
    · obtain rfl := List.mem_singleton.1 last
      refine ⟨rfl, rfl, rfl, List.forall₂_same.2 fun v isParam => ?_, .none, .nil, .nil, .nil⟩
      refine ⟨rfl, rfl, (between v isParam).2, ?_⟩
      rintro ⟨other, within, isOther, w, isParam', same⟩
      rcases List.mem_append.1 within with early | last
      · have := homely.param_lt early isParam'
        have := (between v isParam).1
        omega
      · exact isOther (by rw [List.mem_singleton.1 last])

/-! ## Supertypes and members -/

/-- Steps that replace symbols by others with the same head, and see nothing but heads, do not bring in
parameters of other declarations: beside a run in which those have no partner, there is the same run. -/
theorem homely_replace {f : DeclSymbol → Analysis DeclSymbol} (bare : c.typeParams = [])
    (head : ∀ {c d d'}, Gives (f d) c d' → d'.nominal = d.nominal ∧ d'.params = d.params)
    (mirrors : ∀ {W c c' d d'}, Context.Kin W c c' → d.Same W d' → Mirrors W c c' (f d) (f d') DeclSymbol.Same)
    (homely : r.HomelySo p.fresh) (ran : replace f r name c p = .ok (r', q)) : r'.HomelySo q.fresh := by
  have names := (gives_replace_kept head ⟨p, q, ran⟩).1
  unfold replace at ran
  cases found : r.find? name with
  | none =>
    rw [found] at ran
    cases ran
    exact homely
  | some d =>
  rw [found] at ran
  obtain ⟨d', p₁, inner, ran⟩ := ran_bind ran
  cases ran
  have inner : f d { c with registry := r } p = .ok (d', q) := inner
  have member := Registry.mem_of_find? found
  obtain ⟨nominal, params⟩ := head ⟨p, q, inner⟩
  have kin : Context.Kin (.sparing p.fresh (r.Foreign d)) { c with registry := r } { c with registry := r } := by
    refine ⟨sameHeads_rfl, ?_⟩
    rw [bare]
    exact .nil
  obtain ⟨u, e, q', again, reached, -, same⟩ := mirrors kin (homely.own d member) p p d' q rfl rfl inner
  cases inner.symm.trans again
  rw [Pairing.sparing_grow fun a => homely.foreign_lt] at reached same
  have reached : q.fresh = p.fresh + u := reached
  have only {e : DeclSymbol} (within : e ∈ r) (isNamed : e.name = name) : e = d :=
    Registry.eq_of_name homely.names within member (isNamed.trans (Registry.find?_name found).symm)
  have heads : (r.update name fun _ => d').map (fun d => (d.name, d.params)) = r.map fun d => (d.name, d.params) := by
    refine Registry.map_update _ fun e within isNamed => ?_
    obtain rfl := only within isNamed
    rw [DeclSymbol.name, DeclSymbol.name, nominal, params]
  refine ⟨names ▸ homely.names, fun e within => ?_, fun e within => ?_⟩
  · obtain ⟨e, before, rfl⟩ := Registry.mem_update.1 within
    split
    · rw [params]
      exact homely.distinct d member
    · exact homely.distinct e before
  · obtain ⟨e, before, rfl⟩ := Registry.mem_update.1 within
    rw [reached]
    split
    · rw [Registry.foreign_congr heads (d := d) (by rw [DeclSymbol.name, DeclSymbol.name, nominal])]
      exact same
    · rw [Registry.foreign_congr heads (d := e) rfl]
      exact (homely.own e before).mono (Pairing.sparing_le (Nat.le_add_right ..) fun _ _ foreign => foreign)

/-! ## Initial and default values -/

variable {declarations : List (String × Declaration)} {n : Nat}

/-- What settling adds to a symbol of what was written are types of fields for which none is written. -/
theorem touches_of_written (written : ∀ d ∈ r, Written declarations d) (gives : Gives (settle r name) c r') :
    ∃ names, Touches name names r r' ∧ ∀ d, r.find? name = some d → d.decl.untyped = names := by
  cases found : r.find? name with
  | none =>
    rw [settle, found] at gives
    rw [gives_pure gives]
    exact ⟨[], .refl, by simp⟩
  | some d =>
    refine ⟨d.decl.untyped, touches_settle (fun e found' f within untyped => ?_) gives, by rintro _ ⟨⟩; rfl⟩
    obtain rfl := Option.some.inj (found'.symm.trans found)
    exact (written e (Registry.mem_of_find? found)).untyped within untyped

theorem homely_settle (homely : r.Homely n fun d x => x ∈ d.decl.untyped) (written : ∀ d ∈ r, Written declarations d)
    (heads : r'.map (fun d => (d.name, d.params)) = r.map fun d => (d.name, d.params))
    (gives : Gives (settle r name) c r') : r'.Homely n fun d x => x ∈ d.decl.untyped := by
  obtain ⟨open_, touches, isOpen⟩ := touches_of_written written gives
  have names : r'.names.Nodup := touches.names ▸ homely.names
  refine ⟨names, fun e within => ?_, fun e within => ?_⟩
  · have inside : (e.name, e.params) ∈ r.map fun d => (d.name, d.params) := heads ▸ List.mem_map_of_mem within
    obtain ⟨e', before, same⟩ := List.mem_map.1 inside
    rw [← (Prod.mk.inj same).2]
    exact homely.distinct e' before
  · have found' := Registry.find?_of_mem names within
    by_cases here : e.name = name
    · rw [here] at found'
      have blurred := touches.own
      rw [found', Option.map_some] at blurred
      obtain ⟨d, found, blurred⟩ := Option.map_eq_some_iff.1 blurred.symm
      have decl : (blur open_ d).decl = (blur open_ e).decl := congrArg DeclSymbol.decl blurred
      have decl : d.decl = e.decl := decl
      rw [Registry.foreign_congr heads (here.trans (Registry.find?_name found).symm), ← decl, isOpen d found]
      refine blur_alike.1 ?_
      rw [← blurred, ← isOpen d found]
      exact blur_alike.2 (homely.own d (Registry.mem_of_find? found))
    · rw [touches.frame _ here] at found'
      rw [Registry.foreign_congr heads rfl]
      exact homely.own e (Registry.mem_of_find? found')

/-- The fields of a declaration all have a type. -/
def Typed (d : DeclSymbol) : Prop := ∀ f ∈ d.fields, f.type.isSome = true

/-- What has no type yet will have one. -/
theorem typed_settleFields {fs : List FieldSymbol}
    (coming : ∀ d, r.find? name = some d → ∀ g ∈ d.fields, g.type = none → ∃ f ∈ fs, f.type = none ∧ f.name = g.name)
    (gives : Gives (settleFields name fs r) c r') : ∀ d, r'.find? name = some d → Typed d := by
  induction fs generalizing r with
  | nil =>
    rw [gives_pure gives]
    intro d found g member
    rw [Option.isSome_iff_ne_none]
    intro untyped
    obtain ⟨f, none, -⟩ := coming d found g member untyped
    cases none
  | cons f fs ih =>
    unfold settleFields at gives
    split at gives
    · next d untyped found =>
      obtain ⟨t, -, gives⟩ := gives_bind gives
      refine ih (fun d' found' g' member' untyped' => ?_) gives
      rw [Registry.find?_update_self (by exact fun _ _ same => same), found] at found'
      obtain rfl := Option.some.inj found'
      obtain ⟨g, member, rfl⟩ := List.mem_map.1 member'
      split at untyped'
      · cases untyped'
      next differs =>
      obtain ⟨f', within, untyped'', same⟩ := coming d found g member untyped'
      rcases List.mem_cons.1 within with rfl | within
      · exact absurd (by simp [same]) differs
      · exact ⟨f', within, untyped'', by rw [same, if_neg differs]⟩
    · next settled =>
      refine ih (fun d found g member untyped => ?_) gives
      obtain ⟨f', within, untyped', same⟩ := coming d found g member untyped
      rcases List.mem_cons.1 within with rfl | within
      · exact absurd found (settled d untyped')
      · exact ⟨f', within, untyped', same⟩

theorem typed_settle {d : DeclSymbol} (gives : Gives (settle r name) c r') (found : r'.find? name = some d) : Typed d := by
  unfold settle at gives
  split at gives
  · next absent =>
    rw [gives_pure gives, absent] at found
    cases found
  next before start =>
  obtain ⟨r₁, fieldsGive, gives⟩ := gives_bind gives
  have typed := typed_settleFields (fun e same g member untyped => by
    obtain rfl := Option.some.inj (start.symm.trans same)
    exact ⟨g, member, untyped, rfl⟩) fieldsGive
  split at gives
  · next absent =>
    rw [gives_pure gives, absent] at found
    cases found
  next e between =>
  obtain ⟨methods, -, gives⟩ := gives_bind gives
  rw [gives_pure gives, Registry.find?_update_self (by exact fun _ _ same => same), between] at found
  obtain rfl := Option.some.inj found
  exact typed e between

/-! ## All phases -/

/-- The symbols of what was declared: where parameters may occur, and that all fields have types. -/
structure Settled (r : Registry) : Prop where
  homely : ∃ n, r.Homely n fun d x => x ∈ d.decl.untyped
  typed : ∀ d ∈ r, Typed d

/-- With initial and default values, every declaration is settled. -/
theorem settled_of_settle {p : LinkedProgram} {r₃ r : Registry} (fills : Fills p.declarations r₃ r₃ ∧ ∀ d ∈ r₃, Membered d)
    (written : ∀ d ∈ r₃, Written p.declarations d) (homely : r₃.Homely n fun d x => x ∈ d.decl.untyped)
    (gives : Gives (r₃.names.foldlM settle r₃) c r) : Settled r := by
  let Inv (done : List String) (r : Registry) : Prop :=
    (Fills p.declarations r₃ r ∧ ∀ d ∈ r, Membered d) ∧ (∀ d ∈ r, Written p.declarations d) ∧
      (r.Homely n fun d x => x ∈ d.decl.untyped) ∧ ∀ d ∈ r, d.name ∈ done → Typed d
  have step (done : List String) (name : String) (r r' : Registry) (before : Inv done r) (gives : Gives (settle r name) c r') :
      Inv (done ++ [name]) r' := by
    obtain ⟨fills, written, homely, typed⟩ := before
    have fills' := fills_settle fills gives
    have heads : r'.map (fun d => (d.name, d.params)) = r.map fun d => (d.name, d.params) := by
      have outlines := congrArg (List.map fun d => (d.name, d.params)) (fills'.1.outlines.trans fills.1.outlines.symm)
      rwa [List.map_map, List.map_map] at outlines
    have homely' := homely_settle homely written heads gives
    refine ⟨fills', written_settle homely.names written gives, homely', fun d member named => ?_⟩
    have found := Registry.find?_of_mem homely'.names member
    by_cases here : d.name = name
    · exact typed_settle gives (here ▸ found)
    · obtain ⟨_, touches, -⟩ := touches_of_written written gives
      rw [touches.frame _ here] at found
      refine typed d (Registry.mem_of_find? found) ((List.mem_append.1 named).resolve_right fun last => ?_)
      exact here (List.mem_singleton.1 last)
  have ended : Inv ([] ++ r₃.names) r := gives_foldlM step [] gives ⟨fills, written, homely, by simp⟩
  refine ⟨⟨n, ended.2.2.1⟩, fun d member => ended.2.2.2 d member ?_⟩
  have names : r.names = r₃.names := by rw [ended.1.1.registered.names, fills.1.registered.names]
  rw [List.nil_append, ← names]
  exact List.mem_map_of_mem member

/-- The types that are written in a declaration do not mention the parameters of others. -/
theorem settled_of_declare {p : LinkedProgram} {r : Registry} (bare : c.typeParams = []) (gives : Gives (declare p) c r) :
    Settled r := by
  obtain ⟨start, q, ran⟩ := gives
  obtain ⟨r₁, q₁, ran₁, ran⟩ := ran_bind ran
  obtain ⟨r₂, q₂, ran₂, ran⟩ := ran_bind ran
  obtain ⟨_, q₂', ranA, ran⟩ := ran_bind ran
  obtain ⟨r₃, q₃, ran₃, ran₄⟩ := ran_bind ran
  -- names
  obtain ⟨registered, written₁⟩ := registered_register_all ⟨start, q₁, ran₁⟩
  have empty : Registry.HomelySo [] start.fresh := ⟨List.nodup_nil, by simp, by simp⟩
  have homely₁ : r₁.HomelySo q₁.fresh :=
    foldlM_ran (I := fun n r => Registry.HomelySo r n) homely_register empty ran₁
  -- supertypes
  have homely₂ : r₂.HomelySo q₂.fresh :=
    foldlM_ran (I := fun n r => Registry.HomelySo r n) (homely_replace bare head_withSupers withSupers_mirrors) homely₁ ran₂
  have written₂ := written_loop written_withSupers written₁ ⟨q₁, q₂, ran₂⟩
  obtain ⟨registered₂, -⟩ := headed_of_withSupers registered ⟨q₁, q₂, ran₂⟩
  -- cycles
  have acyclic : ∀ d ∈ r₂, r₂.isCyclic d = false := fun d member => by
    simpa using gives_require (gives_inFile (gives_forM ⟨q₂, q₂', ranA⟩ d member))
  obtain rfl : q₂ = q₂' := by
    have same := (acyclic_ran acyclic q₂).symm.trans ranA
    exact (Prod.mk.inj (Except.ok.inj same)).2
  -- members
  have homely₃ : r₃.HomelySo q₃.fresh :=
    foldlM_ran (I := fun n r => Registry.HomelySo r n) (homely_replace bare head_withMembers withMembers_mirrors) homely₂ ran₃
  have written₃ := written_loop written_withMembers written₂ ⟨q₂, q₃, ran₃⟩
  obtain ⟨fills, membered⟩ := membered_of_withMembers registered₂ ⟨q₂, q₃, ran₃⟩
  have weaker : r₃.Homely q₃.fresh fun d x => x ∈ d.decl.untyped :=
    ⟨homely₃.names, homely₃.distinct, fun d member => DeclSymbol.Same.weaken (homely₃.own d member)⟩
  exact settled_of_settle ⟨⟨fills.registered, rfl⟩, membered⟩ written₃ weaker ⟨q₃, q, ran₄⟩

end Typing

end ClassScript
