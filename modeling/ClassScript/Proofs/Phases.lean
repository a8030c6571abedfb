import ClassScript.Proofs.Reordering
import ClassScript.Proofs.MirroredCode
import ClassScript.Typing.Declarations

/-!
The first phases in which declarations become symbols, in any order of the declarations. Registration asks for no
more than that a name is free (`keyed_register`), and supertypes and members look at nothing of another declaration
but its head (`keyed_replace`), so that these phases do not depend on the order at all.
-/

namespace ClassScript

namespace Registry

variable {r : Registry} {name : String} {f : DeclSymbol → DeclSymbol}

theorem find?_update (named : ∀ d ∈ r, d.name = name → (f d).name = name) (n : String) :
    (r.update name f).find? n = (r.find? n).map fun d => if d.name == name then f d else d := by
  induction r with
  | nil => rfl
  | cons d r ih =>
    have rest := ih fun e member => named e (List.mem_cons_of_mem d member)
    have kept : (if d.name == name then f d else d).name = d.name := by
      split
      · next same =>
        have same : d.name = name := by simpa using same
        rw [named d List.mem_cons_self same, same]
      · rfl
    simp only [update, find?] at rest ⊢
    rw [List.map_cons, List.find?_cons, List.find?_cons, kept]
    split
    · rfl
    · exact rest

theorem find?_update_ne (named : ∀ d ∈ r, d.name = name → (f d).name = name) {n : String} (differs : n ≠ name) :
    (r.update name f).find? n = r.find? n := by
  rw [find?_update named]
  cases found : r.find? n with
  | none => rfl
  | some d =>
    have other : d.name ≠ name := by
      rw [find?_name found]
      exact differs
    simp [other]

theorem find?_update_self (named : ∀ d ∈ r, d.name = name → (f d).name = name) :
    (r.update name f).find? name = (r.find? name).map f := by
  rw [find?_update named]
  cases found : r.find? name with
  | none => rfl
  | some d => simp [find?_name found]

theorem names_update (named : ∀ d ∈ r, d.name = name → (f d).name = name) : (r.update name f).names = r.names := by
  refine map_update _ fun d member same => ?_
  rw [named d member same, same]

end Registry

namespace Typing

variable {W : Pairing} {c c' : Context}

/-! ## Registration -/

theorem find?_append_self {r : Registry} {d : DeclSymbol} {n : String} (absent : r.find? n = none) (named : d.name = n) :
    Registry.find? (r ++ [d]) n = some d := by
  rw [Registry.find?] at absent ⊢
  simp [List.find?_append, absent, named]

theorem gives_register_frame {r r₁ : Registry} {file : String} {d : Declaration} {n : String}
    (gives : Gives (register r file d) c r₁) (differs : n ≠ d.name.text) : r₁.find? n = r.find? n := by
  obtain ⟨-, params, rfl⟩ := gives_register gives
  simp [Registry.find?, List.find?_append, DeclSymbol.name, Ne.symm differs]

theorem keyed_register :
    Keyed (fun d : String × Declaration => d.2.name.text) (fun r d => register r d.1 d.2) c 1 (fun _ => True)
      fun d _ r r' => r.find? d.2.name.text = none ↔ r'.find? d.2.name.text = none where
  size gives := by
    obtain ⟨-, params, rfl⟩ := gives_register gives
    simp
  distinct {r r₁ d} distinct gives := by
    obtain ⟨absent, params, rfl⟩ := gives_register gives
    rw [Registry.names, List.map_append, List.nodup_append]
    refine ⟨distinct, by simp, ?_⟩
    rintro n member m last rfl
    obtain ⟨e, within, rfl⟩ := List.mem_map.1 member
    rw [Registry.find?, List.find?_eq_none] at absent
    exact absent e within (by simpa [DeclSymbol.name] using last)
  frame gives differs := gives_register_frame gives differs
  keeps _ _ := trivial
  view d same _ _ := optionRel_none_iff (same.find _)
  viewLeft same _ _ differ gives := by
    rw [gives_register_frame gives (Ne.symm differ)]
    exact optionRel_none_iff (same.find _)
  viewRight same _ _ differ gives := by
    rw [gives_register_frame gives (Ne.symm differ)]
    exact optionRel_none_iff (same.find _)
  mirrors {W r r' d} absence := by
    by_cases absent : r.find? d.2.name.text = none
    · have absent' := absence.1 absent
      refine .withReader ((Mirrors.require (by rw [absent, absent'])).bind fun _ _ _ _ _ => ?_)
      refine (Mirrors.mapM (R := (· = ·)) (Q := Paired) (fun _ _ _ _ le paired => paired.mono le) ?_
        (List.forall₂_refl d.2.typeParams)).bind fun _ _ _ _ params => .pure ?_
      · rintro _ a _ _ rfl
        exact .freshVar a.text
      · rw [find?_append_self absent rfl, find?_append_self absent' rfl]
        exact .some ⟨rfl, rfl, rfl, params, .none, .nil, .nil, .nil⟩
    · exact .never fun _ gives => absent (gives_register gives).1

/-! ## Replacing symbols -/

theorem sameHeads_rfl {r : Registry} : SameHeads r r := by
  intro name
  cases r.find? name with
  | none => exact .none
  | some d => exact .some ⟨rfl, rfl⟩

/-- What a step that replaces a symbol leaves alone, if it keeps the head. -/
theorem gives_replace_kept {f : DeclSymbol → Analysis DeclSymbol} {r r₁ : Registry} {name : String}
    (head : ∀ {c d d'}, Gives (f d) c d' → d'.nominal = d.nominal ∧ d'.params = d.params)
    (gives : Gives (replace f r name) c r₁) :
    r₁.names = r.names ∧ (∀ n, n ≠ name → r₁.find? n = r.find? n) ∧ SameHeads r₁ r := by
  rcases gives_replace gives with ⟨-, rfl⟩ | ⟨d, d', found, inner, rfl⟩
  · exact ⟨rfl, fun _ _ => rfl, sameHeads_rfl⟩
  · obtain ⟨nominal, params⟩ := head inner
    have named : ∀ e ∈ r, e.name = name → d'.name = name := by
      intro e _ _
      rw [DeclSymbol.name, nominal]
      exact Registry.find?_name found
    refine ⟨Registry.names_update named, fun n differs => Registry.find?_update_ne named differs, fun n => ?_⟩
    by_cases here : n = name
    · rw [here, Registry.find?_update_self named, found]
      exact .some ⟨nominal, by rw [params]⟩
    · rw [Registry.find?_update_ne named here]
      exact sameHeads_rfl n

theorem SameHeads.symm {r r' : Registry} (same : SameHeads r r') : SameHeads r' r := by
  intro name
  rcases optionRel_cases (same name) with ⟨absent, absent'⟩ | ⟨d, d', found, found', heads⟩
  · rw [absent, absent']
    exact .none
  · rw [found, found']
    exact .some ⟨heads.1.symm, heads.2.symm⟩

theorem SameHeads.trans {r r' r'' : Registry} (first : SameHeads r r') (second : SameHeads r' r'') : SameHeads r r'' :=
  fun name => optionRel_trans (fun _ _ _ heads heads' => ⟨heads.1.trans heads'.1, heads.2.trans heads'.2⟩) (first name)
    (second name)

/-- Steps that replace symbols by others with the same head, and see nothing but heads. -/
theorem keyed_replace {f : DeclSymbol → Analysis DeclSymbol} (bare : c.typeParams = [])
    (head : ∀ {c d d'}, Gives (f d) c d' → d'.nominal = d.nominal ∧ d'.params = d.params)
    (mirrors : ∀ {W c c' d d'}, Context.Kin W c c' → d.Same W d' → Mirrors W c c' (f d) (f d') DeclSymbol.Same) :
    Keyed id (replace f) c 0 (fun _ => True) fun name W r r' =>
      SameHeads r r' ∧ Option.Rel (DeclSymbol.Same W) (r.find? name) (r'.find? name) where
  size gives := by
    have names := congrArg List.length (gives_replace_kept head gives).1
    simpa [Registry.names] using names
  distinct distinct gives := by
    rw [(gives_replace_kept head gives).1]
    exact distinct
  frame gives differs := (gives_replace_kept head gives).2.1 _ differs
  keeps _ _ := trivial
  view name same _ _ := ⟨sameHeads_of_alike same, same.find name⟩
  viewLeft {W r r' r₁ name _} same _ _ differ gives := by
    obtain ⟨-, frame, heads⟩ := gives_replace_kept head gives
    refine ⟨heads.trans (sameHeads_of_alike same), ?_⟩
    rw [frame name (Ne.symm differ)]
    exact same.find name
  viewRight {W r r' r₁ name _} same _ _ differ gives := by
    obtain ⟨-, frame, heads⟩ := gives_replace_kept head gives
    refine ⟨(sameHeads_of_alike same).trans heads.symm, ?_⟩
    rw [frame name (Ne.symm differ)]
    exact same.find name
  mirrors {W r r' name} view := by
    obtain ⟨heads, own⟩ := view
    unfold replace
    rcases optionRel_cases own with ⟨absent, absent'⟩ | ⟨d, d', found, found', decls⟩
    · rw [absent, absent']
      exact .pure own
    · rw [found, found']
      have kin : Context.Kin W { c with registry := r } { c with registry := r' } := by
        refine ⟨heads, ?_⟩
        rw [bare]
        exact .nil
      refine (Mirrors.gives (.withReader (mirrors kin decls))).bind fun _ e e' _ both => .pure ?_
      have named : e.name = name := by
        rw [DeclSymbol.name, (head both.2.1).1]
        exact Registry.find?_name found
      have named' : e'.name = name := by
        rw [DeclSymbol.name, (head both.2.2).1]
        exact Registry.find?_name found'
      rw [id, Registry.find?_update_self fun _ _ _ => named, Registry.find?_update_self fun _ _ _ => named', found, found']
      exact .some both.1

/-! ## Supertypes -/

/-- The context in which a declaration is worked on. -/
def Context.inside (c : Context) (d : DeclSymbol) : Context :=
  { c with file := d.file, typeParams := (d.params.map fun v => (v.name, v)).reverse ++ c.typeParams }

theorem Context.Kin.inside {d d' : DeclSymbol} {B : String → Prop} (kin : Context.Kin W c c') (decls : d.Alike W B d') :
    Context.Kin W (c.inside d) (c'.inside d') :=
  ⟨kin.heads, kin.typeParams.extend decls.params⟩

theorem gives_inDecl {α : Type} {d : DeclSymbol} {x : Analysis α} {a : α} (gives : Gives (inDecl d x) c a) :
    Gives x (c.inside d) a := gives

theorem Mirrors.inDecl {α β : Type} {d d' : DeclSymbol} {x : Analysis α} {y : Analysis β} {Q : Pairing → α → β → Prop}
    (inner : Mirrors W (c.inside d) (c'.inside d') x y Q) : Mirrors W c c' (inDecl d x) (inDecl d' y) Q := inner

theorem writtenClass_mirrors (kin : Context.Kin W c c') (t : TypeExpr) {fault fault' : TypeFault} :
    Mirrors W c c' (writtenClass t fault) (writtenClass t fault') SuperAlike := by
  refine (written_mirrors kin t).bind fun _ u u' _ types => ?_
  cases u with
  | ref n args =>
    obtain ⟨args', rfl, all⟩ := types
    exact .ite rfl .reject (.pure ⟨rfl, all⟩)
  | _ => exact .reject

theorem writtenInterface_mirrors (kin : Context.Kin W c c') (t : TypeExpr) {fault fault' : TypeFault} :
    Mirrors W c c' (writtenInterface t fault) (writtenInterface t fault') SuperAlike := by
  refine (written_mirrors kin t).bind fun _ u u' _ types => ?_
  cases u with
  | ref n args =>
    obtain ⟨args', rfl, all⟩ := types
    exact .ite rfl (.pure ⟨rfl, all⟩) .reject
  | _ => exact .reject

theorem writtenInterfaces_mirrors (kin : Context.Kin W c c') (ts : List TypeExpr) {fault fault' : TypeExpr → TypeFault} :
    Mirrors W c c' (ts.mapM fun t => writtenInterface t (fault t)) (ts.mapM fun t => writtenInterface t (fault' t))
      fun W' => List.Forall₂ (SuperAlike W') := by
  refine Mirrors.mapM (R := (· = ·)) (fun _ _ _ _ le supers => supers.mono le) ?_ (List.forall₂_refl ts)
  rintro _ t _ le rfl
  exact writtenInterface_mirrors (kin.mono le) t

/-- Only the supertypes of a symbol change. -/
theorem gives_withSupers_shape {d d' : DeclSymbol} (gives : Gives (withSupers d) c d') :
    ∃ parent interfaces, d' = { d with parent, interfaces } := by
  have gives := gives_inDecl gives
  split at gives
  · next parent interfaces _ =>
    have finish {found : Option (Nominal × List Ty)}
        (gives : Gives (do
          let interfaces ← interfaces.mapM fun t => writtenInterface t (.badInterface d.name t.text)
          return { d with parent := found, interfaces }) (c.inside d) d') :
        ∃ parent interfaces, d' = { d with parent, interfaces } := by
      obtain ⟨interfaces, -, gives⟩ := gives_bind gives
      exact ⟨found, interfaces, gives_pure gives⟩
    cases parent with
    | none =>
      obtain ⟨_, -, gives⟩ := gives_bind gives
      exact finish gives
    | some t =>
      obtain ⟨_, -, gives⟩ := gives_bind gives
      exact finish gives
  · obtain ⟨interfaces, -, gives⟩ := gives_bind gives
    exact ⟨d.parent, interfaces, gives_pure gives⟩

theorem head_withSupers {d d' : DeclSymbol} (gives : Gives (withSupers d) c d') :
    d'.nominal = d.nominal ∧ d'.params = d.params := by
  obtain ⟨parent, interfaces, rfl⟩ := gives_withSupers_shape gives
  exact ⟨rfl, rfl⟩

theorem withSupers_mirrors {d d' : DeclSymbol} (kin : Context.Kin W c c') (decls : d.Same W d') :
    Mirrors W c c' (withSupers d) (withSupers d') DeclSymbol.Same := by
  have kin := kin.inside decls
  have headings : d'.decl.heading = d.decl.heading := by rw [decls.decl]
  refine .inDecl ?_
  rw [headings]
  cases d.decl.heading with
  | ofClass isOpen parent interfaces =>
    have finish {W₁ : Pairing} (le₁ : W ≤ W₁) {found found' : Option (Nominal × List Ty)}
        (parents : Option.Rel (SuperAlike W₁) found found') :
        Mirrors W₁ (c.inside d) (c'.inside d')
          ((interfaces.mapM fun t => writtenInterface t (.badInterface d.name t.text)) >>= fun interfaces =>
            pure { d with parent := found, interfaces })
          ((interfaces.mapM fun t => writtenInterface t (.badInterface d'.name t.text)) >>= fun interfaces =>
            pure { d' with parent := found', interfaces })
          DeclSymbol.Same := by
      refine (writtenInterfaces_mirrors (kin.mono le₁) interfaces).bind fun _ _ _ le₂ supers => .pure ?_
      exact { decls.mono (le₁.trans le₂) with
        parent := optionRel_imp (fun _ _ supers => supers.mono le₂) parents
        interfaces := supers }
    cases parent with
    | none => exact finish le_rfl .none
    | some t =>
      exact (writtenClass_mirrors kin t).some.bind fun _ _ _ le₁ parents => finish le₁ parents
  | ofInterface parents =>
    refine (writtenInterfaces_mirrors kin parents).bind fun _ _ _ le supers => .pure ?_
    exact { decls.mono le with interfaces := supers }

/-! ## Members -/

theorem fieldSymbol_mirrors (kin : Context.Kin W c c') {owner owner' : Nominal} (owners : owner = owner') (f : Field) :
    Mirrors W c c' (fieldSymbol owner f) (fieldSymbol owner' f) fun W' => FieldSymbol.Alike W' fun _ => False := by
  unfold fieldSymbol
  cases f.type with
  | none => exact .pure ⟨rfl, owners, rfl, .inr .none⟩
  | some t =>
    exact (written_mirrors kin t).some.bind fun _ _ _ _ types => .pure ⟨rfl, owners, rfl, .inr types⟩

theorem paramSymbols_mirrors (kin : Context.Kin W c c') (afterDefault : Bool) (ps : List Param) :
    Mirrors W c c' (paramSymbols afterDefault ps) (paramSymbols afterDefault ps)
      fun W' => List.Forall₂ (ParamSymbol.Alike W') := by
  induction ps generalizing W afterDefault with
  | nil => exact .pure .nil
  | cons p ps ih =>
    refine (Mirrors.require rfl).bind fun _ _ _ le₁ _ => ?_
    refine (writtenOr_mirrors (kin.mono le₁) p.name.text p.type).bind fun _ _ _ le₂ types => ?_
    refine (ih (kin.mono (le₁.trans le₂)) _).bind fun _ _ _ le₃ params => ?_
    exact .pure (.cons ⟨rfl, rfl, types.mono le₃⟩ params)

theorem resultType_mirrors (kin : Context.Kin W c c') (m : Method) :
    Mirrors W c c' (resultType m) (resultType m) Ty.Alike := by
  unfold resultType
  cases m.result with
  | none => exact .pure rfl
  | some t => exact (Mirrors.require rfl).bind fun _ _ _ le _ => written_mirrors (kin.mono le) t

theorem methodSymbol_mirrors {d d' : DeclSymbol} (kin : Context.Kin W c c') (decls : d.Same W d') (m : Method) :
    Mirrors W c c' (methodSymbol d m) (methodSymbol d' m) MethodSymbol.Alike := by
  refine (Mirrors.require rfl).bind fun _ _ _ le₁ _ => ?_
  refine (Mirrors.require rfl).bind fun _ _ _ le₂ _ => ?_
  refine (Mirrors.mapM (R := (· = ·)) (Q := Paired) (fun _ _ _ _ le paired => paired.mono le) ?_
    (List.forall₂_refl m.typeParams)).bind fun W₃ vs vs' le₃ paired => .withReader ?_
  · rintro _ a _ _ rfl
    exact .freshVar a.text
  · have inner : Context.Kin W₃
        { c with typeParams := (vs.map fun v => (v.name, v)).reverse ++ c.typeParams }
        { c' with typeParams := (vs'.map fun v => (v.name, v)).reverse ++ c'.typeParams } :=
      ⟨kin.heads, (kin.typeParams.mono ((le₁.trans le₂).trans le₃)).extend paired⟩
    refine (paramSymbols_mirrors inner false m.params).bind fun _ _ _ le₄ params => ?_
    refine (resultType_mirrors (inner.mono le₄) m).bind fun _ _ _ le₅ result => ?_
    refine (Mirrors.require (by rw [decls.decl])).bind fun _ _ _ le₆ _ => .pure ?_
    exact {
      name := rfl
      owner := decls.nominal
      decl := rfl
      typeParams := paired.imp fun _ _ paired => paired.mono ((le₄.trans le₅).trans le₆)
      params := params.imp fun _ _ param => ⟨param.name, param.decl, param.type.mono (le₅.trans le₆)⟩
      result := result.mono le₆ }

theorem head_withMembers {d d' : DeclSymbol} (gives : Gives (withMembers d) c d') :
    d'.nominal = d.nominal ∧ d'.params = d.params := by
  have outlines := (gives_withMembers gives).1
  simp only [outline, DeclSymbol.mk.injEq] at outlines
  exact ⟨outlines.1, outlines.2.2.2.1⟩

theorem withMembers_mirrors {d d' : DeclSymbol} (kin : Context.Kin W c c') (decls : d.Same W d') :
    Mirrors W c c' (withMembers d) (withMembers d') DeclSymbol.Same := by
  have kin := kin.inside decls
  have fields : List.Forall₂ (· = ·) d.decl.fields d'.decl.fields := decls.decl ▸ List.forall₂_refl d.decl.fields
  have methods : List.Forall₂ (· = ·) d.decl.methods d'.decl.methods := decls.decl ▸ List.forall₂_refl d.decl.methods
  refine .inDecl ?_
  refine (Mirrors.mapM (Q := fun W' => FieldSymbol.Alike W' fun _ => False) (fun _ _ _ _ le field => field.mono le) ?_
    fields).bind fun _ _ _ le₁ fields => ?_
  · rintro _ f _ le rfl
    exact fieldSymbol_mirrors (kin.mono le) decls.nominal f
  · refine (Mirrors.mapM (Q := MethodSymbol.Alike) (fun _ _ _ _ le method => method.mono le) ?_ methods).bind
      fun _ _ _ le₂ methods => .pure ?_
    · rintro _ m _ le rfl
      have le := le₁.trans le
      exact methodSymbol_mirrors (kin.mono le) (decls.mono le) m
    · exact { decls.mono (le₁.trans le₂) with
        fields := fields.imp fun _ _ fields => fields.mono le₂
        methods := methods }

/-! ## Cycles -/

theorem returns_alike {B : String → Prop} {r r' : Registry} (alike : r.Alike W B r') (fuel : Nat) (path : List Nominal)
    (n : Nominal) : r.returns fuel path n = r'.returns fuel path n := by
  induction fuel generalizing path n with
  | zero => rfl
  | succ fuel ih =>
    unfold Registry.returns
    rcases optionRel_cases (alike.find n.name) with ⟨absent, absent'⟩ | ⟨d, d', found, found', decls⟩
    · rw [absent, absent']
    · rw [found, found']
      congr 1
      refine any_related (fun t t' types => ?_) decls.supers
      cases t with
      | ref m args =>
        obtain ⟨args', rfl, -⟩ := types
        exact ih (n :: path) m
      | nullable t => obtain ⟨t', rfl, -⟩ := types; rfl
      | var v => obtain ⟨v', rfl, -⟩ := types; rfl
      | function params result => obtain ⟨params', result', rfl, -⟩ := types; rfl
      | _ => cases types; rfl

theorem isCyclic_alike {B : String → Prop} {r r' : Registry} (alike : r.Alike W B r') {d d' : DeclSymbol}
    (decls : d.Alike W B d') : r.isCyclic d = r'.isCyclic d' := by
  unfold Registry.isCyclic
  rw [alike.length, decls.nominal]
  exact returns_alike alike _ [] _

/-! ## Superclasses first -/

theorem mem_names {r : Registry} {n : String} : n ∈ r.names ↔ r.find? n ≠ none := by
  rw [Registry.find?, Ne, List.find?_eq_none]
  simp [Registry.names]

/-- The same names are declared, in some order. -/
theorem names_perm {r r' : Registry} (same : r.Same W r') : r.names.Perm r'.names := by
  refine (List.perm_ext_iff_of_nodup same.distinct same.distinct').2 fun n => ?_
  rw [mem_names, mem_names]
  exact not_congr (optionRel_none_iff (same.find n))

theorem ancestorsFrom_names (r : Registry) (fuel : Nat) (seen : List String) (d : DeclSymbol) :
    ((r.ancestorsFrom fuel seen d).map (·.name)).Nodup ∧ ∀ e ∈ r.ancestorsFrom fuel seen d, e.name ∉ seen := by
  induction fuel generalizing seen d with
  | zero => exact ⟨List.nodup_nil, by simp [Registry.ancestorsFrom]⟩
  | succ fuel ih =>
    rw [Registry.ancestorsFrom_succ]
    split
    · simp
    · next unseen =>
      have unseen : d.name ∉ seen := by simpa using unseen
      cases d.parent.bind fun p => r.find? p.1.name with
      | none => simpa using unseen
      | some p =>
        obtain ⟨distinct, others⟩ := ih (d.name :: seen) p
        simp only [Option.elim_some, List.map_cons, List.nodup_cons, List.mem_cons, forall_eq_or_imp]
        refine ⟨⟨fun member => ?_, distinct⟩, unseen, fun e member known => ?_⟩
        · obtain ⟨e, within, same⟩ := List.mem_map.1 member
          exact others e within (same ▸ List.mem_cons_self)
        · exact others e member (List.mem_cons_of_mem _ known)

theorem mem_of_mem_ancestorsFrom {r : Registry} {fuel : Nat} {seen : List String} {d e : DeclSymbol} (known : d ∈ r)
    (member : e ∈ r.ancestorsFrom fuel seen d) : e ∈ r := by
  induction fuel generalizing seen d with
  | zero => cases member
  | succ fuel ih =>
    rw [Registry.ancestorsFrom_succ] at member
    split at member
    · cases member
    · rcases List.mem_cons.1 member with rfl | member
      · exact known
      · cases found : d.parent.bind fun p => r.find? p.1.name with
        | none =>
          rw [found] at member
          cases member
        | some p =>
          rw [found] at member
          obtain ⟨q, -, found⟩ := Option.bind_eq_some_iff.1 found
          exact ih (Registry.mem_of_find? found) member

/-- Superclasses first is an order of the names. -/
theorem parentsFirst_perm_names {r : Registry} (distinct : r.names.Nodup) : (parentsFirst r).Perm r.names := by
  obtain ⟨nodup, subset⟩ : (parentsFirst r).Nodup ∧ parentsFirst r ⊆ r.names := by
    refine List.foldlRecOn (motive := fun names => names.Nodup ∧ names ⊆ r.names) r _ ⟨List.nodup_nil, List.nil_subset _⟩
      fun names start d known => ⟨?_, ?_⟩
    · refine List.nodup_append.2 ⟨start.1, List.Nodup.filter _ ?_, ?_⟩
      · rw [List.map_reverse, List.nodup_reverse]
        exact (ancestorsFrom_names r _ [] d).1
      · rintro n member m more rfl
        simpa [member] using (List.mem_filter.1 more).2
    · refine List.append_subset.2 ⟨start.2, fun n more => ?_⟩
      obtain ⟨e, within, rfl⟩ := List.mem_map.1 (List.mem_filter.1 more).1
      exact List.mem_map_of_mem (mem_of_mem_ancestorsFrom known (List.mem_reverse.1 within))
  refine (List.perm_ext_iff_of_nodup nodup distinct).2 fun n => ⟨fun member => subset member, fun member => ?_⟩
  obtain ⟨d, within, rfl⟩ := List.mem_map.1 member
  exact mem_parentsFirst within

theorem parentsFirst_perm {r r' : Registry} (same : r.Same W r') : (parentsFirst r).Perm (parentsFirst r') :=
  ((parentsFirst_perm_names same.distinct).trans (names_perm same)).trans (parentsFirst_perm_names same.distinct').symm

end Typing

end ClassScript
