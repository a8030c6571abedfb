import Mathlib.Data.List.Nodup
import ClassScript.Proofs.Conduct
import ClassScript.Proofs.Gives

/-!
What is known of the declarations of an accepted program. The symbols that typing makes of them come in
their order, under distinct names; the supertypes that a heading names are declared and of the right kind;
no declaration inherits from itself; and the members are those that were written
(`describes_of_check`). Each phase of typing keeps what the phases before it have established, as it
replaces one symbol at a time by one of the same declaration.
-/

namespace ClassScript

open Evaluation (superclassName? interfaceNames headName)

/-- With distinct keys, an item is the one that is found under its key. -/
theorem find?_key {α : Type} {key : α → String} {items : List α} (distinct : (items.map key).Nodup) {a : α}
    (member : a ∈ items) : (items.find? fun b => key b == key a) = some a := by
  induction items with
  | nil => cases member
  | cons b items ih =>
    rw [List.map_cons, List.nodup_cons] at distinct
    rcases List.mem_cons.1 member with rfl | member
    · simp
    · have differs : key b ≠ key a := by
        intro same
        exact distinct.1 (same ▸ List.mem_map_of_mem member)
      rw [List.find?_cons_of_neg (by simpa using differs)]
      exact ih distinct.2 member

namespace Registry

variable {r : Registry} {name : String}

theorem find?_name {d : DeclSymbol} (found : r.find? name = some d) : d.name = name := by
  simpa using List.find?_some found

theorem mem_of_find? {d : DeclSymbol} (found : r.find? name = some d) : d ∈ r := List.mem_of_find?_eq_some found

/-- A declaration is found under its name, if no other has it. -/
theorem find?_of_mem (distinct : r.names.Nodup) {d : DeclSymbol} (member : d ∈ r) : r.find? d.name = some d :=
  find?_key distinct member

theorem find?_eq_some_iff (distinct : r.names.Nodup) {d : DeclSymbol} :
    r.find? name = some d ↔ d ∈ r ∧ d.name = name := by
  constructor
  · intro found
    exact ⟨mem_of_find? found, find?_name found⟩
  · rintro ⟨member, rfl⟩
    exact find?_of_mem distinct member

theorem mem_update {f : DeclSymbol → DeclSymbol} {e : DeclSymbol} :
    e ∈ r.update name f ↔ ∃ d ∈ r, (if d.name == name then f d else d) = e := by
  simp [update]

/-- A view of symbols that a change keeps is the same list of views afterwards. -/
theorem map_update {β : Type} {f : DeclSymbol → DeclSymbol} (view : DeclSymbol → β)
    (kept : ∀ d ∈ r, d.name = name → view (f d) = view d) : (r.update name f).map view = r.map view := by
  rw [update, List.map_map]
  refine List.map_congr_left fun d member => ?_
  by_cases same : d.name = name
  · simp [same, kept d member same]
  · simp [same]

end Registry

/-! ## What a registry says of a program -/

/-- The symbols are those of the declarations, in their order and under distinct names. -/
structure Registered (declarations : List (String × Declaration)) (r : Registry) : Prop where
  declared : r.map (fun d => (d.file, d.decl)) = declarations
  distinct : r.names.Nodup
  nominal : ∀ d ∈ r, d.nominal = ⟨d.decl.name.text, d.decl.isInterface⟩
  orphan : ∀ d ∈ r, d.decl.isInterface = true → d.parent = none

/-- The supertypes of a symbol are those that its heading names. -/
structure Headed (r : Registry) (d : DeclSymbol) : Prop where
  parent : d.parent.map (·.1) = (superclassName? d.decl).map fun n => ⟨n, false⟩
  interfaces : d.interfaces.map (·.1) = (interfaceNames d.decl).map fun n => ⟨n, true⟩
  known : ∀ n ∈ d.parent.toList.map (·.1) ++ d.interfaces.map (·.1), n ∈ r.map (·.nominal)

theorem Headed.of_nominals {r r' : Registry} {d : DeclSymbol} (headed : Headed r d)
    (same : r'.map (·.nominal) = r.map (·.nominal)) : Headed r' d :=
  ⟨headed.parent, headed.interfaces, fun n member => same ▸ headed.known n member⟩

theorem Registered.names {declarations : List (String × Declaration)} {r : Registry}
    (registered : Registered declarations r) : r.names = declarations.map fun d => d.2.name.text := by
  rw [← registered.declared, List.map_map]
  refine List.map_congr_left fun d member => ?_
  rw [DeclSymbol.name, registered.nominal d member]
  rfl

/-- The symbol of a method that was written in a declaration. -/
structure Symbolizes (owner : Nominal) (m : Method) (symbol : MethodSymbol) : Prop where
  decl : symbol.decl = m
  name : symbol.name = m.name.text
  params : symbol.params.map (·.decl) = m.params
  owner : symbol.owner = owner

/-- The symbol of a field that was written in a declaration. -/
structure SymbolizesField (owner : Nominal) (f : Field) (symbol : FieldSymbol) : Prop where
  decl : symbol.decl = f
  name : symbol.name = f.name.text
  owner : symbol.owner = owner

/-- The members of a symbol are those that were written. -/
structure Membered (d : DeclSymbol) : Prop where
  fields : List.Forall₂ (SymbolizesField d.nominal) d.decl.fields d.fields
  methods : List.Forall₂ (Symbolizes d.nominal) d.decl.methods d.methods

namespace Typing

variable {c : Context} {r : Registry} {declarations : List (String × Declaration)}

/-! ## Registration -/

theorem gives_register {file : String} {d : Declaration} {r' : Registry} (gives : Gives (register r file d) c r') :
    r.find? d.name.text = none ∧
      ∃ params, r' = r ++ [⟨⟨d.name.text, d.isInterface⟩, file, d, params, none, [], [], []⟩] := by
  obtain ⟨_, required, gives⟩ := gives_bind (gives_inFile gives)
  obtain ⟨params, -, gives⟩ := gives_bind gives
  exact ⟨Option.isNone_iff_eq_none.1 (gives_require required), params, gives_pure gives⟩

theorem registered_register {file : String} {d : Declaration} {r' : Registry} (registered : Registered declarations r)
    (gives : Gives (register r file d) c r') : Registered (declarations ++ [(file, d)]) r' := by
  obtain ⟨absent, params, rfl⟩ := gives_register gives
  constructor
  · rw [List.map_append, registered.declared]
    rfl
  · rw [Registry.names, List.map_append, List.nodup_append]
    refine ⟨registered.distinct, by simp, ?_⟩
    intro n member m last same
    obtain ⟨e, within, rfl⟩ := List.mem_map.1 member
    have named : e.name = d.name.text := by
      rw [same]
      simpa [DeclSymbol.name] using last
    rw [Registry.find?, List.find?_eq_none] at absent
    exact absent e within (by simpa using named)
  · intro e member
    rcases List.mem_append.1 member with member | member
    · exact registered.nominal e member
    · rw [List.mem_singleton.1 member]
  · intro e member isInterface
    rcases List.mem_append.1 member with member | member
    · exact registered.orphan e member isInterface
    · rw [List.mem_singleton.1 member]

/-! ## Replacing one symbol -/

theorem gives_replace {f : DeclSymbol → Analysis DeclSymbol} {name : String} {r' : Registry}
    (gives : Gives (replace f r name) c r') :
    (r.find? name = none ∧ r' = r) ∨
      ∃ d d', r.find? name = some d ∧ Gives (f d) { c with registry := r } d' ∧ r' = r.update name fun _ => d' := by
  unfold replace at gives
  split at gives
  · next absent => exact .inl ⟨absent, gives_pure gives⟩
  · next d found =>
    obtain ⟨d', inner, gives⟩ := gives_bind gives
    exact .inr ⟨d, d', found, gives_knowing inner, gives_pure gives⟩

/-- A symbol of the same declaration takes the place of another. -/
structure Succeeds (d d' : DeclSymbol) : Prop where
  nominal : d'.nominal = d.nominal
  file : d'.file = d.file
  decl : d'.decl = d.decl
  orphan : d.decl.isInterface = true → d'.parent = d.parent

theorem registered_update {name : String} {f : DeclSymbol → DeclSymbol} (registered : Registered declarations r)
    (succeeds : ∀ d ∈ r, d.name = name → Succeeds d (f d)) : Registered declarations (r.update name f) := by
  constructor
  · rw [Registry.map_update, registered.declared]
    intro d member same
    rw [(succeeds d member same).file, (succeeds d member same).decl]
  · rw [Registry.names, Registry.map_update]
    · exact registered.distinct
    · intro d member same
      exact congrArg Nominal.name (succeeds d member same).nominal
  · intro e member
    obtain ⟨d, within, rfl⟩ := Registry.mem_update.1 member
    split
    · next same =>
      have kept := succeeds d within (by simpa using same)
      rw [kept.nominal, kept.decl]
      exact registered.nominal d within
    · exact registered.nominal d within
  · intro e member
    obtain ⟨d, within, rfl⟩ := Registry.mem_update.1 member
    split
    · next same =>
      have kept := succeeds d within (by simpa using same)
      intro isInterface
      rw [kept.decl] at isInterface
      rw [kept.orphan isInterface]
      exact registered.orphan d within isInterface
    · exact registered.orphan d within

/-- With distinct names, the symbol that is found is the only one that is replaced. -/
theorem eq_of_find? (registered : Registered declarations r) {name : String} {d e : DeclSymbol}
    (found : r.find? name = some d) (member : e ∈ r) (same : e.name = name) : e = d :=
  Option.some.inj (((Registry.find?_eq_some_iff registered.distinct).2 ⟨member, same⟩).symm.trans found)

/-! ## Supertypes -/

/-- A written type that refers to a declaration refers to the one of the name it starts with. -/
theorem gives_written_ref {t : TypeExpr} {n : Nominal} {args : List Ty} (gives : Gives (written t) c (.ref n args)) :
    ∃ d, c.registry.find? (headName t) = some d ∧ n = d.nominal := by
  have byName {span : Span} {name : String} {args' : List Ty} {nullable : Bool}
      (gives : Gives (do return marked nullable (← named span name args')) c (.ref n args)) :
      ∃ d, c.registry.find? name = some d ∧ n = d.nominal := by
    obtain ⟨t, named, gives⟩ := gives_bind gives
    have result := gives_pure gives
    have notNull : t = .ref n args := by
      unfold marked at result
      split at result
      · unfold Ty.orNull at result
        split at result <;> cases result
      · exact result.symm
    subst notNull
    obtain ⟨c', isRead, named⟩ := gives_bind named
    obtain rfl := gives_read isRead
    split at named
    · obtain ⟨_, -, named⟩ := gives_bind named
      cases gives_pure named
    · split at named
      · next d found =>
        obtain ⟨_, -, named⟩ := gives_bind named
        cases gives_pure named
        exact ⟨d, found, rfl⟩
      · split at named
        · next t primitive =>
          obtain ⟨_, -, named⟩ := gives_bind named
          have same := gives_pure named
          subst same
          unfold primitive? at primitive
          split at primitive <;> cases primitive
        · obtain ⟨v, -, named⟩ := gives_bind named
          cases gives_pure named
  cases t with
  | simple m name nullable =>
    rw [written] at gives
    exact byName gives
  | generic m name args nullable =>
    rw [written] at gives
    obtain ⟨args', -, gives⟩ := gives_bind gives
    exact byName gives
  | function m params result nullable =>
    rw [written] at gives
    obtain ⟨params', -, gives⟩ := gives_bind gives
    obtain ⟨result', -, gives⟩ := gives_bind gives
    have result := gives_pure gives
    unfold marked at result
    split at result
    · unfold Ty.orNull at result
      split at result <;> cases result
    · cases result

private theorem known_ref {t : TypeExpr} {n : Nominal} {args : List Ty} (gives : Gives (written t) c (.ref n args)) :
    n.name = headName t ∧ n ∈ c.registry.map (·.nominal) := by
  obtain ⟨d, found, rfl⟩ := gives_written_ref gives
  exact ⟨Registry.find?_name found, List.mem_map_of_mem (Registry.mem_of_find? found)⟩

theorem gives_writtenClass {t : TypeExpr} {fault : TypeFault} {p : Nominal × List Ty}
    (gives : Gives (writtenClass t fault) c p) : p.1 = ⟨headName t, false⟩ ∧ p.1 ∈ c.registry.map (·.nominal) := by
  obtain ⟨t', inner, gives⟩ := gives_bind gives
  split at gives
  · next n args =>
    split at gives
    · exact absurd gives not_gives_reject
    · next isClass =>
      obtain ⟨named, known⟩ := known_ref inner
      rw [gives_pure gives]
      refine ⟨?_, known⟩
      rw [← named, ← Bool.eq_false_iff.2 isClass]
  · exact absurd gives not_gives_reject

theorem gives_writtenInterface {t : TypeExpr} {fault : TypeFault} {p : Nominal × List Ty}
    (gives : Gives (writtenInterface t fault) c p) : p.1 = ⟨headName t, true⟩ ∧ p.1 ∈ c.registry.map (·.nominal) := by
  obtain ⟨t', inner, gives⟩ := gives_bind gives
  split at gives
  · next n args =>
    split at gives
    · next isInterface =>
      obtain ⟨named, known⟩ := known_ref inner
      rw [gives_pure gives]
      refine ⟨?_, known⟩
      rw [← named, ← isInterface]
    · exact absurd gives not_gives_reject
  · exact absurd gives not_gives_reject

theorem gives_writtenInterfaces {types : List TypeExpr} {fault : TypeExpr → TypeFault} {ps : List (Nominal × List Ty)}
    (gives : Gives (types.mapM fun t => writtenInterface t (fault t)) c ps) :
    ps.map (·.1) = (types.map headName).map (fun n => ⟨n, true⟩) ∧ ∀ n ∈ ps.map (·.1), n ∈ c.registry.map (·.nominal) := by
  have each := gives_mapM gives
  clear gives
  induction each with
  | nil => simp
  | cons first _ ih =>
    obtain ⟨same, known⟩ := gives_writtenInterface first
    simp only [List.map_cons, List.mem_cons, forall_eq_or_imp]
    exact ⟨by rw [same, ih.1], known, ih.2⟩

/-- The supertypes that are found are those of the heading. -/
theorem gives_withSupers {d d' : DeclSymbol} (orphan : d.decl.isInterface = true → d.parent = none)
    (gives : Gives (withSupers d) c d') : Succeeds d d' ∧ Headed c.registry d' := by
  change Gives _ { c with file := d.file, typeParams := _ } d' at gives
  split at gives
  · next isOpen parent interfaces heading =>
    have isClass : d.decl.isInterface = false := by rw [Declaration.isInterface, heading]
    have finish {c' : Context} (found : Option (Nominal × List Ty))
        (written : found.map (·.1) = (parent.map headName).map fun n => ⟨n, false⟩)
        (known : ∀ p ∈ found, p.1 ∈ c.registry.map (·.nominal))
        (gives : Gives (do
          let interfaces ← interfaces.mapM fun t => writtenInterface t (.badInterface d.name t.text)
          pure { d with parent := found, interfaces }) c' d') (same : c'.registry = c.registry) :
        Succeeds d d' ∧ Headed c.registry d' := by
      obtain ⟨interfaces', interfacesGive, gives⟩ := gives_bind gives
      obtain rfl := gives_pure gives
      have all := gives_writtenInterfaces interfacesGive
      rw [same] at all
      refine ⟨⟨rfl, rfl, rfl, fun isInterface => by rw [isClass] at isInterface; cases isInterface⟩, ?_, ?_, ?_⟩
      · rw [superclassName?, heading]
        cases parent <;> exact written
      · rw [interfaceNames, heading]
        exact all.1
      · intro n member
        rcases List.mem_append.1 member with member | member
        · obtain ⟨p, within, rfl⟩ := List.mem_map.1 member
          exact known p (Option.mem_toList.1 within)
        · exact all.2 n member
    cases parent with
    | none =>
      obtain ⟨found, isNone, gives⟩ := gives_bind gives
      obtain rfl := gives_pure isNone
      exact finish none rfl (by simp) gives rfl
    | some t =>
      obtain ⟨found, isSome, gives⟩ := gives_bind gives
      obtain ⟨p, inner, rfl⟩ := gives_map isSome
      obtain ⟨same, known⟩ := gives_writtenClass inner
      exact finish (some p) (by simp [same]) (by simpa using known) gives rfl
  · next parents heading =>
    obtain ⟨interfaces', interfacesGive, gives⟩ := gives_bind gives
    obtain rfl := gives_pure gives
    have interfaces := gives_writtenInterfaces interfacesGive
    have isInterface : d.decl.isInterface = true := by rw [Declaration.isInterface, heading]
    refine ⟨⟨rfl, rfl, rfl, fun _ => rfl⟩, ?_, ?_, ?_⟩
    · rw [superclassName?, heading, orphan isInterface]
      rfl
    · rw [interfaceNames, heading]
      exact interfaces.1
    · rw [orphan isInterface]
      simpa using interfaces.2

/-- Each step of the second phase gives one symbol its supertypes. -/
theorem headed_step {done : List String} {name : String} {r' : Registry}
    (before : Registered declarations r ∧ ∀ d ∈ r, d.name ∈ done → Headed r d)
    (gives : Gives (replace withSupers r name) c r') :
    Registered declarations r' ∧ ∀ d ∈ r', d.name ∈ done ++ [name] → Headed r' d := by
  obtain ⟨registered, headed⟩ := before
  rcases gives_replace gives with ⟨absent, rfl⟩ | ⟨d, d', found, inner, rfl⟩
  · refine ⟨registered, fun d member named => headed d member ?_⟩
    rcases List.mem_append.1 named with named | named
    · exact named
    · rw [Registry.find?, List.find?_eq_none] at absent
      exact absurd (by simpa using named) (absent d member)
  · obtain ⟨succeeds, supers⟩ := gives_withSupers (registered.orphan d (Registry.mem_of_find? found)) inner
    have only : ∀ e ∈ r, e.name = name → Succeeds e d' := by
      intro e member same
      rw [eq_of_find? registered found member same]
      exact succeeds
    have nominals : (r.update name fun _ => d').map (·.nominal) = r.map (·.nominal) :=
      Registry.map_update _ fun e member same => (only e member same).nominal
    refine ⟨registered_update registered only, fun e member named => ?_⟩
    obtain ⟨e', within, rfl⟩ := Registry.mem_update.1 member
    split
    · exact supers.of_nominals nominals
    · next differs =>
      rw [if_neg differs] at named
      refine (headed e' within ?_).of_nominals nominals
      rcases List.mem_append.1 named with named | named
      · exact named
      · exact absurd (by simpa using named) differs

/-! ## Outlines -/

/-- A symbol without its members. -/
def outline (d : DeclSymbol) : DeclSymbol := { d with fields := [], methods := [] }

theorem outline_inj {d e : DeclSymbol} (same : outline d = outline e) :
    d.nominal = e.nominal ∧ d.file = e.file ∧ d.decl = e.decl ∧ d.parent = e.parent ∧ d.interfaces = e.interfaces := by
  simp only [outline, DeclSymbol.mk.injEq] at same
  obtain ⟨nominal, file, decl, -, parent, interfaces, -⟩ := same
  exact ⟨nominal, file, decl, parent, interfaces⟩

theorem succeeds_of_outline {d e : DeclSymbol} (same : outline e = outline d) : Succeeds d e := by
  obtain ⟨nominal, file, decl, parent, -⟩ := outline_inj same
  exact ⟨nominal, file, decl, fun _ => parent⟩

/-- Registries with the same outlines find the same outlines. -/
theorem find?_outline {r r' : Registry} (same : r'.map outline = r.map outline) (name : String) :
    (r'.find? name).map outline = (r.find? name).map outline := by
  have viewed (r : Registry) : (r.find? name).map outline = (r.map outline).find? fun d => d.name == name := by
    rw [List.find?_map]
    rfl
  rw [viewed, viewed, same]

theorem returns_outline {r r' : Registry} (same : r'.map outline = r.map outline) (fuel : Nat) (path : List Nominal)
    (n : Nominal) : r'.returns fuel path n = r.returns fuel path n := by
  induction fuel generalizing path n with
  | zero => rfl
  | succ fuel ih =>
    have found := find?_outline same n.name
    unfold Registry.returns
    cases there : r.find? n.name with
    | none =>
      rw [there] at found
      rw [Option.map_eq_none_iff.1 found]
    | some d =>
      rw [there] at found
      obtain ⟨d', there', outlines⟩ := Option.map_eq_some_iff.1 found
      obtain ⟨-, -, -, parent, interfaces⟩ := outline_inj outlines
      have supers : d'.supers = d.supers := by rw [DeclSymbol.supers, DeclSymbol.supers, parent, interfaces]
      rw [there']
      simp only [supers, ih]

/-! ## Members -/

theorem gives_paramSymbols {afterDefault : Bool} {params : List Param} {ps : List ParamSymbol}
    (gives : Gives (paramSymbols afterDefault params) c ps) : ps.map (·.decl) = params := by
  induction params generalizing afterDefault ps with
  | nil =>
    rw [gives_pure gives]
    rfl
  | cons p params ih =>
    obtain ⟨_, -, gives⟩ := gives_bind gives
    obtain ⟨t, -, gives⟩ := gives_bind gives
    obtain ⟨rest, restGives, gives⟩ := gives_bind gives
    rw [gives_pure gives, List.map_cons, ih restGives]

theorem gives_methodSymbol {d : DeclSymbol} {m : Method} {symbol : MethodSymbol}
    (gives : Gives (methodSymbol d m) c symbol) : Symbolizes d.nominal m symbol := by
  obtain ⟨_, -, gives⟩ := gives_bind gives
  obtain ⟨_, -, gives⟩ := gives_bind gives
  obtain ⟨typeParams, -, gives⟩ := gives_bind gives
  obtain ⟨params, paramsGive, gives⟩ := gives_bind (gives_withReader gives)
  obtain ⟨result, -, gives⟩ := gives_bind gives
  obtain ⟨_, -, gives⟩ := gives_bind gives
  rw [gives_pure gives]
  exact ⟨rfl, rfl, gives_paramSymbols paramsGive, rfl⟩

theorem gives_fieldSymbol {owner : Nominal} {f : Field} {symbol : FieldSymbol}
    (gives : Gives (fieldSymbol owner f) c symbol) :
    SymbolizesField owner f symbol ∧ (symbol.type = none → f.type = none) := by
  unfold fieldSymbol at gives
  cases written : f.type with
  | none =>
    rw [written] at gives
    obtain ⟨_, -, gives⟩ := gives_bind gives
    rw [gives_pure gives]
    exact ⟨⟨rfl, rfl, rfl⟩, fun _ => rfl⟩
  | some t =>
    rw [written] at gives
    obtain ⟨type, found, gives⟩ := gives_bind gives
    obtain ⟨t, -, rfl⟩ := gives_map found
    rw [gives_pure gives]
    exact ⟨⟨rfl, rfl, rfl⟩, by simp⟩

theorem gives_withMembers {d d' : DeclSymbol} (gives : Gives (withMembers d) c d') :
    outline d' = outline d ∧ Membered d' := by
  obtain ⟨fields, fieldsGive, gives⟩ := gives_bind (gives_withReader (gives_inFile gives))
  obtain ⟨methods, methodsGive, gives⟩ := gives_bind gives
  obtain rfl := gives_pure gives
  exact ⟨rfl, (gives_mapM fieldsGive).imp fun _ _ gives => (gives_fieldSymbol gives).1,
    (gives_mapM methodsGive).imp fun _ _ gives => gives_methodSymbol gives⟩

/-- A symbol with other members takes the place of the one of that name. -/
theorem update_outline {name : String} {d d' : DeclSymbol} (registered : Registered declarations r)
    (found : r.find? name = some d) (same : outline d' = outline d) :
    Registered declarations (r.update name fun _ => d') ∧ (r.update name fun _ => d').map outline = r.map outline := by
  have only : ∀ e ∈ r, e.name = name → outline d' = outline e := by
    intro e member named
    rw [eq_of_find? registered found member named]
    exact same
  exact ⟨registered_update registered fun e member named => succeeds_of_outline (only e member named),
    Registry.map_update _ only⟩

/-- What the later phases keep of the registry `r₀`: its outlines. -/
structure Fills (declarations : List (String × Declaration)) (r₀ r : Registry) : Prop where
  registered : Registered declarations r
  outlines : r.map outline = r₀.map outline

/-- Each step of the fourth phase gives one symbol its members. -/
theorem membered_step {r₀ r' : Registry} {done : List String} {name : String}
    (before : Fills declarations r₀ r ∧ ∀ d ∈ r, d.name ∈ done → Membered d)
    (gives : Gives (replace withMembers r name) c r') :
    Fills declarations r₀ r' ∧ ∀ d ∈ r', d.name ∈ done ++ [name] → Membered d := by
  obtain ⟨fills, membered⟩ := before
  rcases gives_replace gives with ⟨absent, rfl⟩ | ⟨d, d', found, inner, rfl⟩
  · refine ⟨fills, fun d member named => membered d member ?_⟩
    rcases List.mem_append.1 named with named | named
    · exact named
    · rw [Registry.find?, List.find?_eq_none] at absent
      exact absurd (by simpa using named) (absent d member)
  · obtain ⟨same, members⟩ := gives_withMembers inner
    obtain ⟨registered, outlines⟩ := update_outline fills.registered found same
    refine ⟨⟨registered, outlines.trans fills.outlines⟩, fun e member named => ?_⟩
    obtain ⟨e', within, rfl⟩ := Registry.mem_update.1 member
    split
    · exact members
    · next differs =>
      rw [if_neg differs] at named
      refine membered e' within ?_
      rcases List.mem_append.1 named with named | named
      · exact named
      · exact absurd (by simpa using named) differs

/-! ## Initial and default values -/

theorem gives_settleParam {d : DeclSymbol} {p p' : ParamSymbol} (gives : Gives (settleParam d p) c p') :
    p'.decl = p.decl := by
  unfold settleParam at gives
  split at gives
  · rw [gives_pure gives]
  · obtain ⟨t, -, gives⟩ := gives_bind gives
    obtain ⟨_, -, gives⟩ := gives_bind gives
    rw [gives_pure gives]

theorem gives_settleMethod {d : DeclSymbol} {owner : Nominal} {m : Method} {symbol symbol' : MethodSymbol}
    (symbolizes : Symbolizes owner m symbol) (gives : Gives (settleMethod d symbol) c symbol') :
    Symbolizes owner m symbol' := by
  obtain ⟨params, paramsGive, gives⟩ := gives_bind (gives_withReader gives)
  rw [gives_pure gives]
  refine ⟨symbolizes.decl, symbolizes.name, ?_, symbolizes.owner⟩
  rw [← symbolizes.params]
  have each := gives_mapM paramsGive
  clear gives paramsGive symbolizes
  show params.map (·.decl) = symbol.params.map (·.decl)
  generalize symbol.params = before at each ⊢
  induction each with
  | nil => rfl
  | cons first _ ih => rw [List.map_cons, List.map_cons, gives_settleParam first, ih]

private theorem symbolizes_settled {d : DeclSymbol} {owner : Nominal} {written : List Method}
    {symbols methods : List MethodSymbol} (symbolize : List.Forall₂ (Symbolizes owner) written symbols)
    (gives : Gives (symbols.mapM (settleMethod d)) c methods) : List.Forall₂ (Symbolizes owner) written methods := by
  have each := gives_mapM gives
  clear gives
  induction symbolize generalizing methods with
  | nil =>
    cases each
    exact .nil
  | cons first _ ih =>
    cases each with
    | cons settled rest => exact .cons (gives_settleMethod first settled) (ih rest)

/-- A field keeps its declaration when its type is settled. -/
theorem membered_settleType {d : DeclSymbol} (membered : Membered d) (name : String) (t : Ty) :
    Membered { d with fields := d.fields.map fun g => if g.name == name then { g with type := some t } else g } := by
  refine ⟨List.forall₂_map_right_iff.2 (membered.fields.imp fun f g symbolizes => ?_), membered.methods⟩
  split
  · exact ⟨symbolizes.decl, symbolizes.name, symbolizes.owner⟩
  · exact symbolizes

/-- Outlines and members stay what they are when the type of a field is settled. -/
theorem fills_settleField {r₀ : Registry} (before : Fills declarations r₀ r ∧ ∀ d ∈ r, Membered d)
    (name fieldName : String) (t : Ty) :
    let settled := r.update name fun d =>
      { d with fields := d.fields.map fun g => if g.name == fieldName then { g with type := some t } else g }
    Fills declarations r₀ settled ∧ ∀ d ∈ settled, Membered d := by
  refine ⟨⟨?_, ?_⟩, ?_⟩
  · exact registered_update before.1.registered fun d _ _ => ⟨rfl, rfl, rfl, fun _ => rfl⟩
  · exact (Registry.map_update _ fun _ _ _ => by rfl).trans before.1.outlines
  · intro e member
    obtain ⟨d, within, rfl⟩ := Registry.mem_update.1 member
    split
    · exact membered_settleType (before.2 d within) fieldName t
    · exact before.2 d within

theorem fills_settleFields {r₀ r' : Registry} {name : String} {fields : List FieldSymbol}
    (before : Fills declarations r₀ r ∧ ∀ d ∈ r, Membered d) (gives : Gives (settleFields name fields r) c r') :
    Fills declarations r₀ r' ∧ ∀ d ∈ r', Membered d := by
  induction fields generalizing r with
  | nil =>
    rw [gives_pure gives]
    exact before
  | cons f fields ih =>
    unfold settleFields at gives
    split at gives
    · obtain ⟨t, -, gives⟩ := gives_bind gives
      exact ih (fills_settleField before name f.name t) gives
    · exact ih before gives

theorem fills_settle {r₀ r' : Registry} {name : String} (before : Fills declarations r₀ r ∧ ∀ d ∈ r, Membered d)
    (gives : Gives (settle r name) c r') : Fills declarations r₀ r' ∧ ∀ d ∈ r', Membered d := by
  unfold settle at gives
  split at gives
  · rw [gives_pure gives]
    exact before
  · obtain ⟨r₁, fieldsGive, gives⟩ := gives_bind gives
    have settled := fills_settleFields before fieldsGive
    split at gives
    · rw [gives_pure gives]
      exact settled
    · next d found =>
      obtain ⟨methods, methodsGive, gives⟩ := gives_bind gives
      obtain rfl := gives_pure gives
      have member := Registry.mem_of_find? found
      have methods := symbolizes_settled (settled.2 d member).methods (gives_withReader (gives_inFile (gives_knowing methodsGive)))
      refine ⟨⟨?_, ?_⟩, ?_⟩
      · exact registered_update settled.1.registered fun d _ _ => ⟨rfl, rfl, rfl, fun _ => rfl⟩
      · exact (Registry.map_update _ fun _ _ _ => by rfl).trans settled.1.outlines
      · intro e there
        obtain ⟨e', within, rfl⟩ := Registry.mem_update.1 there
        split
        · next same =>
          have only := eq_of_find? settled.1.registered found within (by simpa using same)
          subst only
          exact ⟨(settled.2 e' member).fields, methods⟩
        · exact settled.2 e' within

/-! ## All phases -/

/-- Every name is among those that come superclasses first. -/
theorem mem_parentsFirst {d : DeclSymbol} (member : d ∈ r) : d.name ∈ parentsFirst r := by
  have grows (rest : Registry) (names : List String) (n : String) (start : n ∈ names ∨ ∃ e ∈ rest, e.name = n) :
      n ∈ rest.foldl (fun names d =>
        names ++ ((r.ancestors d).reverse.map (·.name)).filter fun n => !names.contains n) names := by
    induction rest generalizing names with
    | nil => simpa using start
    | cons e rest ih =>
      rw [List.foldl_cons]
      refine ih _ ?_
      rcases start with known | ⟨e', within, rfl⟩
      · exact .inl (List.mem_append_left _ known)
      · rcases List.mem_cons.1 within with rfl | within
        · by_cases known : e'.name ∈ names
          · exact .inl (List.mem_append_left _ known)
          · refine .inl (List.mem_append_right _ (List.mem_filter.2 ⟨?_, by simpa using known⟩))
            have self : e' ∈ r.ancestors e' := by
              unfold Registry.ancestors Registry.ancestorsFrom
              simp only [List.contains_nil, Bool.false_eq_true, if_false]
              split <;> simp
            exact List.mem_map_of_mem (List.mem_reverse.2 self)
        · exact .inr ⟨e', within, rfl⟩
  exact grows r [] d.name (.inr ⟨d, member, rfl⟩)

variable {p : LinkedProgram}

/-- The first phase registers the declarations. -/
theorem registered_of_register {r : Registry}
    (gives : Gives (p.declarations.foldlM (fun r (file, d) => register r file d) []) c r) : Registered p.declarations r := by
  have start : Registered [] ([] : Registry) := ⟨rfl, List.nodup_nil, by simp, by simp⟩
  exact gives_foldlM (I := fun done r => Registered done r)
    (fun done a r r' before gives => registered_register before gives) [] gives start

/-- The second phase finds the supertypes of the headings. -/
theorem headed_of_withSupers {r₁ r₂ : Registry} (registered : Registered p.declarations r₁)
    (gives : Gives (r₁.names.foldlM (replace withSupers) r₁) c r₂) :
    Registered p.declarations r₂ ∧ ∀ d ∈ r₂, Headed r₂ d := by
  have all : Registered p.declarations r₂ ∧ ∀ d ∈ r₂, d.name ∈ r₁.names → Headed r₂ d :=
    gives_foldlM (I := fun done r => Registered p.declarations r ∧ ∀ d ∈ r, d.name ∈ done → Headed r d)
      (fun done a r r' before gives => headed_step before gives) [] gives ⟨registered, by simp⟩
  refine ⟨all.1, fun d member => all.2 d member ?_⟩
  rw [registered.names, ← all.1.names]
  exact List.mem_map_of_mem member

/-- The fourth phase adds the members that were written. -/
theorem membered_of_withMembers {r₂ r₃ : Registry} (registered : Registered p.declarations r₂)
    (gives : Gives ((parentsFirst r₂).foldlM (replace withMembers) r₂) c r₃) :
    Fills p.declarations r₂ r₃ ∧ ∀ d ∈ r₃, Membered d := by
  have filled : Fills p.declarations r₂ r₃ ∧ ∀ d ∈ r₃, d.name ∈ parentsFirst r₂ → Membered d :=
    gives_foldlM (I := fun done r => Fills p.declarations r₂ r ∧ ∀ d ∈ r, d.name ∈ done → Membered d)
      (fun done a r r' before gives => membered_step before gives) [] gives ⟨⟨registered, rfl⟩, by simp⟩
  refine ⟨filled.1, fun d member => filled.2 d member ?_⟩
  have named : d.name ∈ r₂.names := by
    rw [registered.names, ← filled.1.registered.names]
    exact List.mem_map_of_mem member
  obtain ⟨e, within, same⟩ := List.mem_map.1 named
  rw [← same]
  exact mem_parentsFirst within

/-- A symbol with the outline of one that has the supertypes of its heading has them too. -/
theorem Fills.headed {r₂ r : Registry} (fills : Fills p.declarations r₂ r) (headed : ∀ d ∈ r₂, Headed r₂ d) :
    ∀ d ∈ r, Headed r d := by
  intro d member
  have viewed : outline d ∈ r.map outline := List.mem_map_of_mem member
  rw [fills.outlines] at viewed
  obtain ⟨e, within, same⟩ := List.mem_map.1 viewed
  obtain ⟨-, -, decl, parent, interfaces⟩ := outline_inj same
  have nominals : r.map (·.nominal) = r₂.map (·.nominal) := by
    have := congrArg (List.map DeclSymbol.nominal) fills.outlines
    simpa [List.map_map, Function.comp_def, outline] using this
  have supers := (headed e within).of_nominals nominals
  constructor
  · rw [← parent, ← decl]; exact supers.parent
  · rw [← interfaces, ← decl]; exact supers.interfaces
  · rw [← parent, ← interfaces]; exact supers.known

end Typing

/-- What is known of the declarations of an accepted program. -/
structure Registry.Describes (r : Registry) (p : LinkedProgram) : Prop where
  registered : Registered p.declarations r
  headed : ∀ d ∈ r, Headed r d
  acyclic : ∀ d ∈ r, r.isCyclic d = false
  membered : ∀ d ∈ r, Membered d

open Typing in
/-- The declarations of an accepted program are described by the symbols that typing makes of them. -/
theorem describes_of_declare {p : LinkedProgram} {c : Context} {r : Registry} (gives : Gives (declare p) c r) :
    r.Describes p := by
  obtain ⟨r₁, names, gives⟩ := gives_bind gives
  obtain ⟨r₂, supers, gives⟩ := gives_bind gives
  obtain ⟨_, acyclic, gives⟩ := gives_bind gives
  obtain ⟨r₃, members, values⟩ := gives_bind gives
  obtain ⟨registered, headed⟩ := headed_of_withSupers (registered_of_register names) supers
  obtain ⟨⟨registered', outlines⟩, membered⟩ : Fills p.declarations r₂ r ∧ ∀ d ∈ r, Membered d :=
    gives_foldlM_keeps (I := fun r => Fills p.declarations r₂ r ∧ ∀ d ∈ r, Membered d)
      (fun a r r' before gives => fills_settle before gives) values (membered_of_withMembers registered members)
  refine ⟨registered', Fills.headed ⟨registered', outlines⟩ headed, fun d member => ?_, membered⟩
  have viewed : outline d ∈ r.map outline := List.mem_map_of_mem member
  rw [outlines] at viewed
  obtain ⟨e, within, same⟩ := List.mem_map.1 viewed
  have required := gives_require (gives_inFile (gives_forM acyclic e within))
  have length : r.length = r₂.length := by simpa using congrArg List.length outlines
  rw [Registry.isCyclic, length, returns_outline outlines, ← (outline_inj same).1]
  simpa [Registry.isCyclic] using required

/-- The registry of an accepted program is what its declarations give. -/
theorem declares_of_check {p : LinkedProgram} {c : Checked} (accepted : p.check = .ok c) :
    Typing.Gives (Typing.declare p) ⟨[], p.file, [], .void⟩ c.registry := by
  unfold LinkedProgram.check at accepted
  split at accepted
  · cases accepted
  · next registry progress ran =>
    obtain rfl := Except.ok.inj accepted
    have gives : Typing.Gives (Typing.checkProgram p) ⟨[], p.file, [], .void⟩ registry := ⟨_, _, ran⟩
    obtain ⟨r, declares, gives⟩ := Typing.gives_bind gives
    obtain ⟨_, -, gives⟩ := Typing.gives_bind gives
    obtain rfl := Typing.gives_pure gives
    exact declares

/-- An accepted program is described by its registry. -/
theorem describes_of_check {p : LinkedProgram} {c : Checked} (accepted : p.check = .ok c) :
    c.registry.Describes p := describes_of_declare (declares_of_check accepted)

/-! ## The world of an accepted program -/

namespace Evaluation

variable {p : LinkedProgram} {r : Registry} {clock : Float} {file : String} {decl : Declaration}

theorem declaration?_of_mem (registered : Registered p.declarations r) (member : (file, decl) ∈ p.declarations) :
    (World.ofProgram p clock).declaration? decl.name.text = some (file, decl) := by
  have distinct : (p.declarations.reverse.map fun d => d.2.name.text).Nodup := by
    rw [List.map_reverse, List.nodup_reverse, ← registered.names]
    exact registered.distinct
  exact find?_key distinct (List.mem_reverse.2 member)

theorem class?_of_mem (registered : Registered p.declarations r) (member : (file, decl) ∈ p.declarations)
    (isClass : decl.isInterface = false) :
    (World.ofProgram p clock).class? decl.name.text = some (file, decl) := by
  rw [World.class?, declaration?_of_mem registered member]
  simp [isClass]

theorem interface?_of_mem (registered : Registered p.declarations r) (member : (file, decl) ∈ p.declarations)
    (isInterface : decl.isInterface = true) :
    (World.ofProgram p clock).interface? decl.name.text = some decl := by
  rw [World.interface?, declaration?_of_mem registered member]
  simp [isInterface]

/-- A supertype of a symbol is declared. -/
private theorem declared_super (describes : r.Describes p) {n : Nominal} (known : n ∈ r.map (·.nominal)) :
    ∃ file decl, (file, decl) ∈ p.declarations ∧ n = ⟨decl.name.text, decl.isInterface⟩ := by
  obtain ⟨e, member, rfl⟩ := List.mem_map.1 known
  refine ⟨e.file, e.decl, ?_, describes.registered.nominal e member⟩
  rw [← describes.registered.declared]
  exact List.mem_map_of_mem member

/-- The supertypes that the declarations of an accepted program name are there. -/
theorem linked_of_describes (describes : r.Describes p) : (World.ofProgram p clock).Linked := by
  have symbol (d : String × Declaration) (member : d ∈ p.declarations) : ∃ e ∈ r, e.decl = d.2 := by
    rw [← describes.registered.declared] at member
    obtain ⟨e, within, rfl⟩ := List.mem_map.1 member
    exact ⟨e, within, rfl⟩
  constructor
  · intro d member
    exact List.mem_reverse.1 member
  · intro d member name written
    obtain ⟨e, within, same⟩ := symbol d (List.mem_reverse.1 member)
    have headed := describes.headed e within
    have parent := headed.parent
    rw [same, written, Option.map_some] at parent
    obtain ⟨q, isParent, nominal⟩ := Option.map_eq_some_iff.1 parent
    obtain ⟨file, decl, declared, split⟩ := declared_super describes (headed.known q.1 (by simp [isParent]))
    obtain ⟨rfl, isClass⟩ := Nominal.mk.inj (nominal.symm.trans split)
    rw [class?_of_mem describes.registered declared isClass.symm]
    rfl
  · intro d member name written
    obtain ⟨e, within, same⟩ := symbol d (List.mem_reverse.1 member)
    have headed := describes.headed e within
    have extended : (⟨name, true⟩ : Nominal) ∈ e.interfaces.map (·.1) := by
      rw [headed.interfaces, same]
      exact List.mem_map_of_mem written
    obtain ⟨file, decl, declared, split⟩ := declared_super describes
      (headed.known _ (List.mem_append_right _ extended))
    obtain ⟨rfl, isInterface⟩ := Nominal.mk.inj split
    rw [interface?_of_mem describes.registered declared isInterface.symm]
    rfl

end Evaluation

end ClassScript
