import ClassScript.Proofs.Conduct

/-!
Building of classes and interfaces. An interface is complete once it is built (`buildInterface_run`). While
a class is being built the state is orderly at every point where other code runs (`Amid`), so building one
conducts itself as well as the evaluator that is called for initial values (`classOf_conducts`).
-/

namespace ClassScript.Evaluation

variable {α β : Type} {w : World} {s₀ s st : State} {file : String} {k : Evaluator}

/-- An evaluator ends every evaluation as it should, of code that may run in the file. -/
structure Evaluator.Conducted (w : World) (k : Evaluator) : Prop where
  eval {s₀ : State} {file : String} {e : Expr} {scope : ScopeId} :
    w.program.Sanctions file e.sites → Conducts w s₀ file (k.eval e scope) Anything
  exec {s₀ : State} {file : String} {s : Stmt} {scope : ScopeId} :
    w.program.Sanctions file s.sites → Conducts w s₀ file (k.exec s scope) Anything
  callValue {s₀ : State} {file : String} {f : Value} {args : List Value} {span : Span} :
    w.program.Excuses file span → Conducts w s₀ file (k.callValue f args span) Anything
  classOf {s₀ : State} {file name : String} {span : Span} :
    (w.class? name).isSome ∨ w.program.Excuses file span →
      Conducts w s₀ file (k.classOf name span) fun s id => s.Names id name
  iterate {s₀ : State} {file : String} {it : Iteration} :
    w.program.Sanctions file it.body.sites → w.program.Excuses file it.span →
      Conducts w s₀ file (k.iterate it) Anything

/-! ## Code of declarations -/

private theorem declaration_of_find {name : String} {d : String × Declaration} (linked : w.Linked)
    (found : w.declaration? name = some d) :
    ∃ placed ∈ w.program.statements, placed.file = d.1 ∧ placed.statement = .declares d.2 := by
  have member := linked.declared d (List.mem_of_find?_eq_some found)
  obtain ⟨placed, within, declares⟩ := List.mem_filterMap.1 member
  split at declares
  · next decl same =>
    cases declares
    exact ⟨placed, within, rfl, same⟩
  · cases declares

/-- The members of a class run in its file. -/
theorem sanctions_class {name : String} {decl : Declaration} (linked : w.Linked)
    (found : w.class? name = some (file, decl)) :
    w.program.Sanctions file (Field.sitesAll decl.fields ++ Method.sitesAll decl.methods) := by
  obtain ⟨found, isClass⟩ := Option.filter_eq_some_iff.1 found
  obtain ⟨placed, member, rfl, same⟩ := declaration_of_find linked found
  intro site within f home
  refine ⟨placed, member, site, ?_, rfl, fun stays => (home stays).symm⟩
  obtain ⟨mark, annotations, heading, declName, typeParams, fields, methods⟩ := decl
  cases heading with
  | ofClass isOpen parent interfaces =>
    rw [same, Stmt.sites]
    exact List.mem_cons_of_mem _ within
  | ofInterface parents => simp [Declaration.isInterface] at isClass

/-- The members of an interface run in any file. -/
theorem sanctions_interface {name : String} {decl : Declaration} (linked : w.Linked)
    (found : w.interface? name = some decl) (file : String) :
    w.program.Sanctions file (Field.sitesAll decl.fields ++ Method.sitesAll decl.methods) := by
  obtain ⟨d, filtered, rfl⟩ := Option.map_eq_some_iff.1 found
  obtain ⟨found, isInterface⟩ := Option.filter_eq_some_iff.1 filtered
  obtain ⟨placed, member, -, same⟩ := declaration_of_find linked found
  obtain ⟨home, ⟨mark, annotations, heading, declName, typeParams, fields, methods⟩⟩ := d
  intro site within f _
  cases heading with
  | ofClass isOpen parent interfaces => simp [Declaration.isInterface] at isInterface
  | ofInterface parents =>
    refine ⟨placed, member, site.carry, ?_, rfl, fun stays => by simp [Site.carry] at stays⟩
    rw [same, Stmt.sites]
    exact List.mem_cons_of_mem _ (List.mem_map_of_mem within)

/-! ## Interfaces -/

/-- The state with other interfaces. -/
def withInterfaces (s : State) (interfaces : List InterfaceDef) : State := { s with interfaces }

/-- A state has more interfaces than an earlier one, all of them complete. Nothing else has changed. -/
structure Grows (w : World) (s s' : State) : Prop where
  rest : s' = withInterfaces s s'.interfaces
  kept {name : String} {i : InterfaceDef} : s.interface? name = some i → s'.interface? name = some i
  added {name : String} {i : InterfaceDef} :
    s'.interface? name = some i → s.interface? name = some i ∨ Complete w s' i

/-- A state in which an interface is being built: those it extends are there up to a point. -/
structure UnderWay (w : World) (s : State) (own : InterfaceDef) (s' : State) : Prop where
  rest : s' = withInterfaces s s'.interfaces
  kept {name : String} {i : InterfaceDef} : s.interface? name = some i → s'.interface? name = some i
  here : s'.interface? own.name = some own
  known : ∀ name ∈ own.parents, s'.Offers name
  added {name : String} {i : InterfaceDef} :
    s'.interface? name = some i → name ≠ own.name → s.interface? name = some i ∨ Complete w s' i

/-- How building an interface ends: it never fails, as the interfaces that are named are there. -/
def Interfaced (holds : State → Prop) : Except Stop Unit × State → Prop
  | (.ok _, s') => holds s'
  | (.error (.failed _), _) => False
  | (.error _, _) => True

theorem Interfaced.imp {P Q : State → Prop} (implies : ∀ s, P s → Q s) {r : Except Stop Unit × State}
    (interfaced : Interfaced P r) : Interfaced Q r := by
  rcases r with ⟨(d | _ | _) | u, s⟩
  · exact interfaced
  · trivial
  · trivial
  · exact implies s interfaced

/-- Adds the name of a parent to the interface of a name. -/
def noteParent (name parent : String) (s : State) : State :=
  withInterfaces s (s.interfaces.map fun i =>
    if i.name == name then { i with parents := i.parents ++ [parent] } else i)

private theorem interface?_cons (s : State) (own : InterfaceDef) (name : String) :
    (withInterfaces s (own :: s.interfaces)).interface? name =
      if own.name = name then some own else s.interface? name := by
  by_cases same : own.name = name <;> simp [State.interface?, withInterfaces, same]

private theorem interface?_noteParent (s : State) (name parent other : String) :
    (noteParent name parent s).interface? other = (s.interface? other).map fun i =>
      if i.name == name then { i with parents := i.parents ++ [parent] } else i := by
  unfold State.interface? noteParent withInterfaces
  rw [List.find?_map]
  congr 2
  funext i
  by_cases same : i.name = name <;> simp [same]

private theorem name_of_interface? {s : State} {name : String} {i : InterfaceDef}
    (found : s.interface? name = some i) : i.name = name := by
  simpa using List.find?_some found

/-- Noting a parent changes no other interface. -/
private theorem noteParent_other {s : State} {name parent other : String} (differs : other ≠ name) :
    (noteParent name parent s).interface? other = s.interface? other := by
  rw [interface?_noteParent]
  cases found : s.interface? other with
  | none => rfl
  | some i => simp [name_of_interface? found, differs]

/-- One more parent is built and noted. -/
private theorem underWay_step {own : InterfaceDef} {parent : String} {t u : State}
    (underWay : UnderWay w s own t) (absent : s.interface? own.name = none) (grows : Grows w t u)
    (there : u.Offers parent) :
    UnderWay w s { own with parents := own.parents ++ [parent] } (noteParent own.name parent u) := by
  have offers (name : String) (offered : u.Offers name) : (noteParent own.name parent u).Offers name := by
    unfold State.Offers at offered ⊢
    rw [interface?_noteParent, Option.isSome_map]
    exact offered
  have passed (name : String) (offered : t.Offers name) : u.Offers name := by
    obtain ⟨i, found⟩ := Option.isSome_iff_exists.1 offered
    exact Option.isSome_iff_exists.2 ⟨i, grows.kept found⟩
  constructor
  · rw [grows.rest, underWay.rest]
    rfl
  · intro name i found
    have differs : name ≠ own.name := by
      rintro rfl
      rw [absent] at found
      cases found
    rw [noteParent_other differs]
    exact grows.kept (underWay.kept found)
  · rw [interface?_noteParent, grows.kept underWay.here]
    simp
  · intro name member
    rcases List.mem_append.1 member with member | member
    · exact offers name (passed name (underWay.known name member))
    · rw [List.mem_singleton.1 member]
      exact offers parent there
  · intro name i found differs
    rw [noteParent_other differs] at found
    rcases grows.added found with found | complete
    · rcases underWay.added found differs with found | complete
      · exact .inl found
      · exact .inr (complete.mono fun n offered => offers n (passed n offered))
    · exact .inr (complete.mono offers)

/-- How the loop over parents ends. -/
private theorem buildParents_run {fuel : Nat} {own : InterfaceDef}
    (build : ∀ name span t, (w.interface? name).isSome →
      Interfaced (fun t' => Grows w t t' ∧ t'.Offers name) (buildInterface fuel name span w t))
    (parents : List TypeExpr) (there : ∀ p ∈ parents, (w.interface? (headName p)).isSome) (absent : s.interface? own.name = none)
    {t : State} (underWay : UnderWay w s own t) :
    Interfaced (UnderWay w s { own with parents := own.parents ++ parents.map headName })
      ((parents.forM fun p => do
        buildInterface fuel (headName p) p.span
        modify fun s : State =>
          { s with interfaces := s.interfaces.map fun i =>
              if i.name == own.name then { i with parents := i.parents ++ [headName p] } else i } : Run Unit) w t) := by
  induction parents generalizing own t with
  | nil =>
    show UnderWay w s { own with parents := own.parents ++ [] } t
    rw [List.append_nil]
    exact underWay
  | cons p parents ih =>
    have first := build (headName p) p.span t (there p List.mem_cons_self)
    rw [List.forM, bind_run, bind_run]
    rcases ran : buildInterface fuel (headName p) p.span w t with ⟨(d | _ | _) | u, t'⟩
    · rw [ran] at first
      exact first
    · trivial
    · trivial
    · rw [ran] at first
      have later := underWay_step underWay absent first.1 first.2
      have rest := @ih { own with parents := own.parents ++ [headName p] }
        (fun q member => there q (List.mem_cons_of_mem _ member)) absent _ later
      simp only [List.append_assoc, List.singleton_append] at rest
      exact rest

/-- An interface that was under way is complete once all those it extends are noted. -/
private theorem UnderWay.grows {own : InterfaceDef} {t : State} (underWay : UnderWay w s own t)
    (declared : w.interface? own.name = some own.decl) (all : own.parents = interfaceNames own.decl) :
    Grows w s t ∧ t.Offers own.name := by
  refine ⟨⟨underWay.rest, underWay.kept, fun {name i} found => ?_⟩, Option.isSome_iff_exists.2 ⟨own, underWay.here⟩⟩
  by_cases same : name = own.name
  · rw [same, underWay.here] at found
    cases found
    exact .inr ⟨declared, all, underWay.known⟩
  · exact underWay.added found same

private theorem underWay_start {name : String} (decl : Declaration) (absent : s.interface? name = none) :
    UnderWay w s ⟨name, decl, []⟩ (withInterfaces s (⟨name, decl, []⟩ :: s.interfaces)) := by
  refine ⟨rfl, fun {other i} found => ?_, by simp [interface?_cons], by simp, fun {other i} found differs => ?_⟩
  · have differs : name ≠ other := by
      rintro rfl
      rw [absent] at found
      cases found
    rw [interface?_cons, if_neg differs]
    exact found
  · rw [interface?_cons, if_neg (Ne.symm differs)] at found
    exact .inl found

theorem isInterface_of_interface? {name : String} {decl : Declaration} (declared : w.interface? name = some decl) :
    decl.isInterface = true := by
  obtain ⟨d, filtered, rfl⟩ := Option.map_eq_some_iff.1 declared
  exact (Option.filter_eq_some_iff.1 filtered).2

/-- An interface that is declared is built with all those it extends, unless the bound on the depth is
reached. -/
theorem buildInterface_run (linked : w.Linked) (fuel : Nat) (name : String) (span : Span) (s : State)
    (there : (w.interface? name).isSome) :
    Interfaced (fun s' => Grows w s s' ∧ s'.Offers name) (buildInterface fuel name span w s) := by
  induction fuel generalizing name span s with
  | zero => trivial
  | succ fuel ih =>
    unfold buildInterface
    rw [bind_run]
    show Interfaced _ ((if (s.interface? name).isSome then _ else _ : Run Unit) w s)
    split
    · next found => exact ⟨⟨rfl, id, .inl⟩, found⟩
    · next absent =>
      have absent : s.interface? name = none := Option.not_isSome_iff_eq_none.1 absent
      obtain ⟨decl, declared⟩ := Option.isSome_iff_exists.1 there
      obtain ⟨mark, annotations, heading, declName, typeParams, fields, methods⟩ := decl
      cases heading with
      | ofClass isOpen parent interfaces => simpa [Declaration.isInterface] using isInterface_of_interface? declared
      | ofInterface parents =>
        have member : ∃ d ∈ w.declarations, d.2 = ⟨mark, annotations, .ofInterface parents, declName, typeParams,
            fields, methods⟩ := by
          obtain ⟨d, filtered, same⟩ := Option.map_eq_some_iff.1 declared
          exact ⟨d, List.mem_of_find?_eq_some (Option.filter_eq_some_iff.1 filtered).1, same⟩
        obtain ⟨d, member, same⟩ := member
        have looped := buildParents_run (fun name span t => ih name span t) parents ?_ absent
          (underWay_start ⟨mark, annotations, .ofInterface parents, declName, typeParams, fields, methods⟩ absent)
        · have isRead : (read : Run World) w s = (.ok w, s) := rfl
          rw [bind_run, isRead]
          dsimp only
          rw [declared]
          exact Interfaced.imp (fun t underWay => underWay.grows declared rfl) looped
        · intro p within
          refine linked.interfaces d member (headName p) ?_
          rw [same]
          exact List.mem_map_of_mem within

theorem Grows.later {s s' : State} (grows : Grows w s s') : Later s s' := by
  refine ⟨fun found => ⟨_, ?_, rfl⟩, grows.kept⟩
  rw [grows.rest]
  exact found

theorem Grows.kept_orderly {s s' : State} (grows : Grows w s s') (orderly : Orderly w s) : Kept w s s' := by
  have heap : s'.heap = s.heap := by rw [grows.rest]; rfl
  have known : s'.classes = s.classes := by rw [grows.rest]; rfl
  refine ⟨grows.later, ⟨?_, ?_, ?_, ?_⟩, by rw [grows.rest]; rfl⟩
  · intro entry member
    exact grows.later.names (orderly.known entry (known ▸ member))
  · intro id c found
    rw [heap] at found
    exact (orderly.classes found).mono (fun _ _ => grows.later.names) fun _ => grows.later.offers
  · intro name i found
    rcases grows.added found with found | complete
    · exact (orderly.interfaces found).mono fun _ => grows.later.offers
    · exact complete
  · intro id c found
    rw [heap] at found
    exact orderly.closures found

theorem buildInterface_conducts (linked : w.Linked) {fuel : Nat} {name : String} {span : Span}
    (there : (w.interface? name).isSome) :
    Conducts w s₀ file (buildInterface fuel name span) fun s _ => s.Offers name := by
  intro s _ orderly _
  have built := buildInterface_run linked fuel name span s there
  rcases ran : buildInterface fuel name span w s with ⟨(d | _ | _) | u, s'⟩
  · rw [ran] at built
    exact built.elim
  · trivial
  · trivial
  · rw [ran] at built
    obtain ⟨grows, offers⟩ := built
    refine ⟨grows.kept_orderly orderly, fun _ id c found _ => ?_, offers⟩
    rw [grows.rest] at found
    exact (Array.getElem?_eq_some_iff.1 found).1

/-! ## Initial values -/

theorem Later.cls {s s' : State} (later : Later s s') {id : Nat} {c : ClassDef}
    (found : s.heap.classes[id]? = some c) : (s'.heap.cls id).core = c.core := by
  obtain ⟨c', found', same⟩ := later.classes found
  rw [Heap.cls, found']
  exact same

/-- The initial value of a field is evaluated in the file of its class. -/
theorem evalField_conducts (conducted : k.Conducted w) {cls : Nat} {c : ClassDef}
    (found : s₀.heap.classes[cls]? = some c) (self : Option Value) {e : Expr}
    (sanctioned : w.program.Sanctions c.file e.sites) : Conducts w s₀ file (evalField k cls self e) Anything := by
  refine conducts_bind conducts_heap ?_
  rintro s h later ⟨rfl, -⟩
  have same : (s.heap.cls cls).file = c.file := (ClassDef.core_inj (later.cls found)).2.1
  refine conducts_seq conducts_noteInitial fun _ => conducts_inContext _ _ ?_
  refine conducts_seq (conducts_openScope _) fun scope => conducted.eval ?_
  rw [same]
  exact sanctioned

theorem initStatics_conducts (conducted : k.Conducted w) {cls : Nat} {c : ClassDef}
    (found : s₀.heap.classes[cls]? = some c) {fields : List Field}
    (sanctioned : w.program.Sanctions c.file (Field.sitesAll fields)) :
    Conducts w s₀ file (initStatics k cls fields) Anything := by
  induction fields with
  | nil => exact conducts_return _
  | cons f fields ih =>
    obtain ⟨mark, annotations, modifiers, name, type, init⟩ := f
    cases init with
    | none =>
      rw [Field.sitesAll] at sanctioned
      unfold initStatics
      dsimp only
      split
      · exact conducts_seq (conducts_return _) fun v => conducts_seq (conducts_setStatic _ _ _) fun _ => ih sanctioned
      · exact ih sanctioned
    | some e =>
      rw [Field.sitesAll, LinkedProgram.sanctions_append] at sanctioned
      unfold initStatics
      dsimp only
      split
      · refine conducts_seq (evalField_conducts conducted found none sanctioned.1) fun v => ?_
        exact conducts_seq (conducts_setStatic _ _ _) fun _ => ih sanctioned.2
      · exact ih sanctioned.2

/-! ## Classes -/

/-- A class is being built, the next one of the state `s`, and stands at `c`. Other classes are built
already, or were unfinished before. -/
structure Amid (w : World) (s : State) (c : ClassDef) (st : State) : Prop where
  kept : Kept w s st
  here : ∃ c', st.heap.classes[s.heap.classes.size]? = some c' ∧ c'.core = c.core
  settled : w.Plain → ∀ id d, st.heap.classes[id]? = some d → d.hasMembers = false → id ≤ s.heap.classes.size

/-- How a part of the building of a class ends. -/
def BuildEnds (w : World) (s : State) (post : ClassDef → Prop) : Except Stop α × State → Prop
  | (.ok _, st) => ∃ c, post c ∧ Amid w s c st
  | (.error (.failed d), st) => Kept w s st ∧ (d.kind = .execution → w.program.Excuses d.file d.span)
  | (.error _, _) => True

/-- A part of the building of a class: it takes the class from one stage to another. -/
def Builds (w : World) (s : State) (pre : ClassDef → Prop) (x : Run α) (post : ClassDef → Prop) : Prop :=
  ∀ c st, pre c → Amid w s c st → BuildEnds w s post (x w st)

theorem builds_bind {pre mid post : ClassDef → Prop} {x : Run α} {f : α → Run β} (first : Builds w s pre x mid)
    (rest : ∀ a, Builds w s mid (f a) post) : Builds w s pre (x >>= f) post := by
  intro c st holds amid
  have begun := first c st holds amid
  rw [bind_run]
  rcases ran : x w st with ⟨(d | _ | _) | a, st'⟩
  · rw [ran] at begun
    exact begun
  · trivial
  · trivial
  · rw [ran] at begun
    obtain ⟨c', holds', amid'⟩ := begun
    exact rest a c' st' holds' amid'

/-- Other code that runs meanwhile leaves the class where it stands. -/
theorem Amid.after {c : ClassDef} {st st' : State} (amid : Amid w s c st) (kept : Kept w st st')
    (settled : w.Plain → Settled st st') : Amid w s c st' := by
  obtain ⟨c', found, same⟩ := amid.here
  obtain ⟨c'', found', same'⟩ := kept.later.classes found
  refine ⟨amid.kept.trans kept, ⟨c'', found', same'.trans same⟩, fun plain id d found unfinished => ?_⟩
  have early := settled plain id d found unfinished
  obtain ⟨d', found', same⟩ := kept.later.classes (Array.getElem?_eq_getElem early)
  obtain rfl := Option.some.inj (found.symm.trans found')
  refine amid.settled plain id _ (Array.getElem?_eq_getElem early) ?_
  rw [← (ClassDef.core_inj same).2.2.2.2.2, unfinished]

/-- Other code runs, and its result may be used for the class. -/
theorem builds_conducts_bind {pre post : ClassDef → Prop} {x : Run α} {f : α → Run β} {Q : State → α → Prop}
    (conducts : ∀ c st, pre c → Amid w s c st → Conducts w st s.file x Q)
    (rest : ∀ c st a, pre c → Amid w s c st → Q st a → BuildEnds w s post (f a w st)) :
    Builds w s pre (x >>= f) post := by
  intro c st holds amid
  have begun := conducts c st holds amid st (Later.refl st) amid.kept.orderly amid.kept.file
  rw [bind_run]
  rcases ran : x w st with ⟨(d | _ | _) | a, st'⟩
  · rw [ran] at begun
    exact ⟨amid.kept.trans begun.1, begun.2⟩
  · trivial
  · trivial
  · rw [ran] at begun
    exact rest c st' a holds (amid.after begun.1 begun.2.1) begun.2.2

/-- Other code runs, and its result does not matter. -/
theorem builds_of_conducts {pre : ClassDef → Prop} {x : Run Unit}
    (conducts : ∀ c st, pre c → Amid w s c st → Conducts w st s.file x Anything) : Builds w s pre x pre := by
  rw [← bind_pure x]
  exact builds_conducts_bind conducts fun c st _ holds amid _ => ⟨c, holds, amid⟩

/-- The state with a class changed. -/
def reshaped (s : State) (id : Nat) (f : ClassDef → ClassDef) : State :=
  { s with heap := { s.heap with classes := s.heap.classes.modify id f } }

/-- A change of the class that is being built, whatever its static fields are. -/
theorem Amid.reshape {c : ClassDef} {st : State} {f : ClassDef → ClassDef} (amid : Amid w s c st)
    (regardless : ∀ d, (f d).core = (f d.core).core) (name : (f c).name = c.name) (arranged : Arranged w st (f c)) :
    Amid w s (f c) (reshaped st s.heap.classes.size f) := by
  obtain ⟨c', found, same⟩ := amid.here
  have core : (f c').core = (f c).core := by rw [regardless c', same, ← regardless c]
  let st' : State := reshaped st s.heap.classes.size f
  have at_ (id : Nat) : st'.heap.classes[id]? =
      if s.heap.classes.size = id then st.heap.classes[id]?.map f else st.heap.classes[id]? :=
    Array.getElem?_modify
  have here : st'.heap.classes[s.heap.classes.size]? = some (f c') := by
    rw [at_, if_pos rfl, found]
    rfl
  have names (id : Nat) (n : String) (named : st.Names id n) : st'.Names id n := by
    obtain ⟨d, held, rfl⟩ := named
    by_cases own : s.heap.classes.size = id
    · subst own
      obtain rfl := Option.some.inj (found.symm.trans held)
      refine ⟨f c', here, ?_⟩
      rw [(ClassDef.core_inj core).1, name, (ClassDef.core_inj same).1]
    · exact ⟨d, by rw [at_, if_neg own, held], rfl⟩
  have offers (n : String) (offered : st.Offers n) : st'.Offers n := offered
  have later : Later s st' := by
    refine ⟨fun {id d} held => ?_, amid.kept.later.interfaces⟩
    have early := (Array.getElem?_eq_some_iff.1 held).1
    obtain ⟨d', held', same⟩ := amid.kept.later.classes held
    exact ⟨d', by rw [at_, if_neg (by omega), held'], same⟩
  have orderly : Orderly w st' := by
    refine ⟨fun entry member => names _ _ (amid.kept.orderly.known entry member), fun {id d} held => ?_,
      fun held => (amid.kept.orderly.interfaces held).mono offers, amid.kept.orderly.closures⟩
    by_cases own : s.heap.classes.size = id
    · subst own
      obtain rfl := Option.some.inj (here.symm.trans held)
      exact (arranged_of_core core arranged).mono names offers
    · rw [at_, if_neg own] at held
      exact (amid.kept.orderly.classes held).mono names offers
  refine ⟨⟨later, orderly, amid.kept.file⟩, ⟨f c', here, core⟩, fun plain id d held unfinished => ?_⟩
  by_cases own : s.heap.classes.size = id
  · omega
  · rw [at_, if_neg own] at held
    exact amid.settled plain id d held unfinished

/-- A change of the class as a part of its building. -/
theorem builds_modifyClass {pre post : ClassDef → Prop} {f : ClassDef → ClassDef}
    (regardless : ∀ d, (f d).core = (f d.core).core) (names : ∀ c, (f c).name = c.name)
    (arranged : ∀ c st, pre c → Amid w s c st → Arranged w st (f c)) (posts : ∀ c, pre c → post (f c)) :
    Builds w s pre (modifyClass s.heap.classes.size f) post := by
  intro c st holds amid
  exact ⟨f c, posts c holds, amid.reshape regardless (names c) (arranged c st holds amid)⟩

theorem Amid.arranged {c : ClassDef} {st : State} (amid : Amid w s c st) : Arranged w st c := by
  obtain ⟨c', found, same⟩ := amid.here
  exact arranged_of_core same.symm (amid.kept.orderly.classes found)

/-- A stage of a class on the way: its name and declaration, and its interfaces so far. -/
structure Stage (name : String) (decl : Declaration) (interfaces : List String) (c : ClassDef) : Prop where
  name : c.name = name
  decl : c.decl = decl
  interfaces : c.interfaces = interfaces
  unfinished : c.hasMembers = false

/-- The superclass is there if one is named. -/
def HasParent (c : ClassDef) : Prop := ∀ name, superclassName? c.decl = some name → name ≠ "" → c.parent.isSome

theorem addInterfaces_builds (linked : w.Linked) (name : String) (decl : Declaration) (done : List String)
    {types : List TypeExpr} (there : ∀ t ∈ types, (w.interface? (headName t)).isSome) :
    Builds w s (fun c => Stage name decl done c ∧ HasParent c)
      (types.forM fun t => do
        buildInterface ((← read).program.statements.length + 1) (headName t) t.span
        modifyClass s.heap.classes.size fun c => { c with interfaces := c.interfaces ++ [headName t] })
      fun c => Stage name decl (done ++ types.map headName) c ∧ HasParent c := by
  induction types generalizing done with
  | nil =>
    intro c st holds amid
    exact ⟨c, by simpa using holds, amid⟩
  | cons t types ih =>
    have rest := ih (done ++ [headName t]) fun u member => there u (List.mem_cons_of_mem _ member)
    rw [List.append_assoc] at rest
    refine builds_bind ?_ fun _ => rest
    refine builds_conducts_bind (fun _ _ _ _ => conducts_read) ?_
    rintro c st _ holds amid rfl
    refine builds_conducts_bind (fun c st (_ : Stage name decl done c ∧ HasParent c) _ =>
      buildInterface_conducts linked (there t List.mem_cons_self)) ?_ c st holds amid
    rintro c st - ⟨stage, parent⟩ amid offers
    have arranged := amid.arranged
    refine ⟨{ c with interfaces := c.interfaces ++ [headName t] }, ⟨⟨stage.name, stage.decl, ?_, stage.unfinished⟩, parent⟩,
      amid.reshape (f := fun c => { c with interfaces := c.interfaces ++ [headName t] }) (fun _ => rfl) rfl
        ⟨arranged.declared, arranged.parent, ?_, ?_⟩⟩
    · rw [← stage.interfaces]
    · intro name member
      rcases List.mem_append.1 member with member | member
      · exact arranged.interfaces name member
      · rw [List.mem_singleton.1 member]
        exact offers
    · intro finished
      exact absurd finished (by simp [stage.unfinished])

theorem addSupers_builds (linked : w.Linked) (conducted : k.Conducted w) {name : String} {decl : Declaration}
    {parent : Option TypeExpr} {types : List TypeExpr}
    (superclass : superclassName? decl = parent.map headName)
    (parentThere : ∀ t, parent = some t → (w.class? (headName t)).isSome)
    (there : ∀ t ∈ types, (w.interface? (headName t)).isSome) :
    Builds w s (Stage name decl []) (addSupers k s.heap.classes.size parent types)
      fun c => Stage name decl (types.map headName) c ∧ HasParent c := by
  have rest : Builds w s _ _ _ := addInterfaces_builds linked name decl [] there
  rw [List.nil_append] at rest
  unfold addSupers
  cases parent with
  | none =>
    intro c st stage amid
    refine rest c st ⟨stage, fun _ written => ?_⟩ amid
    rw [stage.decl, superclass] at written
    cases written
  | some t =>
    dsimp only
    split
    · next named =>
      refine builds_conducts_bind (fun _ _ _ _ => conducted.classOf (.inl (parentThere t rfl))) ?_
      rintro c st p stage amid names
      have arranged := amid.arranged
      have changed := amid.reshape (f := fun c => { c with parent := some p }) (fun _ => rfl) rfl
          ⟨arranged.declared, fun {q} same => ?_, arranged.interfaces, fun finished => ?_⟩
      · rw [bind_run]
        exact rest { c with parent := some p } _
          ⟨⟨stage.name, stage.decl, stage.interfaces, stage.unfinished⟩, fun _ _ _ => rfl⟩ changed
      · cases same
        exact ⟨headName t, by rw [stage.decl, superclass]; rfl, names⟩
      · exact absurd finished (by simp [stage.unfinished])
    · next unnamed =>
      intro c st stage amid
      refine rest c st ⟨stage, fun _ written nonempty => ?_⟩ amid
      rw [stage.decl, superclass] at written
      cases written
      exact absurd nonempty (by simpa using unnamed)

/-- A class with members. -/
structure Built (name : String) (decl : Declaration) (c : ClassDef) : Prop where
  name : c.name = name
  decl : c.decl = decl
  finished : c.hasMembers = true

theorem addMembers_builds {name : String} {decl : Declaration} :
    Builds w s (fun c => Stage name decl (interfaceNames decl) c ∧ HasParent c) (addMembers s.heap.classes.size decl)
      (Built name decl) := by
  unfold addMembers
  have flagged : Builds w s (fun c => Stage name decl (interfaceNames decl) c ∧ HasParent c)
      (modifyClass s.heap.classes.size fun c => { c with hasMembers := true }) (Built name decl) := by
    refine builds_modifyClass (fun _ => rfl) (fun _ => rfl) ?_ ?_
    · rintro c st ⟨stage, parent⟩ amid
      have arranged := amid.arranged
      refine ⟨arranged.declared, arranged.parent, arranged.interfaces, fun _ => ⟨parent, ?_⟩⟩
      rw [stage.interfaces, ← stage.decl]
    · rintro c ⟨stage, -⟩
      exact ⟨stage.name, stage.decl, rfl⟩
  refine builds_bind flagged fun _ => ?_
  split
  · split
    · refine builds_modifyClass (fun _ => rfl) (fun _ => rfl) ?_ fun c built => ⟨built.name, built.decl, built.finished⟩
      intro c st _ amid
      have arranged := amid.arranged
      exact ⟨arranged.declared, arranged.parent, arranged.interfaces, arranged.finished⟩
    · intro c st _ amid
      exact ⟨amid.kept, fun native => by cases native⟩
  · intro c st built amid
    exact ⟨c, built, amid⟩

private theorem Kept.forget {st : State} (kept : Kept w s st) (p : String × Nat → Bool) :
    Kept w s { st with classes := st.classes.filter p } := by
  refine ⟨⟨kept.later.classes, kept.later.interfaces⟩, ⟨fun entry member => ?_, fun found => ?_, fun found => ?_,
    kept.orderly.closures⟩, kept.file⟩
  · exact kept.orderly.known entry ((List.mem_filter.1 member).1)
  · exact (kept.orderly.classes found).mono (fun _ _ => id) fun _ => id
  · exact (kept.orderly.interfaces found).mono fun _ => id

/-- A class that could not be built is forgotten; what else was built stays. -/
theorem orForget_builds {pre post : ClassDef → Prop} {x : Run α} (name : String) (builds : Builds w s pre x post) :
    Builds w s pre (orForget name x) post := by
  intro c st holds amid
  have begun := builds c st holds amid
  unfold orForget
  rw [bind_run]
  unfold attempt
  rcases ran : x w st with ⟨(d | _ | _) | a, st'⟩
  · rw [ran] at begun
    exact ⟨begun.1.forget _, begun.2⟩
  · trivial
  · trivial
  · rw [ran] at begun
    exact begun

/-- The state with a class that is known but has nothing yet. -/
def started (s : State) (name file : String) (decl : Declaration) : State :=
  { s with
    classes := (name, s.heap.classes.size) :: s.classes,
    heap := { s.heap with classes := s.heap.classes.push ⟨name, file, decl, none, [], false, none, []⟩ } }

theorem amid_start {name : String} {decl : Declaration} (orderly : Orderly w s)
    (declared : w.class? name = some (file, decl)) :
    Amid w s ⟨name, file, decl, none, [], false, none, []⟩ (started s name file decl) := by
  let fresh : ClassDef := ⟨name, file, decl, none, [], false, none, []⟩
  let st : State := started s name file decl
  have here : st.heap.classes[s.heap.classes.size]? = some fresh := Array.getElem?_push_size
  have later : Later s st := by
    refine ⟨fun {id c} found => ⟨c, ?_, rfl⟩, id⟩
    have early := (Array.getElem?_eq_some_iff.1 found).1
    rw [← found]
    exact Array.getElem?_push_lt early ▸ (Array.getElem?_eq_getElem early).symm
  refine ⟨⟨later, ⟨?_, ?_, ?_, orderly.closures⟩, rfl⟩, ⟨fresh, here, rfl⟩, ?_⟩
  · intro entry member
    rcases List.mem_cons.1 member with rfl | member
    · exact ⟨fresh, here, rfl⟩
    · exact later.names (orderly.known entry member)
  · intro id c found
    have pushed : (s.heap.classes.push fresh)[id]? = some c := found
    rw [Array.getElem?_push] at pushed
    split at pushed
    · cases pushed
      exact ⟨declared, by simp [fresh], by simp [fresh], by simp [fresh]⟩
    · exact (orderly.classes pushed).mono (fun _ _ => later.names) fun _ => later.offers
  · intro i name found
    exact (orderly.interfaces found).mono fun _ => later.offers
  · intro _ id c found _
    have within : id < (s.heap.classes.push fresh).size := (Array.getElem?_eq_some_iff.1 found).1
    rw [Array.size_push] at within
    omega

/-- What building a class ends with, seen from before it began. -/
private theorem BuildEnds.ends {name : String} {decl : Declaration} {x : Run Unit} {st : State}
    (built : BuildEnds w s (Built name decl) (x w st)) :
    Ends w s (fun st id => st.Names id name) ((do x; return s.heap.classes.size : Run Nat) w st) := by
  rw [bind_run]
  rcases ran : x w st with ⟨(d | _ | _) | a, st⟩
  · rw [ran] at built
    exact built
  · trivial
  · trivial
  · rw [ran] at built
    obtain ⟨c, built, amid⟩ := built
    obtain ⟨c', found, same⟩ := amid.here
    refine ⟨amid.kept, fun plain id d held unfinished => ?_, ⟨c', found, ?_⟩⟩
    · refine Nat.lt_of_le_of_ne (amid.settled plain id d held unfinished) ?_
      rintro rfl
      obtain rfl := Option.some.inj (found.symm.trans held)
      rw [(ClassDef.core_inj same).2.2.2.2.2, built.finished] at unfinished
      cases unfinished
    · rw [(ClassDef.core_inj same).1, built.name]

/-- A class of which the declaration has been found is built. -/
private theorem build_ends (linked : w.Linked) (conducted : k.Conducted w) {name home : String} {decl : Declaration}
    (orderly : Orderly w s) (declared : w.class? name = some (home, decl)) (parent : Option TypeExpr)
    (types : List TypeExpr) (superclass : superclassName? decl = parent.map headName)
    (interfaces : interfaceNames decl = types.map headName) :
    Ends w s (fun st id => st.Names id name)
      ((do
        orForget name do
          addSupers k s.heap.classes.size parent types
          addMembers s.heap.classes.size decl
        initStatics k s.heap.classes.size decl.fields
        return s.heap.classes.size : Run Nat) w (started s name home decl)) := by
  have member : (home, decl) ∈ w.declarations :=
    List.mem_of_find?_eq_some (Option.filter_eq_some_iff.1 declared).1
  have supers : Builds w s (Stage name decl []) (addSupers k s.heap.classes.size parent types) _ :=
    addSupers_builds linked conducted superclass ?_ ?_
  · rw [← interfaces] at supers
    have members := orForget_builds name (builds_bind supers fun _ => addMembers_builds)
    have values : Builds w s (Built name decl) (initStatics k s.heap.classes.size decl.fields) (Built name decl) := by
      refine builds_of_conducts fun c st built amid => ?_
      obtain ⟨c', found, same⟩ := amid.here
      have known := (amid.kept.orderly.classes found).declared
      rw [(ClassDef.core_inj same).1, built.name, declared] at known
      have code := sanctions_class linked declared
      cases known
      exact initStatics_conducts conducted found (LinkedProgram.sanctions_append.1 code).1
    have built := builds_bind members (fun _ => values) _ _ ⟨rfl, rfl, rfl, rfl⟩ (amid_start orderly declared)
    rw [← bind_assoc]
    exact built.ends
  · intro t same
    exact linked.superclass _ member (headName t) (by rw [superclass, same]; rfl)
  · intro t within
    exact linked.interfaces _ member (headName t) (by rw [interfaces]; exact List.mem_map_of_mem within)

/-- Building a class on its first use conducts itself as the evaluator does, and gives the class of that
name. -/
theorem classOf_conducts (linked : w.Linked) (conducted : k.Conducted w) {name : String} {span : Span}
    (there : (w.class? name).isSome ∨ w.program.Excuses file span) :
    Conducts w s₀ file (classOf k name span) fun s id => s.Names id name := by
  intro s later orderly same
  have isGet : (get : Run State) w s = (.ok s, s) := rfl
  have isRead : (read : Run World) w s = (.ok w, s) := rfl
  unfold classOf
  rw [bind_run, isGet]
  dsimp only
  cases known : s.classes.lookup name with
  | some id =>
    obtain ⟨before, after, split, -⟩ := List.lookup_eq_some_iff.1 known
    have names := orderly.known (name, id) (by rw [split]; simp)
    exact conducts_pure (fun t after _ => after.names names) s (Later.refl s) orderly same
  | none =>
    dsimp only
    rw [bind_run, isRead]
    dsimp only
    rcases declared : w.class? name with _ | ⟨home, decl⟩
    · rcases there with there | excused
      · rw [declared] at there
        cases there
      · exact conducts_fail excused s later orderly same
    · dsimp only
      rw [bind_run]
      cases heading : decl.heading with
      | ofClass isOpen parent types =>
        refine build_ends linked conducted orderly declared parent types ?_ ?_
        · rw [superclassName?, heading]
          cases parent <;> rfl
        · rw [interfaceNames, heading]
      | ofInterface parents =>
        have isClass := (Option.filter_eq_some_iff.1 declared).2
        simp [Declaration.isInterface, heading] at isClass

end ClassScript.Evaluation
