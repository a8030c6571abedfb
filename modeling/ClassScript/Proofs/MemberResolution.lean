import ClassScript.Proofs.Dispatch

/-!
Which declaration an access to a member means. Typing looks for fields before methods, nearest first along the
superclasses and whether they are static or not; a run looks into the fields of the object, or of each class in turn,
and then for a method. On a class that is built, and an object that has the fields of its class, both come to the same
declaration (`members_resolve_alike`). On a class that is not built yet a run finds less
(`unfinished_class_lacks_method`).
-/

namespace ClassScript

open Evaluation Sample

/-- No declaration has two fields of one name, as none can be written. -/
def LinkedProgram.Distinct (p : LinkedProgram) : Prop :=
  ∀ d ∈ p.declarations, (d.2.fields.map (·.name.text)).Nodup

instance (p : LinkedProgram) : Decidable p.Distinct :=
  inferInstanceAs (Decidable (∀ d ∈ p.declarations, (d.2.fields.map (·.name.text)).Nodup))

/-! ## Members that typing finds -/

namespace Typing

variable {ctx : Context} {r : Registry} {recv : Receiver} {name : String}

/-- A member that may be used is the one that is found, and is static as the receiver is. -/
theorem gives_useMember {scope : Scope} {span : Span} {member : Member}
    (gives : Gives (useMember scope recv name span) ctx member) :
    (∃ subst, member? ctx.registry recv name = some (member.symbol, subst)) ∧
      member.symbol.isStatic = recv.isStatic := by
  obtain ⟨_, isRead, gives⟩ := gives_bind gives
  rw [gives_read isRead] at gives
  dsimp only at gives
  rcases found : member? ctx.registry recv name with _ | ⟨symbol, subst⟩
  · rw [found] at gives
    exact absurd gives not_gives_reject
  · rw [found] at gives
    obtain ⟨_, throughClass, gives⟩ := gives_bind gives
    obtain ⟨_, throughInstance, gives⟩ := gives_bind gives
    obtain ⟨_, -, gives⟩ := gives_bind gives
    obtain ⟨_, -, gives⟩ := gives_bind gives
    rw [gives_pure gives]
    have left := gives_require throughClass
    have right := gives_require throughInstance
    refine ⟨⟨subst, rfl⟩, ?_⟩
    show symbol.isStatic = recv.isStatic
    cases isStatic : symbol.isStatic <;> cases receiver : recv.isStatic <;> simp_all

/-- The member of a class is its nearest field of that name, or else its nearest method. -/
theorem member?_class (isClass : recv.decl.nominal.isInterface = false) {symbol : MemberSymbol} {subst : Option Subst}
    (found : member? r recv name = some (symbol, subst)) :
    (∃ f, symbol = .field f ∧ r.classField? recv.decl name = some f) ∨
      ∃ m, symbol = .method m ∧ r.classField? recv.decl name = none ∧ r.classMethod? recv.decl name = some m := by
  rw [member?, isClass] at found
  simp only [Bool.false_eq_true, if_false] at found
  cases hasField : r.classField? recv.decl name with
  | some f =>
    rw [hasField] at found
    cases found
    exact .inl ⟨f, rfl, rfl⟩
  | none =>
    rw [hasField] at found
    obtain ⟨m, isMethod, same⟩ := Option.map_eq_some_iff.1 found
    cases same
    exact .inr ⟨m, rfl, rfl, isMethod⟩

end Typing

/-! ## Fields along a line -/

namespace Evaluation

variable {p : LinkedProgram} {r : Registry} {clock : Float} {s : State} {d : DeclSymbol} {id : Nat} {name : String}
  {w : World}

/-- A class has no field of that name of its own, be it static or not. -/
def State.Without (s : State) (name : String) (c : Nat) : Prop := ∀ f ∈ (s.heap.cls c).decl.fields, f.name.text ≠ name

/-- A field is the nearest of that name on the line of a class: one of `owner`, before which no class has one. -/
structure Nearest (s : State) (id : Nat) (name : String) (f : FieldSymbol) (nearer : List Nat) (owner : Nat)
    (farther : List Nat) : Prop where
  chain : s.heap.chain id = nearer ++ owner :: farther
  hidden : ∀ c ∈ nearer, s.Without name c
  ownerName : (s.heap.cls owner).name = f.owner.name
  own : f.decl ∈ (s.heap.cls owner).decl.fields
  isNamed : f.decl.name.text = name
  distinct : ((s.heap.cls owner).decl.fields.map (·.name.text)).Nodup

/-- Two related lists are split alike. -/
private theorem forall₂_split {α β : Type} {R : α → β → Prop} {as : List α} {bs cs : List β} {b : β}
    (related : List.Forall₂ R as (bs ++ b :: cs)) :
    ∃ before a after, as = before ++ a :: after ∧ List.Forall₂ R before bs ∧ R a b := by
  induction bs generalizing as with
  | nil =>
    cases related with
    | @cons a _ as _ first _ => exact ⟨[], a, as, rfl, .nil, first⟩
  | cons c bs ih =>
    cases related with
    | @cons a _ as _ first rest =>
      obtain ⟨before, a', after, rfl, earlier, here⟩ := ih rest
      exact ⟨a :: before, a', after, rfl, .cons first earlier, here⟩

/-- A class that was built from a symbol has no field of a name that the symbol has none of. -/
theorem Represents.without {c : Nat} {e : DeclSymbol} (represents : Represents s c e) (lacks : e.field? name = none) :
    s.Without name c := by
  have written := field?_decl represents.membered name
  rw [lacks, Option.map_none, eq_comm, List.find?_eq_none] at written
  intro f member
  rw [represents.decl] at member
  simpa using written f member

section Line

variable (describes : r.Describes p) (named : ∀ d ∈ r, d.name ≠ "") (orderly : Orderly (.ofProgram p clock) s)
  (declared : d ∈ r) (names : s.Names id d.name) (built : s.Built id)
include describes named orderly declared names built

/-- The nearest field that typing finds is the nearest one of the class that is built. -/
theorem nearest_of_classField? (distinct : p.Distinct) {f : FieldSymbol} (found : r.classField? d name = some f) :
    ∃ nearer owner farther, Nearest s id name f nearer owner farther := by
  have line := represents_ancestors describes named orderly declared names built
  obtain ⟨before, e, after, split, isField, lacks⟩ := List.findSome?_eq_some_iff.1 found
  rw [split] at line
  obtain ⟨nearer, owner, farther, chain, hidden, represents⟩ := forall₂_split line
  obtain ⟨written, within, symbolizes⟩ :=
    mem_of_forall₂_right represents.membered.fields (List.mem_of_find?_eq_some isField)
  have isNamed : f.name = name := by simpa using List.find?_some isField
  refine ⟨nearer, owner, farther, chain, fun c member => ?_, ?_, ?_, ?_, ?_⟩
  · obtain ⟨e', inFront, represents'⟩ := mem_of_forall₂_left hidden member
    exact represents'.without (lacks e' inFront)
  · rw [symbolizes.owner, represents.name]
    rfl
  · rw [represents.decl, symbolizes.decl]
    exact within
  · rw [symbolizes.decl, ← symbolizes.name, isNamed]
  · rw [represents.decl]
    have inProgram : (e.file, e.decl) ∈ p.declarations := by
      have above : e ∈ r := (Registry.line_ancestors describes declared).2.2 (by rw [split]; simp)
      rw [← describes.registered.declared]
      exact List.mem_map_of_mem above
    exact distinct _ inProgram

/-- Where typing finds no field, the class that is built has none on its line. -/
theorem without_of_classField? (lacks : r.classField? d name = none) : ∀ c ∈ s.heap.chain id, s.Without name c := by
  have line := represents_ancestors describes named orderly declared names built
  intro c member
  obtain ⟨e, above, represents⟩ := mem_of_forall₂_left line member
  exact represents.without (List.findSome?_eq_none_iff.1 lacks e above)

end Line

/-- A class that is built has its members, and so have its superclasses. -/
theorem State.Built.fields (built : s.Built id) {c : Nat} (member : c ∈ s.heap.chain id) :
    (s.heap.cls c).fields = (s.heap.cls c).decl.fields := by
  rw [ClassDef.fields, if_pos (built _ c member)]

/-- Without a field of that name, a class has no instance field of it. -/
theorem State.Without.instanceField? {c : Nat} (without : s.Without name c) :
    ((s.heap.cls c).instanceFields.find? fun f => f.name.text == name) = none := by
  rw [List.find?_eq_none]
  intro f member
  have member := (List.mem_filter.1 member).1
  unfold ClassDef.fields at member
  split at member
  · simpa using without f member
  · cases member

/-- Without a field of that name on the line, a class has no instance field of it. -/
theorem instanceField?_none (lacks : ∀ c ∈ s.heap.chain id, s.Without name c) : s.instanceField? id name = none := by
  refine List.findSome?_eq_none_iff.2 fun c member => ?_
  obtain ⟨c, inChain, rfl⟩ := List.mem_map.1 member
  exact (lacks c inChain).instanceField?

/-- No other field of its class has the name of a nearest field. -/
theorem Nearest.only {f : FieldSymbol} {nearer farther : List Nat} {owner : Nat}
    (nearest : Nearest s id name f nearer owner farther) {g : Field} (member : g ∈ (s.heap.cls owner).decl.fields)
    (isNamed : g.name.text = name) : g = f.decl :=
  List.inj_on_of_nodup_map nearest.distinct member nearest.own (isNamed.trans nearest.isNamed.symm)

theorem Nearest.owner_mem {f : FieldSymbol} {nearer farther : List Nat} {owner : Nat}
    (nearest : Nearest s id name f nearer owner farther) : owner ∈ s.heap.chain id := by
  rw [nearest.chain]
  exact List.mem_append_right _ List.mem_cons_self

/-- A nearest field that is not static is an instance field of its class. -/
theorem Nearest.mem_instanceFields {f : FieldSymbol} {nearer farther : List Nat} {owner : Nat}
    (nearest : Nearest s id name f nearer owner farther) (built : s.Built id) (isInstance : f.isStatic = false) :
    f.decl ∈ (s.heap.cls owner).instanceFields := by
  refine List.mem_filter.2 ⟨?_, ?_⟩
  · rw [built.fields nearest.owner_mem]
    exact nearest.own
  · rw [show f.decl.modifiers.isStatic = false from isInstance]
    rfl

/-- A nearest field that is not static is the nearest instance field. -/
theorem Nearest.instanceField? {f : FieldSymbol} {nearer farther : List Nat} {owner : Nat}
    (nearest : Nearest s id name f nearer owner farther) (built : s.Built id) (isInstance : f.isStatic = false) :
    s.instanceField? id name = some f.decl := by
  have here : ((s.heap.cls owner).instanceFields.find? fun g => g.name.text == name) = some f.decl := by
    have some_ : ((s.heap.cls owner).instanceFields.find? fun g => g.name.text == name).isSome = true :=
      List.find?_isSome.2 ⟨f.decl, nearest.mem_instanceFields built isInstance, by simpa using nearest.isNamed⟩
    obtain ⟨g, found⟩ := Option.isSome_iff_exists.1 some_
    have member := (List.mem_filter.1 (List.mem_of_find?_eq_some found)).1
    rw [built.fields nearest.owner_mem] at member
    rw [found, nearest.only member (by simpa using List.find?_some found)]
  rw [State.instanceField?, Heap.lineage, nearest.chain, List.map_append, List.findSome?_append]
  have front : ((nearer.map s.heap.cls).findSome? fun c => c.instanceFields.find? fun f => f.name.text == name) = none := by
    refine List.findSome?_eq_none_iff.2 fun c member => ?_
    obtain ⟨c, inFront, rfl⟩ := List.mem_map.1 member
    exact (nearest.hidden c inFront).instanceField?
  rw [front, Option.none_or, List.map_cons, List.findSome?_cons, here]

/-- The instance fields of a class and its superclasses, in the order in which a new instance gives them their
initial values. -/
def State.initialOrder (s : State) (id : Nat) : List Field := (s.heap.lineage id).reverse.flatMap ClassDef.instanceFields

/-- A nearest field that is not static is the last of its name that is given its initial value. -/
theorem Nearest.initialOrder {f : FieldSymbol} {nearer farther : List Nat} {owner : Nat}
    (nearest : Nearest s id name f nearer owner farther) (built : s.Built id) (isInstance : f.isStatic = false) :
    ∃ before after, s.initialOrder id = before ++ f.decl :: after ∧ ∀ g ∈ after, g.name.text ≠ name := by
  obtain ⟨before, after, split⟩ := List.append_of_mem (nearest.mem_instanceFields built isInstance)
  have later : ∀ g ∈ after, g.name.text ≠ name := by
    intro g member isNamed
    have distinct : ((s.heap.cls owner).instanceFields.map (·.name.text)).Nodup := by
      rw [ClassDef.instanceFields, built.fields nearest.owner_mem]
      exact nearest.distinct.sublist (List.filter_sublist.map _)
    rw [split, List.map_append, List.map_cons, List.nodup_append] at distinct
    refine (List.nodup_cons.1 distinct.2.1).1 (List.mem_map.2 ⟨g, member, ?_⟩)
    rw [isNamed, nearest.isNamed]
  refine ⟨(farther.map s.heap.cls).reverse.flatMap ClassDef.instanceFields ++ before,
    after ++ (nearer.map s.heap.cls).reverse.flatMap ClassDef.instanceFields, ?_, fun g member => ?_⟩
  · rw [State.initialOrder, Heap.lineage, nearest.chain]
    simp [split]
  · rcases List.mem_append.1 member with member | member
    · exact later g member
    · obtain ⟨holder, inside, isOwn⟩ := List.mem_flatMap.1 member
      obtain ⟨c, inFront, rfl⟩ := List.mem_map.1 (List.mem_reverse.1 inside)
      have none := List.find?_eq_none.1 (nearest.hidden c inFront).instanceField? g isOwn
      simpa using none

/-! ## What accesses read, write and call -/

/-- Whether two lists have the same items. -/
def SameItems (a b : List String) : Prop := (∀ n ∈ a, n ∈ b) ∧ ∀ n ∈ b, n ∈ a

instance (a b : List String) : Decidable (SameItems a b) :=
  inferInstanceAs (Decidable ((∀ n ∈ a, n ∈ b) ∧ ∀ n ∈ b, n ∈ a))

/-- The names of the instance fields that a class and its superclasses declare. -/
def instanceFieldNames (r : Registry) (d : DeclSymbol) : List String :=
  (r.ancestors d).flatMap fun e => (e.fields.filter fun f => !f.isStatic).map (·.name)

/-- An object has the fields that its class and its superclasses declare, and no others. -/
def Filled (r : Registry) (d : DeclSymbol) (o : Object) : Prop := SameItems (o.fields.map (·.1)) (instanceFieldNames r d)

instance (r : Registry) (d : DeclSymbol) (o : Object) : Decidable (Filled r d o) :=
  inferInstanceAs (Decidable (SameItems _ _))

/-- Each class on a line has the static fields that it declares, and no others. -/
def State.Prepared (s : State) (id : Nat) : Prop :=
  ∀ c ∈ s.heap.chain id, SameItems ((s.heap.cls c).statics.map (·.1))
    (((s.heap.cls c).decl.fields.filter fun f => f.modifiers.isStatic).map (·.name.text))

instance (s : State) (id : Nat) : Decidable (s.Prepared id) :=
  inferInstanceAs (Decidable (∀ c ∈ s.heap.chain id, SameItems _ _))

theorem isSome_lookup {α : Type} (entries : List (String × α)) (name : String) :
    (entries.lookup name).isSome = true ↔ name ∈ entries.map (·.1) := by
  simp only [List.lookup_isSome_iff, List.mem_map, beq_iff_eq, eq_comm (a := name)]

/-- An object that has the fields of its class has a slot for each instance field, and for nothing else. -/
theorem Filled.field? {o : Object} (filled : Filled r d o) :
    (o.field? name).isSome = true ↔ ∃ e ∈ r.ancestors d, ∃ f ∈ e.fields, f.name = name ∧ f.isStatic = false := by
  have names : name ∈ instanceFieldNames r d ↔
      ∃ e ∈ r.ancestors d, ∃ f ∈ e.fields, f.name = name ∧ f.isStatic = false := by
    simp [instanceFieldNames, and_assoc, and_comm (a := FieldSymbol.isStatic _ = false)]
  rw [Object.field?, isSome_lookup, ← names]
  exact ⟨filled.1 name, filled.2 name⟩

/-- A class that has its static fields has a slot for each, and for nothing else. -/
theorem State.Prepared.static? (prepared : s.Prepared id) {c : Nat} (member : c ∈ s.heap.chain id) :
    ((s.heap.cls c).static? name).isSome = true ↔
      ∃ f ∈ (s.heap.cls c).decl.fields, f.name.text = name ∧ f.modifiers.isStatic = true := by
  have names : name ∈ ((s.heap.cls c).decl.fields.filter fun f => f.modifiers.isStatic).map (·.name.text) ↔
      ∃ f ∈ (s.heap.cls c).decl.fields, f.name.text = name ∧ f.modifiers.isStatic = true := by
    simp [and_assoc, and_comm (a := Modifiers.isStatic _ = true)]
  rw [ClassDef.static?, isSome_lookup, ← names]
  exact ⟨(prepared c member).1 name, (prepared c member).2 name⟩

/-- Reading a member of a value gives a value, and a call of the member calls that value. -/
structure ReadsAs (w : World) (s : State) (receiver : Value) (name : String) (v : Value) : Prop where
  get (k : Evaluator) (property : Name) : property.text = name → getMember k receiver property w s = (.ok v, s)
  call : calledField? receiver name w s = (.ok (some v), s)

/-- A member of an object stands for a field: it has the slot of that name, which the field gives its initial value
as the last of its name, and to which values of the type of the field are assigned. -/
structure InstanceSlot (w : World) (s : State) (object : Nat) (name : String) (f : Field) : Prop where
  initial : ∃ before after, s.initialOrder (s.heap.object object).cls = before ++ f :: after ∧
    ∀ g ∈ after, g.name.text ≠ name
  reads : ∃ v, (s.heap.object object).field? name = some v ∧ ReadsAs w s (.object object) name v
  assign (property : Name) (v : Value) : property.text = name →
    setMember (.object object) property v w s = setField object name (coerce f.type v) w s

/-- A member of a class stands for a static field: it has the slot of that name of the class that declares the
field, which declares no other of that name. -/
structure StaticSlot (w : World) (s : State) (id identity : Nat) (name : String) (f : FieldSymbol) (owner : Nat) :
    Prop where
  inLine : owner ∈ s.heap.chain id
  ownerName : (s.heap.cls owner).name = f.owner.name
  own : f.decl ∈ (s.heap.cls owner).decl.fields
  only : ∀ g ∈ (s.heap.cls owner).decl.fields, g.name.text = name → g = f.decl
  reads : ∃ v, (s.heap.cls owner).static? name = some v ∧ ReadsAs w s (.classRef id identity) name v
  assign (property : Name) (v : Value) : property.text = name →
    setMember (.classRef id identity) property v w s = modifyClass owner (fun c => c.setStatic name v) w s

/-- A member of a value stands for a method: it is the one that is found on the class, is read as a method of the
value, and is called by a call if it has a body. -/
structure Reaches (w : World) (s : State) (receiver : Value) (self : Option Value) (id : Nat) (name : String)
    (m : Method) : Prop where
  found : ∃ f, s.method? id name = some f ∧ f.decl = m ∧ f.owner.isSome = true ∧
    (m.body.isSome = true → ∀ k args span,
      callMethod k receiver name args span w s = invoke k f f.owner self args span w s)
  get (k : Evaluator) (property : Name) : property.text = name →
    getMember k receiver property w s = newMethod receiver name w s
  noField : calledField? receiver name w s = (.ok none, s)

/-! ## What typing finds is what a run finds -/

theorem field?_object (object : Nat) :
    field? (.object object) name w s = (.ok (((s.heap.object object).field? name).or
      ((s.instanceField? (s.heap.object object).cls name).map fun _ => .null)), s) := by
  simp only [field?, heap_bind_run]
  cases (s.heap.object object).field? name <;> rfl

theorem field?_class (identity : Nat) :
    field? (.classRef id identity) name w s = (.ok ((s.static? id name).map (·.2)), s) := rfl

theorem calledField?_object (object : Nat) :
    calledField? (.object object) name w s = (.ok ((s.heap.object object).field? name), s) := rfl

theorem calledField?_class (identity : Nat) :
    calledField? (.classRef id identity) name w s = (.ok ((s.static? id name).map (·.2)), s) := rfl

theorem hasMethod_object {k : Evaluator} {object : Nat} {f : FoundMethod}
    (finds : s.method? (s.heap.object object).cls name = some f) (isInstance : f.isStatic = false) :
    hasMethod k (.object object) name w s = (.ok true, s) := by
  simp only [hasMethod, heap_bind_run, method?_bind_run, finds, Option.any_some, isInstance, Bool.not_false, if_true]
  rfl

theorem hasMethod_class {k : Evaluator} (identity : Nat) :
    hasMethod k (.classRef id identity) name w s = (.ok ((s.method? id name).any FoundMethod.isStatic), s) := rfl

theorem getMember_field {receiver v : Value} {k : Evaluator} {property : Name} (some_ : receiver.isNull = false)
    (held : field? receiver property.text w s = (.ok (some v), s)) :
    getMember k receiver property w s = (.ok v, s) := by
  unfold getMember
  rw [some_, if_neg Bool.false_ne_true, bind_run, held]
  rfl

theorem getMember_method {receiver : Value} {k : Evaluator} {property : Name} (some_ : receiver.isNull = false)
    (lacks : field? receiver property.text w s = (.ok none, s))
    (has : hasMethod k receiver property.text w s = (.ok true, s)) :
    getMember k receiver property w s = newMethod receiver property.text w s := by
  unfold getMember
  rw [some_, if_neg Bool.false_ne_true, bind_run, lacks]
  dsimp only
  rw [bind_run, has]
  rfl

/-- An object that has a slot of a name reads and calls what is in it. -/
theorem readsAs_slot {object : Nat} {v : Value} (held : (s.heap.object object).field? name = some v) :
    ReadsAs w s (.object object) name v := by
  refine ⟨fun k property isNamed => getMember_field rfl ?_, ?_⟩
  · rw [field?_object, isNamed, held]
    rfl
  · rw [calledField?_object, held]

/-- A class of which a line has a static slot of a name reads and calls what is in it. -/
theorem readsAs_static {identity owner : Nat} {v : Value} (held : s.static? id name = some (owner, v)) :
    ReadsAs w s (.classRef id identity) name v := by
  refine ⟨fun k property isNamed => getMember_field rfl ?_, ?_⟩
  · rw [field?_class, isNamed, held]
    rfl
  · rw [calledField?_class, held]
    rfl

/-- A nearest field that is static has the nearest slot of its name. -/
theorem Nearest.static? {f : FieldSymbol} {nearer farther : List Nat} {owner : Nat}
    (nearest : Nearest s id name f nearer owner farther) (prepared : s.Prepared id) (isStatic : f.isStatic = true) :
    ∃ v, (s.heap.cls owner).static? name = some v ∧ s.static? id name = some (owner, v) := by
  obtain ⟨v, held⟩ := Option.isSome_iff_exists.1
    ((prepared.static? nearest.owner_mem).2 ⟨f.decl, nearest.own, nearest.isNamed, isStatic⟩)
  refine ⟨v, held, ?_⟩
  rw [State.static?, nearest.chain, List.findSome?_append, List.findSome?_cons, held]
  have front : (nearer.findSome? fun c => ((s.heap.cls c).static? name).map fun v => (c, v)) = none := by
    refine List.findSome?_eq_none_iff.2 fun c inFront => Option.map_eq_none_iff.2 ?_
    refine Option.not_isSome_iff_eq_none.1 fun held => ?_
    obtain ⟨g, member, isNamed, -⟩ := (prepared.static? (by rw [nearest.chain]; exact List.mem_append_left _ inFront)).1 held
    exact nearest.hidden c inFront g member isNamed
  rw [front]
  rfl

/-- Without a field of that name on the line, there is no static slot of it. -/
theorem static?_none (prepared : s.Prepared id) (lacks : ∀ c ∈ s.heap.chain id, s.Without name c) :
    s.static? id name = none := by
  refine List.findSome?_eq_none_iff.2 fun c inChain => Option.map_eq_none_iff.2 ?_
  refine Option.not_isSome_iff_eq_none.1 fun held => ?_
  obtain ⟨g, member, isNamed, -⟩ := (prepared.static? inChain).1 held
  exact lacks c inChain g member isNamed

section Line

variable (describes : r.Describes p) (named : ∀ d ∈ r, d.name ≠ "") (orderly : Orderly (.ofProgram p clock) s)
  (declared : d ∈ r) (names : s.Names id d.name) (built : s.Built id)
include describes named orderly declared names built

/-- The nearest method that typing finds is the one that the class finds. -/
theorem method?_of_classMethod? {m : MethodSymbol} (found : r.classMethod? d name = some m) :
    ∃ f, s.method? id name = some f ∧ f.decl = m.decl ∧ f.owner.isSome = true := by
  have own := ownMethod_decl describes named orderly declared names built name
  rw [found, Option.map_some] at own
  obtain ⟨f, finds, same⟩ := Option.map_eq_some_iff.1 own
  obtain ⟨owner, -, isOwner⟩ := owner_of_ownMethod? finds
  exact ⟨f, method?_of_own finds, same, by rw [isOwner]; rfl⟩

theorem instanceSlot_of_classField? (distinct : p.Distinct) {f : FieldSymbol} (found : r.classField? d name = some f)
    (isInstance : f.isStatic = false) {object : Nat} (isOf : (s.heap.object object).cls = id)
    (filled : Filled r d (s.heap.object object)) : InstanceSlot w s object name f.decl := by
  obtain ⟨nearer, owner, farther, nearest⟩ :=
    nearest_of_classField? describes named orderly declared names built distinct found
  obtain ⟨e, above, isField⟩ := List.exists_of_findSome?_eq_some found
  have isNamed : f.name = name := by simpa using List.find?_some isField
  obtain ⟨v, held⟩ := Option.isSome_iff_exists.1
    (filled.field?.2 ⟨e, above, f, List.mem_of_find?_eq_some isField, isNamed, isInstance⟩)
  refine ⟨isOf ▸ nearest.initialOrder built isInstance, ⟨v, held, readsAs_slot held⟩, fun property u same => ?_⟩
  have typed : s.instanceField? (s.heap.object object).cls property.text = some f.decl := by
    rw [isOf, same]
    exact nearest.instanceField? built isInstance
  show setField object property.text
    (coerce ((s.instanceField? (s.heap.object object).cls property.text).bind (·.type)) u) w s = _
  rw [typed, same]
  rfl

theorem staticSlot_of_classField? (distinct : p.Distinct) {f : FieldSymbol} (found : r.classField? d name = some f)
    (isStatic : f.isStatic = true) (prepared : s.Prepared id) (identity : Nat) :
    ∃ owner, StaticSlot w s id identity name f owner := by
  obtain ⟨nearer, owner, farther, nearest⟩ :=
    nearest_of_classField? describes named orderly declared names built distinct found
  obtain ⟨v, held, isNearest⟩ := nearest.static? prepared isStatic
  refine ⟨owner, nearest.owner_mem, nearest.ownerName, nearest.own, fun g => nearest.only,
    ⟨v, held, readsAs_static isNearest⟩, fun property u same => ?_⟩
  have read {α : Type} (f : State → Run α) : ((get : Run State) >>= f) w s = f s w s := rfl
  unfold setMember
  dsimp only
  rw [read, same, isNearest]

theorem reaches_object {m : MethodSymbol} (lacks : r.classField? d name = none)
    (found : r.classMethod? d name = some m) (isInstance : m.isStatic = false) {object : Nat}
    (isOf : (s.heap.object object).cls = id) (filled : Filled r d (s.heap.object object)) :
    Reaches w s (.object object) (some (.object object)) id name m.decl := by
  have without := without_of_classField? describes named orderly declared names built lacks
  obtain ⟨f, finds, same, isOwn⟩ := method?_of_classMethod? describes named orderly declared names built found
  have instance_ : f.isStatic = false := by
    rw [FoundMethod.isStatic, same]
    exact isInstance
  have empty : (s.heap.object object).field? name = none := by
    refine Option.not_isSome_iff_eq_none.1 fun held => ?_
    obtain ⟨e, above, g, isField, isNamed, -⟩ := filled.field?.1 held
    have none := List.find?_eq_none.1 (List.findSome?_eq_none_iff.1 lacks e above) g isField
    exact none (by simpa using isNamed)
  refine ⟨⟨f, finds, same, isOwn, fun body k args span => ?_⟩, fun k property isNamed => ?_, ?_⟩
  · show callObject k object name args span w s = _
    rw [callObject, heap_bind_run, heap_bind_run, method?_bind_run, isOf, finds]
    have hasBody : f.hasBody = true := by
      rw [FoundMethod.hasBody, same]
      exact body
    simp only [Option.filter_some, instance_, hasBody, Bool.not_false, if_true]
    obtain ⟨owner, isOwner⟩ := Option.isSome_iff_exists.1 isOwn
    unfold invoke
    rw [isOwner]
    rfl
  · subst isNamed
    refine getMember_method rfl ?_ (hasMethod_object (isOf ▸ finds) instance_)
    rw [field?_object, empty, isOf, instanceField?_none without]
    rfl
  · rw [calledField?_object, empty]

theorem reaches_class {m : MethodSymbol} (lacks : r.classField? d name = none)
    (found : r.classMethod? d name = some m) (isStatic : m.isStatic = true) (prepared : s.Prepared id) (identity : Nat) :
    Reaches w s (.classRef id identity) none id name m.decl := by
  have without := without_of_classField? describes named orderly declared names built lacks
  have empty := static?_none prepared without
  obtain ⟨f, finds, same, isOwn⟩ := method?_of_classMethod? describes named orderly declared names built found
  have static_ : f.isStatic = true := by
    rw [FoundMethod.isStatic, same]
    exact isStatic
  refine ⟨⟨f, finds, same, isOwn, fun body k args span => ?_⟩, fun k property isNamed => ?_, ?_⟩
  · show callStatic k id name args span w s = _
    rw [callStatic, heap_bind_run, method?_bind_run, finds]
    have hasBody : f.hasBody = true := by
      rw [FoundMethod.hasBody, same]
      exact body
    simp only [Option.filter_some, static_, hasBody, if_true]
  · subst isNamed
    refine getMember_method rfl ?_ ?_
    · rw [field?_class, empty]
      rfl
    · rw [hasMethod_class, finds, Option.any_some, static_]
  · rw [calledField?_class, empty]
    rfl

end Line

/-- A member of an object of a class stands at run time for what typing has found. -/
def ResolvesOn (w : World) (s : State) (object id : Nat) (name : String) : Typing.MemberSymbol → Prop
  | .field f => InstanceSlot w s object name f.decl
  | .method m => Reaches w s (.object object) (some (.object object)) id name m.decl

/-- A member of a class stands at run time for what typing has found. -/
def ResolvesThrough (w : World) (s : State) (id identity : Nat) (name : String) : Typing.MemberSymbol → Prop
  | .field f => ∃ owner, StaticSlot w s id identity name f owner
  | .method m => Reaches w s (.classRef id identity) none id name m.decl

end Evaluation

open Typing in
/-- In an orderly state, typing and a run find the same declarations on a class that is built: the same constructor,
if there is one; and for a member that typing lets be used, on an object that has the fields of the class, or on the
class itself if it has its static fields, the slot of that field or that method. -/
theorem members_resolve_alike {p : LinkedProgram} {c : Checked} (accepted : p.check = .ok c) (named : p.Named)
    (distinct : p.Distinct) {clock : Float} {s : State} (orderly : Orderly (.ofProgram p clock) s) {d : DeclSymbol}
    (declared : d ∈ c.registry) (isClass : d.nominal.isInterface = false) {id : Nat} (names : s.Names id d.name)
    (built : s.Built id) :
    (s.constructor? id).map (·.decl) = (c.registry.constructor? d).map (·.decl) ∧
      ∀ ctx, ctx.registry = c.registry → ∀ scope args name span member,
        (Gives (useMember scope ⟨d, args, false⟩ name span) ctx member →
          ∀ object, (s.heap.object object).cls = id → Filled c.registry d (s.heap.object object) →
            ResolvesOn (.ofProgram p clock) s object id name member.symbol) ∧
        (Gives (useMember scope ⟨d, args, true⟩ name span) ctx member → s.Prepared id →
          ∀ identity, ResolvesThrough (.ofProgram p clock) s id identity name member.symbol) := by
  have describes := describes_of_check accepted
  have nonempty := named_of_describes describes named
  refine ⟨constructor?_decl describes nonempty orderly declared names built, fun ctx same scope args name span member => ?_⟩
  constructor
  · intro gives object isOf filled
    obtain ⟨⟨subst, found⟩, isInstance⟩ := gives_useMember gives
    rw [same] at found
    rcases member?_class isClass found with ⟨f, isField, found⟩ | ⟨m, isMethod, lacks, found⟩
    · rw [isField] at isInstance ⊢
      exact instanceSlot_of_classField? describes nonempty orderly declared names built distinct found isInstance isOf filled
    · rw [isMethod] at isInstance ⊢
      exact reaches_object describes nonempty orderly declared names built lacks found isInstance isOf filled
  · intro gives prepared identity
    obtain ⟨⟨subst, found⟩, isStatic⟩ := gives_useMember gives
    rw [same] at found
    rcases member?_class isClass found with ⟨f, isField, found⟩ | ⟨m, isMethod, lacks, found⟩
    · rw [isField] at isStatic ⊢
      exact staticSlot_of_classField? describes nonempty orderly declared names built distinct found isStatic prepared identity
    · rw [isMethod] at isStatic ⊢
      exact reaches_class describes nonempty orderly declared names built lacks found isStatic prepared identity

/-! ## Members that are hidden, and members that are not there yet -/

/-- `class Base { public x = null; public static y = null; public go() { } }`,
`class D extends Base { public x = true; public static go() { } }`, `new D();` -/
def layered : LinkedProgram :=
  .ofProgram ⟨"main.clasp",
    [.declares (cls "Base" none [field "x" (.null default), static "y" (.null default)] [method false "go" [] []]),
      .declares (cls "D" (some "Base") [field "x" (.boolean default true)] [method true "go" [] []]),
      .does default (.create default (.simple default "D" false) [])],
    default⟩

/-- The member of a declaration that may be used at top level, through an instance or through the class. -/
def Checked.uses? (c : Checked) (d : DeclSymbol) (isStatic : Bool) (name : String) : Option Typing.MemberSymbol :=
  ((Typing.useMember .global ⟨d, [], isStatic⟩ name Span.none) ⟨c.registry, "main.clasp", [], .void⟩ ⟨0, [], []⟩).toOption.map
    (·.1.symbol)

theorem gives_of_uses? {c : Checked} {d : DeclSymbol} {isStatic : Bool} {name : String} {symbol : Typing.MemberSymbol}
    (uses : c.uses? d isStatic name = some symbol) :
    ∃ ctx member, ctx.registry = c.registry ∧ member.symbol = symbol ∧
      Typing.Gives (Typing.useMember .global ⟨d, [], isStatic⟩ name Span.none) ctx member := by
  obtain ⟨⟨member, progress⟩, ran, same⟩ := Option.map_eq_some_iff.1 uses
  exact ⟨⟨c.registry, "main.clasp", [], .void⟩, member, rfl, same, Typing.gives_of_run (by rw [ran]; rfl)⟩

/-- Whether a member is a field. -/
def Typing.MemberSymbol.isField : Typing.MemberSymbol → Bool
  | .field _ => true
  | .method _ => false

/-- The class `D` has an instance field `x`, which the object has, a static field `y` and a static method `go`. -/
abbrev Checked.Layers (c : Checked) (o : Object) : Prop :=
  ∃ d ∈ c.registry, d.name = "D" ∧ d.nominal.isInterface = false ∧ Filled c.registry d o ∧
    (c.uses? d false "x").any (·.isField) = true ∧ (c.uses? d true "y").any (·.isField) = true ∧
      (c.uses? d true "go").any (fun m => !m.isField) = true

theorem layered_resolves :
    (∃ f, InstanceSlot (.ofProgram layered 0) (finalState layered) 0 "x" f) ∧
      (∃ f owner, StaticSlot (.ofProgram layered 0) (finalState layered) 0 0 "y" f owner) ∧
      ∃ m, Reaches (.ofProgram layered 0) (finalState layered) (.classRef 0 0) none 0 "go" m := by
  obtain ⟨c, accepted, d, declared, isD, isClass, filled, hasX, hasY, hasGo⟩ :=
    exists_accepted (p := layered) (P := fun c => c.Layers ((finalState layered).heap.object 0)) (by decide +kernel)
  obtain ⟨orderly, names, built⟩ := finalState_built 0 d.name accepted (by decide +kernel)
    (by decide +kernel) (by rw [isD]; decide +kernel)
  have here : ((finalState layered).heap.object 0).cls = 0 := by decide +kernel
  have prepared : (finalState layered).Prepared 0 := by decide +kernel
  generalize finalState layered = s at orderly names built filled here prepared ⊢
  have alike := (members_resolve_alike accepted (by decide +kernel) (by decide +kernel) orderly declared isClass names
    built).2
  obtain ⟨x, usesX, isX⟩ := (Option.any_eq_true _ _).1 hasX
  obtain ⟨y, usesY, isY⟩ := (Option.any_eq_true _ _).1 hasY
  obtain ⟨go, usesGo, isGo⟩ := (Option.any_eq_true _ _).1 hasGo
  obtain ⟨ctx, member, same, rfl, gives⟩ := gives_of_uses? usesX
  obtain ⟨ctx', member', same', rfl, gives'⟩ := gives_of_uses? usesY
  obtain ⟨ctx'', member'', same'', rfl, gives''⟩ := gives_of_uses? usesGo
  have onX := (alike ctx same _ _ _ _ member).1 gives 0 here filled
  have onY := (alike ctx' same' _ _ _ _ member').2 gives' prepared 0
  have onGo := (alike ctx'' same'' _ _ _ _ member'').2 gives'' prepared 0
  refine ⟨?_, ?_, ?_⟩
  · cases symbol : member.symbol with
    | field f => rw [symbol] at onX; exact ⟨f.decl, onX⟩
    | method m => rw [symbol] at isX; cases isX
  · cases symbol : member'.symbol with
    | field f => rw [symbol] at onY; exact ⟨f, onY⟩
    | method m => rw [symbol] at isY; cases isY
  · cases symbol : member''.symbol with
    | field f => rw [symbol] at isGo; cases isGo
    | method m => rw [symbol] at onGo; exact ⟨m.decl, onGo⟩

/-- `class Maker { public static make() { let d = new D(); d.go(); } }`,
`class C { public static x = Maker.make(); public go() { } }`, `class D extends C { public go() { } }`, `new D();` -/
def rushing : LinkedProgram :=
  .ofProgram ⟨"main.clasp",
    [.declares (cls "Maker" none []
        [method true "make" []
          [.binds default (named "d") none (some (.create default (.simple default "D" false) [])),
            .does default (call "d" "go" [])]]),
      .declares (cls "C" none [static "x" (call "Maker" "make" [])] [method false "go" [] []]),
      .declares (cls "D" (some "C") [] [method false "go" [] []]),
      .does default (.create default (.simple default "D" false) [])],
    default⟩

/-- The class `D` has an instance method `go` and no instance fields, as the object has none. -/
abbrev Checked.Goes (c : Checked) (o : Object) : Prop :=
  ∃ d ∈ c.registry, d.name = "D" ∧ Filled c.registry d o ∧ (c.uses? d false "go").any (fun m => !m.isField) = true

/-- While the superclass of `D` is being built, `D` has no members: a call on an instance of it, which has all fields
that it should have, misses the method that typing finds. -/
theorem unfinished_class_lacks_method :
    (∃ c, rushing.check = .ok c ∧ c.Goes ((finalState rushing).heap.object 0)) ∧
      (failure? ((Interpreter.new 0 none).run rushing)).map (·.code) = some "R002" ∧
      (failure? ((Interpreter.new 0 none).run rushing)).map (·.message) = some "D has no method go" ∧
      ((finalState rushing).heap.object 0).cls = 0 ∧ ((finalState rushing).heap.cls 0).name = "D" ∧
      ((finalState rushing).method? 0 "go").isNone = true := by
  refine ⟨exists_accepted ?_, ?_, ?_, ?_, ?_, ?_⟩ <;> decide +kernel

end ClassScript
