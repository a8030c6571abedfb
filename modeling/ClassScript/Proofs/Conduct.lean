import ClassScript.Proofs.HostWork
import ClassScript.Proofs.Sites
import ClassScript.Proofs.Steady

/-!
How evaluation conducts itself. Between two steps the classes and interfaces that have been built agree
with their declarations, and closures hold code of the program (`Orderly`). A computation keeps this, never
takes back what it has built (`Later`), and fails only at a node that the file answers for (`Ends`). The
rules of this module say so for reading, changing and restoring the state and for sequences
(`conducts_bind`); a fact about an earlier state stays usable because later states keep it.
-/

namespace ClassScript

/-! ## Where failures may be placed -/

namespace LinkedProgram

/-- A file answers for a node that stands in one of its statements, and every file for a node in code that
is carried along. -/
def AnswersFor (p : LinkedProgram) (file : String) (n : Node) : Prop :=
  ∃ s ∈ p.statements, ∃ site ∈ s.statement.sites, site.node = n ∧ (site.carried = false → s.file = file)

/-- Code with these sites may run in a file. -/
def Sanctions (p : LinkedProgram) (file : String) (sites : List Site) : Prop :=
  ∀ site ∈ sites, ∀ f, (site.carried = false → f = file) → p.AnswersFor f site.node

/-- A failure in a file may be placed at a span: it is that of a node, or was never set. -/
def Excuses (p : LinkedProgram) (file : String) (span : Span) : Prop :=
  span = Span.none ∨ ∃ n, n.span = span ∧ p.AnswersFor file n

variable {p : LinkedProgram} {file : String} {sites rest : List Site}

@[simp] theorem sanctions_nil : p.Sanctions file [] := fun _ member => absurd member List.not_mem_nil

@[simp] theorem sanctions_append :
    p.Sanctions file (sites ++ rest) ↔ p.Sanctions file sites ∧ p.Sanctions file rest := by
  simp only [Sanctions, List.mem_append, or_imp, forall_and]

@[simp] theorem sanctions_home {n : Node} :
    p.Sanctions file (.home n :: rest) ↔ p.AnswersFor file n ∧ p.Sanctions file rest := by
  simp [Sanctions, Site.home]

theorem Sanctions.subset (sanctions : p.Sanctions file rest) (subset : sites ⊆ rest) : p.Sanctions file sites :=
  fun site member => sanctions site (subset member)

/-- Code that is carried along may run in every file. -/
@[simp] theorem sanctions_carry : p.Sanctions file (sites.map Site.carry) ↔ ∀ f, p.Sanctions f sites := by
  constructor
  · intro sanctions f site member g _
    exact sanctions site.carry (List.mem_map_of_mem member) g (by simp [Site.carry])
  · intro sanctions site member f _
    obtain ⟨inner, within, rfl⟩ := List.mem_map.1 member
    exact sanctions f inner within f fun _ => rfl

theorem AnswersFor.excuses {n : Node} (answers : p.AnswersFor file n) : p.Excuses file n.span :=
  .inr ⟨n, rfl, answers⟩

end LinkedProgram

/-! ## What later states keep -/

/-- A class without its static fields, which are all that changes once it is built. -/
def ClassDef.core (c : ClassDef) : ClassDef := { c with statics := [] }

theorem ClassDef.core_inj {c d : ClassDef} (same : c.core = d.core) :
    c.name = d.name ∧ c.file = d.file ∧ c.decl = d.decl ∧ c.parent = d.parent ∧ c.interfaces = d.interfaces ∧
      c.hasMembers = d.hasMembers := by
  simp only [ClassDef.core, ClassDef.mk.injEq] at same
  obtain ⟨name, file, decl, parent, interfaces, hasMembers, -⟩ := same
  exact ⟨name, file, decl, parent, interfaces, hasMembers⟩

namespace Evaluation

/-- The name of the superclass that a declaration names. -/
def superclassName? (d : Declaration) : Option String :=
  match d.heading with
  | .ofClass _ (some t) _ => some (headName t)
  | _ => none

/-- The names of the interfaces that a declaration implements or extends. -/
def interfaceNames (d : Declaration) : List String :=
  match d.heading with
  | .ofClass _ _ interfaces => interfaces.map headName
  | .ofInterface parents => parents.map headName

namespace State

/-- There is a class of that number and name. -/
def Names (s : State) (id : Nat) (name : String) : Prop := ∃ c, s.heap.classes[id]? = some c ∧ c.name = name

/-- There is an interface of that name. -/
def Offers (s : State) (name : String) : Prop := (s.interface? name).isSome

end State

/-- A later state: the classes of the earlier one are as they were, up to their static fields, and its
interfaces are still there. -/
structure Later (s s' : State) : Prop where
  classes {id : Nat} {c : ClassDef} :
    s.heap.classes[id]? = some c → ∃ c', s'.heap.classes[id]? = some c' ∧ c'.core = c.core
  interfaces {name : String} {i : InterfaceDef} : s.interface? name = some i → s'.interface? name = some i

theorem Later.refl (s : State) : Later s s := ⟨fun found => ⟨_, found, rfl⟩, id⟩

theorem Later.trans {s t u : State} (first : Later s t) (second : Later t u) : Later s u where
  classes found := by
    obtain ⟨c, found, same⟩ := first.classes found
    obtain ⟨c', found', same'⟩ := second.classes found
    exact ⟨c', found', same'.trans same⟩
  interfaces found := second.interfaces (first.interfaces found)

theorem Later.size_le {s s' : State} (later : Later s s') : s.heap.classes.size ≤ s'.heap.classes.size := by
  rcases Nat.eq_zero_or_pos s.heap.classes.size with none | some
  · omega
  · have last : s.heap.classes.size - 1 < s.heap.classes.size := by omega
    obtain ⟨c, found, -⟩ := later.classes (Array.getElem?_eq_getElem last)
    have := (Array.getElem?_eq_some_iff.1 found).1
    omega

theorem Later.names {s s' : State} (later : Later s s') {id : Nat} {name : String} (names : s.Names id name) :
    s'.Names id name := by
  obtain ⟨c, found, rfl⟩ := names
  obtain ⟨c', found', same⟩ := later.classes found
  exact ⟨c', found', (ClassDef.core_inj same).1⟩

theorem Later.offers {s s' : State} (later : Later s s') {name : String} (offers : s.Offers name) :
    s'.Offers name := by
  obtain ⟨i, found⟩ := Option.isSome_iff_exists.1 offers
  exact Option.isSome_iff_exists.2 ⟨i, later.interfaces found⟩

/-- Classes that are unfinished later were there before. -/
def Settled (s s' : State) : Prop :=
  ∀ id c, s'.heap.classes[id]? = some c → c.hasMembers = false → id < s.heap.classes.size

theorem settled_of_later {s s' : State} (later : Later s' s) : Settled s s' := by
  intro id c found _
  exact Nat.lt_of_lt_of_le (Array.getElem?_eq_some_iff.1 found).1 later.size_le

theorem Settled.trans {s t u : State} (first : Settled s t) (second : Settled t u) (later : Later t u) :
    Settled s u := by
  intro id c found unfinished
  have early := second id c found unfinished
  obtain ⟨c', found', same⟩ := later.classes (Array.getElem?_eq_getElem early)
  obtain rfl := Option.some.inj (found.symm.trans found')
  have unfinished' : t.heap.classes[id].hasMembers = false := by
    rw [← (ClassDef.core_inj same).2.2.2.2.2, unfinished]
  exact first id _ (Array.getElem?_eq_getElem early) unfinished'

/-! ## What holds between two steps -/

/-- A class agrees with its declaration as far as it has been built. -/
structure Arranged (w : World) (s : State) (c : ClassDef) : Prop where
  declared : w.class? c.name = some (c.file, c.decl)
  parent {p : Nat} : c.parent = some p → ∃ name, superclassName? c.decl = some name ∧ s.Names p name
  interfaces : ∀ name ∈ c.interfaces, s.Offers name
  finished : c.hasMembers = true →
    (∀ name, superclassName? c.decl = some name → name ≠ "" → c.parent.isSome) ∧
      c.interfaces = interfaceNames c.decl

/-- An interface is the declared one, with all those it extends. -/
structure Complete (w : World) (s : State) (i : InterfaceDef) : Prop where
  declared : w.interface? i.name = some i.decl
  parents : i.parents = interfaceNames i.decl
  known : ∀ name ∈ i.parents, s.Offers name

/-- The sites of the code in a closure. -/
def closureSites (c : Closure) : List Site := Param.sitesAll c.params ++ c.body.sites

/-- Classes and interfaces agree with their declarations, and closures hold code of the program. -/
structure Orderly (w : World) (s : State) : Prop where
  known : ∀ entry ∈ s.classes, s.Names entry.2 entry.1
  classes {id : Nat} {c : ClassDef} : s.heap.classes[id]? = some c → Arranged w s c
  interfaces {name : String} {i : InterfaceDef} : s.interface? name = some i → Complete w s i
  closures {id : Nat} {c : Closure} :
    s.heap.closures[id]? = some c → ∀ file, w.program.Sanctions file (closureSites c)

/-- What the declarations of a world promise: they are those of its program, and the supertypes that they
name are there. -/
structure World.Linked (w : World) : Prop where
  declared : ∀ d ∈ w.declarations, d ∈ w.program.declarations
  superclass : ∀ d ∈ w.declarations, ∀ name, superclassName? d.2 = some name → (w.class? name).isSome
  interfaces : ∀ d ∈ w.declarations, ∀ name ∈ interfaceNames d.2, (w.interface? name).isSome

theorem Arranged.mono {w : World} {s s' : State} {c : ClassDef} (arranged : Arranged w s c)
    (names : ∀ id name, s.Names id name → s'.Names id name) (offers : ∀ name, s.Offers name → s'.Offers name) :
    Arranged w s' c where
  declared := arranged.declared
  parent same := by
    obtain ⟨name, written, named⟩ := arranged.parent same
    exact ⟨name, written, names _ _ named⟩
  interfaces name member := offers name (arranged.interfaces name member)
  finished := arranged.finished

theorem Complete.mono {w : World} {s s' : State} {i : InterfaceDef} (complete : Complete w s i)
    (offers : ∀ name, s.Offers name → s'.Offers name) : Complete w s' i :=
  ⟨complete.declared, complete.parents, fun name member => offers name (complete.known name member)⟩

theorem arranged_of_core {w : World} {s : State} {c c' : ClassDef} (same : c'.core = c.core)
    (arranged : Arranged w s c) : Arranged w s c' := by
  obtain ⟨name, file, decl, parent, interfaces, hasMembers⟩ := ClassDef.core_inj same
  constructor
  · rw [name, file, decl]; exact arranged.declared
  · rw [parent, decl]; exact arranged.parent
  · rw [interfaces]; exact arranged.interfaces
  · rw [hasMembers, parent, interfaces, decl]; exact arranged.finished

/-- A change that leaves classes as they are up to static fields, and closures and interfaces entirely. -/
structure Unaffected (s s' : State) : Prop where
  classes : ∀ id : Nat, s'.heap.classes[id]?.map ClassDef.core = s.heap.classes[id]?.map ClassDef.core
  closures : s'.heap.closures = s.heap.closures
  known : s'.classes = s.classes
  interfaces : s'.interfaces = s.interfaces

theorem Unaffected.symm {s s' : State} (same : Unaffected s s') : Unaffected s' s :=
  ⟨fun id => (same.classes id).symm, same.closures.symm, same.known.symm, same.interfaces.symm⟩

theorem unaffected_rfl {s s' : State} (heap : s'.heap.classes = s.heap.classes)
    (closures : s'.heap.closures = s.heap.closures) (known : s'.classes = s.classes)
    (interfaces : s'.interfaces = s.interfaces) : Unaffected s s' :=
  ⟨fun id => by rw [heap], closures, known, interfaces⟩

theorem Unaffected.later {s s' : State} (same : Unaffected s s') : Later s s' where
  classes {id c} found := by
    have core := same.classes id
    rw [found, Option.map_some] at core
    obtain ⟨c', found', core⟩ := Option.map_eq_some_iff.1 core
    exact ⟨c', found', core⟩
  interfaces found := by rw [State.interface?, same.interfaces]; exact found

theorem Unaffected.orderly {w : World} {s s' : State} (same : Unaffected s s') (orderly : Orderly w s) :
    Orderly w s' where
  known entry member := same.later.names (orderly.known entry (same.known ▸ member))
  classes found := by
    obtain ⟨c, found', core⟩ := same.symm.later.classes found
    refine (arranged_of_core core.symm (orderly.classes found')).mono ?_ ?_
    · exact fun _ _ => same.later.names
    · exact fun _ => same.later.offers
  interfaces found :=
    (orderly.interfaces (same.symm.later.interfaces found)).mono fun _ => same.later.offers
  closures found := orderly.closures (same.closures ▸ found)

/-! ## How computations end -/

/-- No element of a program names a class, so that no failure is covered up. -/
def World.Plain (w : World) : Prop :=
  ∀ file e, w.program.AnswersFor file (.expr (.markup e)) → (w.class? e.tag).isNone

/-- What holds after a computation that began in `s`, whether it succeeds or fails. -/
structure Kept (w : World) (s s' : State) : Prop where
  later : Later s s'
  orderly : Orderly w s'
  file : s'.file = s.file

theorem Kept.trans {w : World} {s t u : State} (first : Kept w s t) (second : Kept w t u) : Kept w s u :=
  ⟨first.later.trans second.later, second.orderly, second.file.trans first.file⟩

variable {α β : Type} {w : World} {s₀ s : State} {file : String} {Q : State → α → Prop} {R : State → β → Prop}

/-- How a computation may end that began in `s`. If it succeeds, classes that it began to build are
finished, unless a failure was covered up; if it fails, the failure is placed at a node that its file
answers for. -/
def Ends (w : World) (s : State) (Q : State → α → Prop) : Except Stop α × State → Prop
  | (.ok a, s') => Kept w s s' ∧ (w.Plain → Settled s s') ∧ Q s' a
  | (.error (.failed d), s') =>
    Kept w s s' ∧ (d.kind = .execution → w.program.Excuses d.file d.span)
  | (.error _, _) => True

/-- A computation that begins in an orderly state not earlier than `s₀`, with failures attributed to
`file`, ends as it should. -/
def Conducts (w : World) (s₀ : State) (file : String) (x : Run α) (Q : State → α → Prop) : Prop :=
  ∀ s, Later s₀ s → Orderly w s → s.file = file → Ends w s Q (x w s)

/-- A result about which nothing is known. -/
def Anything (_ : State) (_ : α) : Prop := True

theorem Ends.imp {r : Except Stop α × State} {Q' : State → α → Prop} (ends : Ends w s Q r)
    (implies : ∀ s' a, Later s s' → Q s' a → Q' s' a) : Ends w s Q' r := by
  rcases r with ⟨(d | _ | _) | a, s'⟩
  · exact ends
  · trivial
  · trivial
  · exact ⟨ends.1, ends.2.1, implies _ _ ends.1.later ends.2.2⟩

theorem Conducts.mono {x : Run α} (conducts : Conducts w s₀ file x Q) (later : Later s₀ s) :
    Conducts w s file x Q :=
  fun t after orderly same => conducts t (later.trans after) orderly same

theorem Conducts.imp {x : Run α} {Q' : State → α → Prop} (conducts : Conducts w s₀ file x Q)
    (implies : ∀ s a, Later s₀ s → Q s a → Q' s a) : Conducts w s₀ file x Q' :=
  fun s later orderly same =>
    (conducts s later orderly same).imp fun s' a after => implies s' a (later.trans after)

theorem Conducts.anything {x : Run α} (conducts : Conducts w s₀ file x Q) : Conducts w s₀ file x Anything :=
  conducts.imp fun _ _ _ _ => trivial

/-! ## Sequences -/

theorem conducts_bind {x : Run α} {f : α → Run β} (first : Conducts w s₀ file x Q)
    (rest : ∀ s a, Later s₀ s → Q s a → Conducts w s file (f a) R) : Conducts w s₀ file (x >>= f) R := by
  intro s later orderly same
  have begun := first s later orderly same
  rw [bind_run]
  rcases ran : x w s with ⟨(d | _ | _) | a, s'⟩
  · rw [ran] at begun
    exact begun
  · trivial
  · trivial
  · rw [ran] at begun
    obtain ⟨kept, settled, holds⟩ := begun
    have ended := rest s' a (later.trans kept.later) holds s' (Later.refl s') kept.orderly (kept.file.trans same)
    dsimp only
    rcases rest : f a w s' with ⟨(d | _ | _) | b, s''⟩
    · rw [rest] at ended
      exact ⟨kept.trans ended.1, ended.2⟩
    · trivial
    · trivial
    · rw [rest] at ended
      obtain ⟨kept', settled', holds'⟩ := ended
      exact ⟨kept.trans kept', fun plain => (settled plain).trans (settled' plain) kept'.later, holds'⟩

/-- A sequence of which the second part needs to know nothing about the state after the first. -/
theorem conducts_seq {x : Run α} {f : α → Run β} (first : Conducts w s₀ file x Q)
    (rest : ∀ a, Conducts w s₀ file (f a) R) : Conducts w s₀ file (x >>= f) R :=
  conducts_bind first fun _ a later _ => (rest a).mono later

/-- A change of state that affects nothing ends as it should. -/
theorem ends_ok {s' : State} {a : α} (same : Unaffected s s') (orderly : Orderly w s) (file : s'.file = s.file)
    (holds : Q s' a) : Ends w s Q (.ok a, s') :=
  ⟨⟨same.later, same.orderly orderly, file⟩, fun _ => settled_of_later same.symm.later, holds⟩

theorem ends_failed {d : Diagnostic} (orderly : Orderly w s)
    (excused : d.kind = .execution → w.program.Excuses d.file d.span) :
    Ends w s Q (.error (.failed d), s) :=
  ⟨⟨Later.refl s, orderly, rfl⟩, excused⟩

private theorem unaffected_self (s : State) : Unaffected s s := unaffected_rfl rfl rfl rfl rfl

theorem conducts_pure {a : α} (holds : ∀ s, Later s₀ s → Orderly w s → Q s a) : Conducts w s₀ file (pure a) Q :=
  fun s later orderly _ => ends_ok (unaffected_self s) orderly rfl (holds s later orderly)

theorem conducts_return (a : α) : Conducts w s₀ file (pure a) Anything := conducts_pure fun _ _ _ => trivial

theorem conducts_forM {items : List β} {f : β → Run PUnit}
    (each : ∀ b ∈ items, Conducts w s₀ file (f b) Anything) : Conducts w s₀ file (items.forM f) Anything := by
  induction items with
  | nil => exact conducts_return _
  | cons b items ih =>
    refine conducts_seq (each b List.mem_cons_self) fun _ => ih fun b member => ?_
    exact each b (List.mem_cons_of_mem _ member)

theorem conducts_mapM {items : List β} {f : β → Run α} (each : ∀ b ∈ items, Conducts w s₀ file (f b) Anything) :
    Conducts w s₀ file (items.mapM f) Anything := by
  induction items with
  | nil => rw [List.mapM_nil]; exact conducts_return _
  | cons b items ih =>
    rw [List.mapM_cons]
    refine conducts_seq (each b List.mem_cons_self) fun _ => conducts_seq (ih fun b member => ?_) fun _ =>
      conducts_return _
    exact each b (List.mem_cons_of_mem _ member)

/-! ## Reading and changing the state -/

/-- The state that is read is orderly. -/
theorem conducts_get : Conducts w s₀ file (get : Run State) fun s a => a = s ∧ Orderly w s :=
  fun s _ orderly _ => ends_ok (unaffected_self s) orderly rfl ⟨rfl, orderly⟩

theorem conducts_read : Conducts w s₀ file (read : Run World) fun _ a => a = w :=
  fun s _ orderly _ => ends_ok (unaffected_self s) orderly rfl rfl

theorem conducts_heap : Conducts w s₀ file heap fun s h => h = s.heap ∧ Orderly w s :=
  fun s _ orderly _ => ends_ok (unaffected_self s) orderly rfl ⟨rfl, orderly⟩

theorem conducts_modifyGet {f : State → α × State} (same : ∀ s, Unaffected s (f s).2)
    (files : ∀ s, (f s).2.file = s.file) : Conducts w s₀ file (modifyGet f : Run α) Anything :=
  fun s _ orderly _ => ends_ok (same s) orderly (files s) trivial

theorem conducts_modify {f : State → State} (same : ∀ s, Unaffected s (f s)) (files : ∀ s, (f s).file = s.file) :
    Conducts w s₀ file (modify f : Run PUnit) Anything := conducts_modifyGet same files

theorem conducts_noteInitial : Conducts w s₀ file noteInitial Anything :=
  conducts_modify (fun _ => unaffected_rfl rfl rfl rfl rfl) fun _ => rfl

theorem conducts_noteTurn : Conducts w s₀ file noteTurn Anything :=
  conducts_modify (fun _ => unaffected_rfl rfl rfl rfl rfl) fun _ => rfl

/-- A change of the heap that leaves classes and closures alone. -/
theorem conducts_modifyHeap {f : Heap → Heap} (classes : ∀ h, (f h).classes = h.classes)
    (closures : ∀ h, (f h).closures = h.closures) : Conducts w s₀ file (modifyHeap f) Anything :=
  conducts_modify (fun s => unaffected_rfl (classes s.heap) (closures s.heap) rfl rfl) fun _ => rfl

theorem conducts_endless : Conducts w s₀ file (throw .endless : Run α) Q := fun _ _ _ _ => trivial

theorem conducts_fail {span : Span} {fault : RunFault} (excused : w.program.Excuses file span) :
    Conducts w s₀ file (fail span fault : Run α) Q := by
  intro s _ orderly same
  exact ends_failed orderly fun _ => same ▸ excused

/-- A fault of the host may be placed anywhere. -/
theorem conducts_failNative {span : Span} {fault : RunFault} (native : fault.kind ≠ .execution) :
    Conducts w s₀ file (fail span fault : Run α) Q :=
  fun _ _ orderly _ => ends_failed orderly fun kind => absurd kind native

/-- What follows a failure does not matter. -/
theorem conducts_fail_bind {span : Span} {fault : RunFault} {f : α → Run β}
    (excused : w.program.Excuses file span) : Conducts w s₀ file (fail span fault >>= f) R :=
  conducts_bind (Q := fun _ _ => False) (conducts_fail excused) fun _ _ _ impossible => impossible.elim

theorem conducts_typeName (v : Value) : Conducts w s₀ file (typeName v) Anything :=
  conducts_seq conducts_heap fun _ => conducts_return _

/-- A failure that needs the name of the type of a value for its message. -/
theorem conducts_failNamed {span : Span} {fault : String → RunFault} {v : Value}
    (excused : w.program.Excuses file span) : Conducts w s₀ file (do fail span (fault (← typeName v)) : Run α) Q :=
  conducts_seq (conducts_typeName v) fun _ => conducts_fail excused

theorem conducts_text (v : Value) : Conducts w s₀ file (text v) Anything := by
  refine conducts_seq conducts_heap fun h => ?_
  cases h.text? v with
  | some s => exact conducts_return s
  | none => exact conducts_endless

theorem conducts_current : Conducts w s₀ file current Anything :=
  conducts_seq conducts_get fun _ => conducts_return _

theorem conducts_checkCancelled {span : Span} (excused : w.program.Excuses file span) :
    Conducts w s₀ file (checkCancelled span) Anything := by
  intro s later orderly same
  rw [checkCancelled_eq]
  have noted (allowance : Option Nat) : Unaffected s { s with checks := s.checks + 1, allowance } :=
    unaffected_rfl rfl rfl rfl rfl
  rcases s.allowance with _ | _ | n
  · exact ends_ok (noted none) orderly rfl trivial
  · exact ⟨⟨(noted _).later, (noted _).orderly orderly, rfl⟩, fun _ => same ▸ excused⟩
  · exact ends_ok (noted _) orderly rfl trivial

/-! ## Failures that become results -/

/-- A failure that is caught leaves an orderly state, but classes may be left unfinished. -/
theorem conducts_attempt {x : Run α} {f : Except Diagnostic α → Run β} (first : Conducts w s₀ file x Q)
    (ok : ∀ s a, Later s₀ s → Q s a → Conducts w s file (f (.ok a)) R)
    (failed : ∀ d, (d.kind = .execution → w.program.Excuses d.file d.span) →
      ∀ s, Later s₀ s → Orderly w s → s.file = file → Ends w s R (f (.error d) w s) ∧
        (w.Plain → ∀ b s', f (.error d) w s ≠ (.ok b, s'))) :
    Conducts w s₀ file (attempt x >>= f) R := by
  intro s later orderly same
  have begun := first s later orderly same
  rw [bind_run]
  unfold attempt
  rcases ran : x w s with ⟨(d | _ | _) | a, s'⟩
  · rw [ran] at begun
    obtain ⟨kept, excused⟩ := begun
    obtain ⟨ended, covered⟩ := failed d excused s' (later.trans kept.later) kept.orderly (kept.file.trans same)
    dsimp only
    rcases rest : f (.error d) w s' with ⟨(e | _ | _) | b, s''⟩
    · rw [rest] at ended
      exact ⟨kept.trans ended.1, ended.2⟩
    · trivial
    · trivial
    · rw [rest] at ended
      exact ⟨kept.trans ended.1, fun plain => absurd rest (covered plain b s''), ended.2.2⟩
  · trivial
  · trivial
  · have continued := conducts_bind (f := fun a => f (.ok a)) first ok s later orderly same
    rw [bind_run, ran] at continued
    exact continued

/-! ## Scopes -/

theorem conducts_frameOf (scope : ScopeId) : Conducts w s₀ file (frameOf scope) Anything := by
  intro s later orderly same
  rw [frameOf_eq]
  cases s.env.capture? scope with
  | some frame => exact conducts_return frame s later orderly same
  | none => trivial

theorem conducts_openFrame (frame : Nat) : Conducts w s₀ file (openFrame frame) Anything :=
  conducts_modifyGet (fun _ => unaffected_rfl rfl rfl rfl rfl) fun _ => rfl

theorem conducts_openScope (outer : ScopeId) : Conducts w s₀ file (openScope outer) Anything :=
  conducts_seq (conducts_frameOf outer) fun frame => conducts_openFrame frame

theorem conducts_setVariable (frame : Nat) (name : String) (v : Value) :
    Conducts w s₀ file (setVariable frame name v) Anything :=
  conducts_modify (fun _ => unaffected_rfl rfl rfl rfl rfl) fun _ => rfl

theorem conducts_define (scope : ScopeId) (name : String) (v : Value) :
    Conducts w s₀ file (define scope name v) Anything :=
  conducts_seq (conducts_frameOf scope) fun frame => conducts_setVariable frame name v

theorem conducts_binding? (scope : ScopeId) (name : String) : Conducts w s₀ file (binding? scope name) Anything :=
  conducts_seq (conducts_frameOf scope) fun _ => conducts_seq conducts_get fun _ => conducts_return _

theorem conducts_assign (scope : ScopeId) (name : String) (v : Value) :
    Conducts w s₀ file (assign scope name v) Anything := by
  refine conducts_seq (conducts_frameOf scope) fun frame => conducts_seq conducts_get fun s => ?_
  cases s.env.seenFrom frame name with
  | none => exact conducts_return false
  | some found => exact conducts_seq (conducts_setVariable found.1 name v) fun _ => conducts_return true

/-- Restoring the stack after a computation does not touch what it has built. -/
private theorem ends_restored {s t : State} {r : Except Stop α × State} (restore : State → State)
    (start : Unaffected s t) (same : ∀ u, Unaffected u (restore u))
    (files : ∀ u, u.file = t.file → (restore u).file = s.file)
    (ends : Ends w t (Anything (α := α)) r) : Ends w s (Anything (α := α)) (r.1, restore r.2) := by
  have kept {u : State} (inner : Kept w t u) : Kept w s (restore u) :=
    ⟨(start.later.trans inner.later).trans (same u).later, (same u).orderly inner.orderly, files u inner.file⟩
  rcases r with ⟨(d | _ | _) | a, u⟩
  · exact ⟨kept ends.1, ends.2⟩
  · trivial
  · trivial
  · refine ⟨kept ends.1, fun plain => ?_, trivial⟩
    have inner := (settled_of_later start.symm.later).trans (ends.2.1 plain) ends.1.later
    exact inner.trans (settled_of_later (same u).symm.later) (same u).later

theorem conducts_releasing {x : Run α} (conducts : Conducts w s₀ file x Anything) :
    Conducts w s₀ file (releasing x) Anything := by
  intro s later orderly same
  refine ends_restored (fun u => { u with env := u.env.release s.env.height }) (unaffected_self s) ?_ ?_
    (conducts s later orderly same)
  · exact fun _ => unaffected_rfl rfl rfl rfl rfl
  · exact fun _ same => same

/-- Code in a method context of its own runs in the file that is given, if one is. -/
theorem conducts_inContext {x : Run α} (context : CallFrame) (inside : Option String)
    (conducts : Conducts w s₀ (inside.getD file) x Anything) :
    Conducts w s₀ file (inContext context inside x) Anything := by
  intro s later orderly same
  have start : Unaffected s { s.noteContext with calls := context :: s.calls, file := inside.getD s.file } :=
    unaffected_rfl rfl rfl rfl rfl
  refine ends_restored (fun u => { u with
    calls := u.calls.tail, file := s.file, env := u.env.release s.env.height,
    usage := { u.usage with turns := s.usage.turns } }) start ?_ ?_
    (conducts _ (later.trans start.later) (start.orderly orderly) (by rw [same]))
  · exact fun _ => unaffected_rfl rfl rfl rfl rfl
  · exact fun _ _ => rfl

/-! ## New things in the heap -/

theorem conducts_newObject (cls : Nat) (host : Option Host) : Conducts w s₀ file (newObject cls host) Anything :=
  conducts_modifyGet (fun _ => unaffected_rfl rfl rfl rfl rfl) fun _ => rfl

theorem conducts_newClassRef (cls : Nat) : Conducts w s₀ file (newClassRef cls) Anything :=
  conducts_modifyGet (fun _ => unaffected_rfl rfl rfl rfl rfl) fun _ => rfl

theorem conducts_newMethod (receiver : Value) (name : String) :
    Conducts w s₀ file (newMethod receiver name) Anything :=
  conducts_modifyGet (fun _ => unaffected_rfl rfl rfl rfl rfl) fun _ => rfl

theorem conducts_newArray (storage : Storage) : Conducts w s₀ file (newArray storage) Anything :=
  conducts_modifyGet (fun _ => unaffected_rfl rfl rfl rfl rfl) fun _ => rfl

theorem conducts_newNode (n : Markup.Node) : Conducts w s₀ file (newNode n) Anything :=
  conducts_modifyGet (fun _ => unaffected_rfl rfl rfl rfl rfl) fun _ => rfl

theorem conducts_setField (id : Nat) (name : String) (v : Value) : Conducts w s₀ file (setField id name v) Anything :=
  conducts_modifyHeap (fun _ => rfl) fun _ => rfl

/-- Static fields are no part of what is kept of a class. -/
theorem conducts_setStatic (id : Nat) (name : String) (v : Value) :
    Conducts w s₀ file (modifyClass id fun c => c.setStatic name v) Anything := by
  refine conducts_modify (fun s => ⟨fun j => ?_, rfl, rfl, rfl⟩) fun _ => rfl
  rw [Array.getElem?_modify]
  split
  · rw [Option.map_map]
    rfl
  · rfl

/-- A closure of code that may run in every file. -/
theorem conducts_newClosure {c : Closure} (sanctioned : ∀ f, w.program.Sanctions f (closureSites c)) :
    Conducts w s₀ file (newClosure c) Anything := by
  intro s _ orderly _
  let s' : State := { s with heap := { s.heap with closures := s.heap.closures.push c } }
  have later : Later s s' := ⟨fun found => ⟨_, found, rfl⟩, id⟩
  have back : Later s' s := ⟨fun found => ⟨_, found, rfl⟩, id⟩
  have orderly' : Orderly w s' := by
    refine ⟨orderly.known, fun found => ?_, fun found => ?_, fun {id found} held => ?_⟩
    · exact (orderly.classes found).mono (fun _ _ => later.names) fun _ => later.offers
    · exact (orderly.interfaces found).mono fun _ => later.offers
    · rw [Array.getElem?_push] at held
      split at held
      · obtain rfl := Option.some.inj held
        exact sanctioned
      · exact orderly.closures held
  exact ⟨⟨later, orderly', rfl⟩, fun _ => settled_of_later back, trivial⟩

/-! ## The host -/

theorem conducts_hostClosed : HostClosed fun {_} x => Conducts w s₀ file x Anything where
  pure := conducts_return
  bind first rest := conducts_seq first rest
  read := conducts_read.anything
  heap := conducts_heap.anything
  text := conducts_text
  print _ := conducts_modify (fun _ => unaffected_rfl rfl rfl rfl rfl) fun _ => rfl
  modifyArrays _ := conducts_modifyHeap (fun _ => rfl) fun _ => rfl
  modifyCursor _ _ := conducts_modifyHeap (fun _ => rfl) fun _ => rfl
  newArray := conducts_newArray
  newCursor _ := conducts_modifyGet (fun _ => unaffected_rfl rfl rfl rfl rfl) fun _ => rfl

end Evaluation

end ClassScript
