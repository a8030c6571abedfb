import ClassScript.Proofs.BareStates
import ClassScript.Proofs.Mentions

/-!
Relations between the computations of two worlds that everything in evaluation respects which neither builds a class
nor runs code: sequences, reading, and changes of the state that bring no new code or class (`Respected`). The code of
the second world is bare, and so are its states. It may have more declarations than the first, as long as they are not
among the names that the code of the first mentions (`World.Extends`). A property of one computation is a relation that
does not look at the second.
-/

namespace ClassScript.Evaluation

/-- What a change of state leaves alone: the table of classes, what is held, the limit on statements and what has been
printed, to which it may add. -/
structure Minor (ok : String → Prop) (s t : State) : Prop where
  held : Held ok s → Held ok t
  classes : t.classes = s.classes
  built : t.heap.classes.size = s.heap.classes.size
  output : s.output.toList <+: t.output.toList
  allowance : t.allowance = s.allowance
  checks : t.checks = s.checks

/-- A declaration with its file, without tokens and spans. -/
def barePlaced (d : String × Declaration) : String × Declaration := (d.1, d.2.bare)

/-- For code that mentions these names only, a second world has the bare declarations of a first one. It may have
more, but none with a name that is mentioned, or that is one of a class of the host. -/
structure World.Extends (ok : String → Prop) (w w' : World) : Prop where
  declared {name : String} : ok name → w'.declaration? name = (w.declaration? name).map barePlaced
  within {d : String × Declaration} : d ∈ w.declarations → d.2.Within ok
  host (c : HostClass) : ok c.name
  levels : w.program.statements.length ≤ w'.program.statements.length
  clock : w'.clock = w.clock

/-- The world without tokens and spans. -/
def World.bare (w : World) : World := { w with declarations := w.declarations.map barePlaced }

variable {ok : String → Prop} {w w' : World} {s t : State}

theorem minor_of_eq (closures : t.heap.closures = s.heap.closures) (defs : t.heap.classes = s.heap.classes)
    (interfaces : t.interfaces = s.interfaces) (classes : t.classes = s.classes) (output : t.output = s.output)
    (allowance : t.allowance = s.allowance) (checks : t.checks = s.checks) : Minor ok s t where
  held held := ⟨fun found => held.closures (closures ▸ found), fun found => held.classes (defs ▸ found),
    fun member => held.interfaces (interfaces ▸ member)⟩
  classes := classes
  built := by rw [defs]
  output := output ▸ List.prefix_rfl
  allowance := allowance
  checks := checks

theorem World.extends_bare (w : World) : w.Extends (fun _ => True) w.bare where
  declared {name} _ := by
    have same : (fun d : String × Declaration => d.2.name.text == name) ∘ barePlaced =
        fun d => d.2.name.text == name := by
      funext d
      simp [barePlaced]
    rw [World.declaration?, World.bare, List.find?_map, same, World.declaration?]
  within _ := Declaration.within_any _
  host _ := trivial
  levels := Nat.le_refl _
  clock := rfl

namespace World.Extends

theorem class? (further : w.Extends ok w') {name : String} (allowed : ok name) :
    w'.class? name = (w.class? name).map barePlaced := by
  rw [World.class?, World.class?, further.declared allowed]
  cases w.declaration? name with
  | none => rfl
  | some d => simp only [Option.map_some, Option.filter_some, barePlaced, Declaration.isInterface_bare]; split <;> rfl

theorem isNone_class? (further : w.Extends ok w') {name : String} (allowed : ok name) :
    (w'.class? name).isNone = (w.class? name).isNone := by rw [further.class? allowed, Option.isNone_map]

theorem interface? (further : w.Extends ok w') {name : String} (allowed : ok name) :
    w'.interface? name = (w.interface? name).map Declaration.bare := by
  rw [World.interface?, World.interface?, further.declared allowed]
  cases w.declaration? name with
  | none => rfl
  | some d => simp only [Option.map_some, Option.filter_some, barePlaced, Declaration.isInterface_bare]; split <;> rfl

theorem class?_within (further : w.Extends ok w') {name : String} {d : String × Declaration}
    (found : w.class? name = some d) : d.2.Within ok :=
  further.within (List.mem_of_find?_eq_some (Option.filter_eq_some_iff.1 found).1)

theorem interface?_within (further : w.Extends ok w') {name : String} {decl : Declaration}
    (found : w.interface? name = some decl) : decl.Within ok := by
  obtain ⟨d, known, rfl⟩ := Option.map_eq_some_iff.1 found
  exact further.within (List.mem_of_find?_eq_some (Option.filter_eq_some_iff.1 known).1)

/-- The classes of primitive values are among those of the host. -/
theorem boxed (further : w.Extends ok w') {v : Value} {name : String} (found : boxedName? v = some name) : ok name := by
  unfold boxedName? at found
  split at found <;> cases found
  · exact further.host .number
  · exact further.host .string
  · exact further.host .boolean

end World.Extends

/-! ## Relations that evaluation respects -/

/-- Runs a computation that may fail; unless the run was cancelled, a failure comes to nothing. -/
def covering {α : Type} (x : Run α) : Run (Option α) := do
  match ← attempt x with
  | .ok v => return some v
  | .error d => if d.code == RunFault.cancelledCode then throw (.failed d) else return none

/-- Runs a computation that may fail; any failure comes to nothing. -/
def probing {α : Type} (x : Run α) : Run (Option α) := do
  match ← attempt x with
  | .ok v => return some v
  | .error _ => return none

/-- A change of the state with a result, and the same on bare states. -/
structure Mirrored {α : Type} (ok : String → Prop) (f g : State → α × State) (s : State) : Prop where
  minor : Minor ok s (f s).2
  same : g s.bare = ((f s).1, (f s).2.bare)

/-- A relation between computations in two worlds that sequences and the small steps of evaluation respect. The second
one is about bare code in bare states. The first may give up without an end, whatever the second does. -/
structure Respected (ok : String → Prop) (w w' : World) (R : {α : Type} → Run α → Run α → Prop) : Prop where
  further : w.Extends ok w'
  pure {α : Type} (a : α) : R (pure a : Run α) (pure a)
  bind {α β : Type} {x y : Run α} {f g : α → Run β} : R x y → (∀ a, R (f a) (g a)) → R (x >>= f) (y >>= g)
  get_bind {α : Type} {f g : State → Run α} :
    (∀ s, Held ok s → R (f s) (g s.bare)) → R (get >>= f) (get >>= g)
  read_bind {α : Type} {f g : World → Run α} : R (f w) (g w') → R (read >>= f) (read >>= g)
  modifyGet {α : Type} {f g : State → α × State} :
    (∀ s, Mirrored ok f g s) → R (modifyGet f : Run α) (modifyGet g)
  restoring {α : Type} {x y : Run α} {restore : State → State} :
    R x y → (∀ s, Minor ok s (restore s)) → (∀ s, restore s.bare = (restore s).bare) →
      R (restoring x restore) (restoring y restore)
  failed {α : Type} (d : Diagnostic) : R (throw (.failed d) : Run α) (throw (.failed d.bare))
  deadScope {α : Type} (slot : Nat) : R (throw (.deadScope slot) : Run α) (throw (.deadScope slot))
  endless {α : Type} (y : Run α) : R (throw .endless) y
  checkCancelled (span : Span) : R (checkCancelled span) (checkCancelled Span.none)
  covering {α : Type} {x y : Run α} : R x y → R (covering x) (covering y)

variable {α β : Type} {R : {α : Type} → Run α → Run α → Prop}

/-! ## Reading and changing the state -/

theorem related_modify (rel : Respected ok w w' R) {f : State → State} (minor : ∀ s, Minor ok s (f s))
    (same : ∀ s, f s.bare = (f s).bare) : R (modify f : Run PUnit) (modify f) :=
  rel.modifyGet fun s => ⟨minor s, congrArg (PUnit.unit, ·) (same s)⟩

theorem related_modifyHeap (rel : Respected ok w w' R) {f : Heap → Heap} (closures : ∀ h, (f h).closures = h.closures)
    (classes : ∀ h, (f h).classes = h.classes) (same : ∀ h, f h.bare = (f h).bare) :
    R (modifyHeap f) (modifyHeap f) :=
  related_modify rel (fun s => minor_of_eq (closures s.heap) (classes s.heap) rfl rfl rfl rfl rfl) fun s =>
    congrArg (fun heap : Heap => ({ s.bare with heap } : State)) (same s.heap)

/-- What follows may rely on the code of the heap that is read. -/
theorem related_heap_bind (rel : Respected ok w w' R) {f g : Heap → Run α}
    (rest : ∀ s, Held ok s → R (f s.heap) (g s.heap.bare)) : R (heap >>= f) (heap >>= g) := rel.get_bind rest

theorem related_fail (rel : Respected ok w w' R) (span : Span) (fault : RunFault) :
    R (fail span fault : Run α) (fail Span.none fault) :=
  rel.get_bind fun _ _ => rel.failed _

/-- What follows a failure does not matter. -/
theorem related_fail_bind (rel : Respected ok w w' R) (span : Span) (fault : RunFault) (f g : α → Run β) :
    R (fail span fault >>= f) (fail Span.none fault >>= g) := by
  have stopped (span : Span) (h : α → Run β) : (fail span fault >>= h : Run β) = fail span fault := rfl
  rw [stopped, stopped]
  exact related_fail rel span fault

theorem related_typeName (rel : Respected ok w w' R) (v : Value) : R (typeName v) (typeName v) :=
  related_heap_bind rel fun s _ => by
    rw [Heap.typeName_bare]
    exact rel.pure _

/-- A failure that needs the name of the type of a value for its message. -/
theorem related_failNamed (rel : Respected ok w w' R) (span : Span) (fault : String → RunFault) (v : Value) :
    R (do fail span (fault (← typeName v)) : Run α) (do fail Span.none (fault (← typeName v))) :=
  rel.bind (related_typeName rel v) fun name => related_fail rel span (fault name)

theorem related_text (rel : Respected ok w w' R) (v : Value) : R (text v) (text v) := by
  refine related_heap_bind rel fun s _ => ?_
  rw [Heap.text?_bare]
  cases s.heap.text? v with
  | some t => exact rel.pure t
  | none => exact rel.endless _

theorem related_print (rel : Respected ok w w' R) (s : Bytes) : R (print s) (print s) :=
  related_modify rel (fun st => {
    held := fun held => ⟨held.closures, held.classes, held.interfaces⟩
    classes := rfl
    built := rfl
    output := by rw [Array.toList_appendList]; exact List.prefix_append _ _
    allowance := rfl
    checks := rfl }) fun _ => rfl

theorem related_current (rel : Respected ok w w' R) : R current current := rel.get_bind fun _ _ => rel.pure _

theorem related_noteInitial (rel : Respected ok w w' R) : R noteInitial noteInitial :=
  related_modify rel (fun _ => minor_of_eq rfl rfl rfl rfl rfl rfl rfl) fun _ => rfl

theorem related_noteTurn (rel : Respected ok w w' R) : R noteTurn noteTurn :=
  related_modify rel (fun _ => minor_of_eq rfl rfl rfl rfl rfl rfl rfl) fun _ => rfl

theorem related_forM_map (rel : Respected ok w w' R) {γ : Type} {items : List β} {h : β → γ} {f : β → Run PUnit}
    {g : γ → Run PUnit} (each : ∀ b ∈ items, R (f b) (g (h b))) : R (items.forM f) ((items.map h).forM g) := by
  induction items with
  | nil => exact rel.pure _
  | cons b items ih =>
    exact rel.bind (each b List.mem_cons_self) fun _ => ih fun c member => each c (List.mem_cons_of_mem b member)

theorem related_forM (rel : Respected ok w w' R) {items : List β} {f g : β → Run PUnit}
    (each : ∀ b ∈ items, R (f b) (g b)) : R (items.forM f) (items.forM g) := by
  have mapped := related_forM_map rel (h := id) each
  rwa [List.map_id] at mapped

theorem related_mapM_map (rel : Respected ok w w' R) {γ : Type} {items : List β} {h : β → γ} {f : β → Run α}
    {g : γ → Run α} (each : ∀ b, R (f b) (g (h b))) : R (items.mapM f) ((items.map h).mapM g) := by
  induction items with
  | nil =>
    rw [List.map_nil, List.mapM_nil, List.mapM_nil]
    exact rel.pure _
  | cons b items ih =>
    rw [List.map_cons, List.mapM_cons, List.mapM_cons]
    exact rel.bind (each b) fun _ => rel.bind ih fun _ => rel.pure _

/-! ## Scopes and method contexts -/

theorem related_frameOf (rel : Respected ok w w' R) (scope : ScopeId) : R (frameOf scope) (frameOf scope) := by
  refine rel.get_bind fun s _ => ?_
  dsimp only [State.bare]
  cases s.env.capture? scope with
  | some frame => exact rel.pure frame
  | none => exact rel.deadScope scope

theorem related_setVariable (rel : Respected ok w w' R) (frame : Nat) (name : String) (v : Value) :
    R (setVariable frame name v) (setVariable frame name v) :=
  related_modify rel (fun _ => minor_of_eq rfl rfl rfl rfl rfl rfl rfl) fun _ => rfl

theorem related_binding? (rel : Respected ok w w' R) (scope : ScopeId) (name : String) :
    R (binding? scope name) (binding? scope name) :=
  rel.bind (related_frameOf rel scope) fun _ => rel.get_bind fun _ _ => rel.pure _

theorem related_define (rel : Respected ok w w' R) (scope : ScopeId) (name : String) (v : Value) :
    R (define scope name v) (define scope name v) :=
  rel.bind (related_frameOf rel scope) fun frame => related_setVariable rel frame name v

theorem related_assign (rel : Respected ok w w' R) (scope : ScopeId) (name : String) (v : Value) :
    R (assign scope name v) (assign scope name v) := by
  refine rel.bind (related_frameOf rel scope) fun frame => rel.get_bind fun s _ => ?_
  dsimp only [State.bare]
  cases s.env.seenFrom frame name with
  | none => exact rel.pure false
  | some found => exact rel.bind (related_setVariable rel found.1 name v) fun _ => rel.pure true

theorem related_openFrame (rel : Respected ok w w' R) (frame : Nat) : R (openFrame frame) (openFrame frame) :=
  rel.modifyGet fun _ => ⟨minor_of_eq rfl rfl rfl rfl rfl rfl rfl, rfl⟩

theorem related_openScope (rel : Respected ok w w' R) (outer : ScopeId) : R (openScope outer) (openScope outer) :=
  rel.bind (related_frameOf rel outer) fun frame => related_openFrame rel frame

theorem related_releasing (rel : Respected ok w w' R) {x y : Run α} (inner : R x y) :
    R (releasing x) (releasing y) :=
  rel.get_bind fun _ _ => rel.restoring inner (fun _ => minor_of_eq rfl rfl rfl rfl rfl rfl rfl) fun _ => rfl

theorem related_inContext (rel : Respected ok w w' R) {x y : Run α} (context : CallFrame) (file : Option String)
    (inner : R x y) : R (inContext context file x) (inContext context file y) := by
  -- what is kept of the state is read and the state changed at once
  have entered (z : Run α) : inContext context file z = (modifyGet fun s : State =>
      ((s.env.height, s.file, s.usage.turns),
        { s.noteContext with calls := context :: s.calls, file := file.getD s.file })) >>= fun before =>
        restoring z fun s => { s with
          calls := s.calls.tail
          file := before.2.1
          env := s.env.release before.1
          usage := { s.usage with turns := before.2.2 } } := rfl
  rw [entered, entered]
  refine rel.bind (rel.modifyGet fun _ => ⟨minor_of_eq rfl rfl rfl rfl rfl rfl rfl, rfl⟩) fun before => ?_
  exact rel.restoring inner (fun _ => minor_of_eq rfl rfl rfl rfl rfl rfl rfl) fun _ => rfl

theorem related_checkDepth (rel : Respected ok w w' R) (span : Span) :
    R (checkDepth span) (checkDepth Span.none) := by
  refine rel.get_bind fun s _ => ?_
  dsimp only [State.bare]
  split
  · exact related_fail rel _ _
  · exact rel.pure ()

/-! ## New things in the heap -/

/-- A change of a class that leaves its declaration as it is, and does not depend on it. -/
theorem related_modifyClass (rel : Respected ok w w' R) (id : Nat) {f : ClassDef → ClassDef}
    (decl : ∀ c, (f c).decl = c.decl) (same : ∀ c, f c.bare = (f c).bare) :
    R (modifyClass id f) (modifyClass id f) := by
  refine related_modify rel (fun s => ⟨fun held => ⟨held.closures, fun {i c} found => ?_, held.interfaces⟩, rfl,
    Array.size_modify .., List.prefix_rfl, rfl, rfl⟩) fun s => ?_
  · have found : (s.heap.classes.modify id f)[i]? = some c := found
    rw [Array.getElem?_modify] at found
    split at found
    · obtain ⟨before, known, rfl⟩ := Option.map_eq_some_iff.1 found
      rw [decl]
      exact held.classes known
    · exact held.classes found
  · have mapped : (s.heap.classes.map ClassDef.bare).modify id f = (s.heap.classes.modify id f).map ClassDef.bare := by
      refine Array.ext_getElem? fun i => ?_
      rw [Array.getElem?_modify, Array.getElem?_map, Array.getElem?_map, Array.getElem?_modify]
      cases s.heap.classes[i]? with
      | none => split <;> rfl
      | some c =>
        split
        · exact congrArg some (same c)
        · rfl
    exact congrArg (fun classes => { s.bare with heap := { s.heap.bare with classes } }) mapped

theorem related_setField (rel : Respected ok w w' R) (id : Nat) (name : String) (v : Value) :
    R (setField id name v) (setField id name v) :=
  related_modifyHeap rel (fun _ => rfl) (fun _ => rfl) fun _ => rfl

theorem related_newObject (rel : Respected ok w w' R) (cls : Nat) (host : Option Host) :
    R (newObject cls host) (newObject cls host) :=
  rel.modifyGet fun _ => ⟨minor_of_eq rfl rfl rfl rfl rfl rfl rfl, rfl⟩

theorem related_newArray (rel : Respected ok w w' R) (storage : Storage) : R (newArray storage) (newArray storage) :=
  rel.modifyGet fun _ => ⟨minor_of_eq rfl rfl rfl rfl rfl rfl rfl, rfl⟩

theorem related_newClassRef (rel : Respected ok w w' R) (cls : Nat) : R (newClassRef cls) (newClassRef cls) :=
  rel.modifyGet fun _ => ⟨minor_of_eq rfl rfl rfl rfl rfl rfl rfl, rfl⟩

theorem related_newMethod (rel : Respected ok w w' R) (receiver : Value) (name : String) :
    R (newMethod receiver name) (newMethod receiver name) :=
  rel.modifyGet fun _ => ⟨minor_of_eq rfl rfl rfl rfl rfl rfl rfl, rfl⟩

theorem related_newNode (rel : Respected ok w w' R) (n : Markup.Node) : R (newNode n) (newNode n) :=
  rel.modifyGet fun _ => ⟨minor_of_eq rfl rfl rfl rfl rfl rfl rfl, rfl⟩

theorem related_newClosure (rel : Respected ok w w' R) {c : Closure} (within : c.Within ok) :
    R (newClosure c) (newClosure c.bare) := by
  refine rel.modifyGet fun s => ⟨⟨fun held => ⟨fun {i d} found => ?_, held.classes, held.interfaces⟩, rfl, rfl,
    List.prefix_rfl, rfl, rfl⟩, ?_⟩
  · have found : (s.heap.closures.push c)[i]? = some d := found
    rw [Array.getElem?_push] at found
    split at found
    · cases found
      exact within
    · exact held.closures found
  · have size : s.bare.heap.closures.size = s.heap.closures.size := Array.size_map
    have pushed : s.bare.heap.closures.push c.bare = (s.heap.closures.push c).map Closure.bare := Array.map_push.symm
    rw [size, pushed]
    rfl

/-- A change of the interfaces that brings no other code. -/
theorem related_modifyInterfaces (rel : Respected ok w w' R) {f g : List InterfaceDef → List InterfaceDef}
    (within : ∀ known : List InterfaceDef, (∀ i ∈ known, i.decl.Within ok) → ∀ i ∈ f known, i.decl.Within ok)
    (same : ∀ known, g (known.map InterfaceDef.bare) = (f known).map InterfaceDef.bare) :
    R (modify fun s => { s with interfaces := f s.interfaces } : Run PUnit)
      (modify fun s => { s with interfaces := g s.interfaces }) := by
  refine rel.modifyGet fun s => ⟨⟨fun held => ⟨held.closures, held.classes, fun {i} member => ?_⟩, rfl, rfl,
    List.prefix_rfl, rfl, rfl⟩, ?_⟩
  · exact within s.interfaces (fun _ => held.interfaces) i member
  · exact congrArg (fun interfaces => (PUnit.unit, { s.bare with interfaces })) (same s.interfaces)

/-- What follows may rely on the code of the method that is found. -/
theorem related_method?_bind (rel : Respected ok w w' R) (cls : Nat) (name : String)
    {f g : Option FoundMethod → Run α}
    (rest : ∀ found, (∀ m ∈ found, m.decl.Within ok) → R (f found) (g (found.map FoundMethod.bare))) :
    R (method? cls name >>= f) (method? cls name >>= g) :=
  rel.get_bind fun s held => by
    rw [State.method?_bare]
    exact rest _ fun _ found => held.method? found

/-- The work of the host is related to itself. -/
theorem Respected.hostRelated (rel : Respected ok w w' R) : HostRelated R where
  pure := rel.pure
  bind := rel.bind
  time := rel.read_bind (by rw [rel.further.clock]; exact rel.pure _)
  heap_bind rest := related_heap_bind rel fun s _ => rest _ _ ⟨rfl, fun _ => rfl, fun _ => rfl, s.heap.equal_bare⟩
  text := related_text rel
  print := related_print rel
  modifyArrays _ := related_modifyHeap rel (fun _ => rfl) (fun _ => rfl) fun _ => rfl
  modifyCursor _ _ := related_modifyHeap rel (fun _ => rfl) (fun _ => rfl) fun _ => rfl
  newArray := related_newArray rel
  newCursor _ := rel.modifyGet fun _ => ⟨minor_of_eq rfl rfl rfl rfl rfl rfl rfl, rfl⟩

end ClassScript.Evaluation
