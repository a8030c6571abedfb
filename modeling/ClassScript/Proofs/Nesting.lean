import ClassScript.Proofs.Conducted

/-!
How deep evaluation nests. An evaluator that may take one nested step more follows another one if they do the
same wherever the other has steps to spare (`Tracks`). A computation may fall behind only if code in one method
context goes on with iterations or has the host called too often, which is counted, or if the method context of
an initial value is added to a full stack, which is noted. In all cases the stack is no deeper than what is noted
says, and code that is held in the heap is no larger than the program (`Stocked`).
-/

namespace ClassScript

/-! ## The size of code -/

/-- Default values of parameters are no larger than that. -/
def Param.FitAll (bound : Nat) (params : List Param) : Prop := ∀ p ∈ params, ∀ e, p.fallback = some e → e.size ≤ bound

/-- The code of a method is no larger than that. -/
structure Method.Fits (bound : Nat) (m : Method) : Prop where
  params : Param.FitAll bound m.params
  body {b : Block} : m.body = some b → b.size ≤ bound

/-- The code of a declaration is no larger than that. -/
structure Declaration.Fits (bound : Nat) (d : Declaration) : Prop where
  fields {f : Field} {e : Expr} : f ∈ d.fields → f.init = some e → e.size ≤ bound
  methods {m : Method} : m ∈ d.methods → m.Fits bound

/-- The code of a closure is no larger than that. -/
structure Closure.Fits (bound : Nat) (c : Closure) : Prop where
  params : Param.FitAll bound c.params
  block {b : Block} : c.body = .block b → b.size ≤ bound
  value {e : Expr} : c.body = .value e → e.size ≤ bound

theorem Param.fit_of_size {bound : Nat} {params : List Param} (small : Param.sizeAll params ≤ bound) :
    Param.FitAll bound params := by
  induction params with
  | nil => exact fun p member => absurd member List.not_mem_nil
  | cons p params ih =>
    obtain ⟨mark, name, type, fallback⟩ := p
    intro q member e held
    rcases List.mem_cons.1 member with rfl | later
    · obtain rfl : fallback = some e := held
      rw [Param.sizeAll] at small
      omega
    · cases fallback with
      | none =>
        rw [Param.sizeAll] at small
        exact ih small q later e held
      | some _ =>
        rw [Param.sizeAll] at small
        exact ih (by omega) q later e held

theorem Field.size_le_sizeAll {fields : List Field} {f : Field} {e : Expr} (member : f ∈ fields)
    (held : f.init = some e) : e.size ≤ Field.sizeAll fields := by
  induction fields with
  | nil => exact absurd member List.not_mem_nil
  | cons g fields ih =>
    obtain ⟨mark, annotations, modifiers, name, type, init⟩ := g
    rcases List.mem_cons.1 member with rfl | later
    · obtain rfl : init = some e := held
      rw [Field.sizeAll]
      omega
    · have rest := ih later
      cases init <;> rw [Field.sizeAll] <;> omega

theorem Method.fits_of_size {bound : Nat} {methods : List Method} (small : Method.sizeAll methods ≤ bound)
    {m : Method}
    (member : m ∈ methods) : m.Fits bound := by
  induction methods with
  | nil => exact absurd member List.not_mem_nil
  | cons n methods ih =>
    obtain ⟨mark, annotations, modifiers, name, isConstructor, typeParams, params, result, body⟩ := n
    rcases List.mem_cons.1 member with rfl | later
    · cases body with
      | none =>
        rw [Method.sizeAll] at small
        exact ⟨Param.fit_of_size (by dsimp only; omega), fun none => by cases none⟩
      | some b =>
        rw [Method.sizeAll] at small
        refine ⟨Param.fit_of_size (by dsimp only; omega), fun same => ?_⟩
        cases same
        omega
    · cases body <;> rw [Method.sizeAll] at small <;> exact ih (by omega) later

theorem Declaration.fits_of_size {bound : Nat} {d : Declaration} (small : (Stmt.declares d).size ≤ bound) :
    d.Fits bound := by
  obtain ⟨mark, annotations, heading, name, typeParams, fields, methods⟩ := d
  rw [Stmt.size] at small
  have fitting : Method.sizeAll methods ≤ bound := by omega
  refine ⟨fun member held => ?_, fun member => Method.fits_of_size fitting member⟩
  have least : _ ≤ Field.sizeAll fields := Field.size_le_sizeAll member held
  omega

namespace Evaluation

/-- Code that a running program holds is no larger than that. -/
def World.bound (w : World) : Nat := w.program.size + 1

/-- The nested steps that one round of an iteration or one call of the host may cost. -/
def World.stride (w : World) : Nat := 2 * w.bound + w.declarations.length + 3

theorem World.stride_eq (w : World) : w.stride = 2 * w.bound + w.declarations.length + 3 := rfl

/-- The code of all declarations is no larger than the program. -/
def World.Fits (w : World) : Prop := ∀ d ∈ w.declarations, d.2.Fits w.bound

theorem World.fits_ofProgram (p : LinkedProgram) (clock : Float) : (World.ofProgram p clock).Fits := by
  intro d member
  obtain ⟨s, written, isDeclaration⟩ := List.mem_filterMap.1 (List.mem_reverse.1 member)
  rcases s with ⟨file, statement⟩
  cases statement with
  | declares decl =>
    cases isDeclaration
    refine Declaration.fits_of_size (Nat.le_succ_of_le (Stmt.size_le_sizeAll ?_))
    exact List.mem_map_of_mem written
  | _ => cases isDeclaration

/-! ## Between two steps -/

/-- Code that is held is no larger than the program, and the stack no deeper than what is noted: only the method
contexts of initial values go beyond the limit. -/
structure Stocked (w : World) (s : State) : Prop where
  closures {id : Nat} {c : Closure} : s.heap.closures[id]? = some c → c.Fits w.bound
  classes {id : Nat} {c : ClassDef} : s.heap.classes[id]? = some c → c.decl.Fits w.bound
  interfaces {i : InterfaceDef} : i ∈ s.interfaces → i.decl.Fits w.bound
  calls : s.calls.length ≤ s.usage.deepest
  deepest : s.usage.deepest ≤ max maxCallDepth s.usage.initial
  turns : s.usage.turns ≤ s.usage.busiest

/-- What a computation leaves: the running calls as they were, and at least as much usage as before. -/
structure Leaves (w : World) (s s' : State) : Prop where
  stocked : Stocked w s'
  calls : s'.calls = s.calls
  deepest : s.usage.deepest ≤ s'.usage.deepest
  turns : s.usage.turns ≤ s'.usage.turns
  busiest : s.usage.busiest ≤ s'.usage.busiest

/-- The limit of calls was never exceeded, and no method context took more turns than that. -/
structure State.Moderate (s : State) (rounds : Nat) : Prop where
  deepest : s.usage.deepest ≤ maxCallDepth
  busiest : s.usage.busiest ≤ rounds

/-- Nothing that `Stocked` looks at has changed. -/
structure Untouched (s s' : State) : Prop where
  closures : s'.heap.closures = s.heap.closures
  classes : s'.heap.classes = s.heap.classes
  interfaces : s'.interfaces = s.interfaces
  calls : s'.calls = s.calls
  usage : s'.usage = s.usage

variable {α β : Type} {w : World} {s s' t : State} {calls : List CallFrame} {rounds spare : Nat}

theorem Leaves.refl (stocked : Stocked w s) : Leaves w s s :=
  ⟨stocked, rfl, Nat.le_refl _, Nat.le_refl _, Nat.le_refl _⟩

theorem Leaves.trans (first : Leaves w s s') (second : Leaves w s' t) : Leaves w s t where
  stocked := second.stocked
  calls := second.calls.trans first.calls
  deepest := Nat.le_trans first.deepest second.deepest
  turns := Nat.le_trans first.turns second.turns
  busiest := Nat.le_trans first.busiest second.busiest

/-- What was moderate in the end was so before. -/
theorem Leaves.moderate (leaves : Leaves w s s') (moderate : s'.Moderate rounds) : s.Moderate rounds where
  deepest := Nat.le_trans leaves.deepest moderate.deepest
  busiest := Nat.le_trans leaves.busiest moderate.busiest

theorem Untouched.stocked (same : Untouched s s') (stocked : Stocked w s) : Stocked w s' where
  closures held := stocked.closures (same.closures ▸ held)
  classes held := stocked.classes (same.classes ▸ held)
  interfaces member := stocked.interfaces (same.interfaces ▸ member)
  calls := by rw [same.calls, same.usage]; exact stocked.calls
  deepest := by rw [same.usage]; exact stocked.deepest
  turns := by rw [same.usage]; exact stocked.turns

theorem Untouched.leaves (same : Untouched s s') (stocked : Stocked w s) : Leaves w s s' where
  stocked := same.stocked stocked
  calls := same.calls
  deepest := same.usage ▸ Nat.le_refl _
  turns := same.usage ▸ Nat.le_refl _
  busiest := same.usage ▸ Nat.le_refl _

namespace Stocked

theorem closure (stocked : Stocked w s) (id : Nat) : (s.heap.closure id).Fits w.bound := by
  unfold Heap.closure
  cases held : s.heap.closures[id]? with
  | some c => exact stocked.closures held
  | none =>
    refine ⟨fun p member => absurd member List.not_mem_nil, fun same => ?_, fun same => by cases same⟩
    cases same
    exact Nat.le_add_left _ _

theorem cls (stocked : Stocked w s) (id : Nat) : (s.heap.cls id).decl.Fits w.bound := by
  unfold Heap.cls
  cases held : s.heap.classes[id]? with
  | some c => exact stocked.classes held
  | none => exact ⟨fun member => absurd member List.not_mem_nil, fun member => absurd member List.not_mem_nil⟩

theorem ownMethod (stocked : Stocked w s) {c : Nat} {name : String} {m : Method}
    (found : (s.heap.cls c).method? name = some m) : m.Fits w.bound := by
  unfold ClassDef.method? at found
  split at found
  · exact (stocked.cls c).methods (List.mem_of_find?_eq_some found)
  · cases found

theorem method? (stocked : Stocked w s) {cls : Nat} {name : String} {m : FoundMethod}
    (found : s.method? cls name = some m) : m.decl.Fits w.bound := by
  rcases method?_eq_some found with ⟨c, own, held, rfl⟩ | ⟨c, -, i, -, inherited, held, rfl⟩
  · exact stocked.ownMethod held
  · obtain ⟨n, holder, -, known, member, -⟩ := searchDefault_found s _ _ _ _ held
    exact (stocked.interfaces (List.mem_of_find?_eq_some known)).methods member

theorem constructor? (stocked : Stocked w s) {cls : Nat} {m : FoundMethod} (found : s.constructor? cls = some m) :
    m.decl.Fits w.bound := by
  obtain ⟨c, -, own⟩ := List.exists_of_findSome?_eq_some found
  obtain ⟨m', held, rfl⟩ := Option.map_eq_some_iff.1 own
  exact stocked.ownMethod held

theorem instanceFields (stocked : Stocked w s) {c : Nat} {f : Field} {e : Expr}
    (member : f ∈ (s.heap.cls c).instanceFields) (held : f.init = some e) : e.size ≤ w.bound := by
  have own : f ∈ (s.heap.cls c).fields := (List.mem_filter.1 member).1
  unfold ClassDef.fields at own
  split at own
  · exact (stocked.cls c).fields own held
  · exact absurd own List.not_mem_nil

end Stocked

/-! ## Computations that follow one another -/

/-- From this state, the second computation does what the first one does if that was moderate, and had steps to
spare for the rounds that the innermost method context has left. -/
structure TracksAt (w : World) (rounds spare : Nat) (s : State) (x y : Run α) : Prop where
  leaves : Leaves w s (x w s).2
  same : rounds * w.stride < s.usage.turns * w.stride + spare → (x w s).2.Moderate rounds → y w s = x w s

/-- The second computation follows the first one whenever these calls are running. -/
def Tracks (w : World) (rounds : Nat) (calls : List CallFrame) (spare : Nat) (x y : Run α) : Prop :=
  ∀ s, Stocked w s → s.calls = calls → TracksAt w rounds spare s x y

theorem TracksAt.mono {less : Nat} {x y : Run α} (tracks : TracksAt w rounds spare s x y) (le : less ≤ spare) :
    TracksAt w rounds less s x y :=
  ⟨tracks.leaves, fun ahead => tracks.same (Nat.lt_of_lt_of_le ahead (Nat.add_le_add_left le _))⟩

theorem Tracks.mono {less : Nat} {x y : Run α} (tracks : Tracks w rounds calls spare x y) (le : less ≤ spare) :
    Tracks w rounds calls less x y := fun s stocked same => (tracks s stocked same).mono le

/-- A computation follows itself. -/
theorem tracks_self {x : Run α} (leaves : ∀ s, Stocked w s → s.calls = calls → Leaves w s (x w s).2) :
    Tracks w rounds calls spare x x := fun s stocked same => ⟨leaves s stocked same, fun _ _ => rfl⟩

theorem TracksAt.bind {x y : Run α} {f g : α → Run β} (first : TracksAt w rounds spare s x y)
    (rest : ∀ a s', x w s = (.ok a, s') → Leaves w s s' → TracksAt w rounds spare s' (f a) (g a)) :
    TracksAt w rounds spare s (x >>= f) (y >>= g) := by
  obtain ⟨leaves, same⟩ := first
  rcases ran : x w s with ⟨stop | a, s'⟩
  · have stopped : (x >>= f) w s = (.error stop, s') := by rw [bind_run, ran]
    rw [ran] at leaves same
    refine ⟨by rw [stopped]; exact leaves, fun ahead moderate => ?_⟩
    rw [stopped] at moderate ⊢
    rw [bind_run, same ahead moderate]
  · have went : (x >>= f) w s = f a w s' := by rw [bind_run, ran]
    rw [ran] at leaves same
    have next := rest a s' ran leaves
    refine ⟨by rw [went]; exact leaves.trans next.leaves, fun ahead moderate => ?_⟩
    rw [went] at moderate ⊢
    have went' : (y >>= g) w s = g a w s' := by rw [bind_run, same ahead (next.leaves.moderate moderate)]
    have grown : s.usage.turns * w.stride ≤ s'.usage.turns * w.stride := Nat.mul_le_mul_right _ leaves.turns
    rw [went']
    exact next.same (by omega) moderate

theorem tracks_bind {x y : Run α} {f g : α → Run β} (first : Tracks w rounds calls spare x y)
    (rest : ∀ a, Tracks w rounds calls spare (f a) (g a)) : Tracks w rounds calls spare (x >>= f) (y >>= g) :=
  fun s stocked same => (first s stocked same).bind fun a s' _ leaves =>
    rest a s' leaves.stocked (leaves.calls.trans same)

theorem tracks_pure (a : α) : Tracks w rounds calls spare (pure a : Run α) (pure a) :=
  tracks_self fun _ stocked _ => .refl stocked

theorem tracks_throw (stop : Stop) : Tracks w rounds calls spare (throw stop : Run α) (throw stop) :=
  tracks_self fun _ stocked _ => .refl stocked

theorem tracks_read : Tracks w rounds calls spare (read : Run World) read :=
  tracks_self fun _ stocked _ => .refl stocked

theorem tracks_get : Tracks w rounds calls spare (get : Run State) get := tracks_self fun _ stocked _ => .refl stocked

/-- What follows may rely on the state that is read. -/
theorem tracks_get_bind {f g : State → Run α}
    (rest : ∀ s, Stocked w s → s.calls = calls → Tracks w rounds calls spare (f s) (g s)) :
    Tracks w rounds calls spare (get >>= f) (get >>= g) :=
  fun s stocked same => (tracks_get s stocked same).bind fun a s' ran leaves => by
    cases ran
    exact rest s stocked same s stocked same

/-- The world is always the same. -/
theorem tracks_read_bind {f g : World → Run α} (rest : Tracks w rounds calls spare (f w) (g w)) :
    Tracks w rounds calls spare (read >>= f) (read >>= g) :=
  fun s stocked same => (tracks_read s stocked same).bind fun a s' ran _ => by
    cases ran
    exact rest s stocked same

theorem tracks_heap : Tracks w rounds calls spare heap heap := tracks_bind tracks_get fun _ => tracks_pure _

/-- What follows may rely on the heap that is read. -/
theorem tracks_heap_bind {f g : Heap → Run α}
    (rest : ∀ s, Stocked w s → Tracks w rounds calls spare (f s.heap) (g s.heap)) :
    Tracks w rounds calls spare (heap >>= f) (heap >>= g) :=
  tracks_get_bind fun s stocked _ => rest s stocked

theorem tracks_modifyGet {f : State → α × State} (same : ∀ s, Untouched s (f s).2) :
    Tracks w rounds calls spare (modifyGet f : Run α) (modifyGet f) :=
  tracks_self fun s stocked _ => (same s).leaves stocked

theorem tracks_modify {f : State → State} (same : ∀ s, Untouched s (f s)) :
    Tracks w rounds calls spare (modify f : Run PUnit) (modify f) := tracks_modifyGet same

theorem tracks_modifyHeap {f : Heap → Heap} (closures : ∀ h, (f h).closures = h.closures)
    (classes : ∀ h, (f h).classes = h.classes) : Tracks w rounds calls spare (modifyHeap f) (modifyHeap f) :=
  tracks_modify fun s => ⟨closures s.heap, classes s.heap, rfl, rfl, rfl⟩

theorem tracks_fail (span : Span) (fault : RunFault) :
    Tracks w rounds calls spare (fail span fault : Run α) (fail span fault) :=
  tracks_bind tracks_get fun _ => tracks_throw _

/-- What follows a failure does not matter. -/
theorem tracks_fail_bind (span : Span) (fault : RunFault) (f g : α → Run β) :
    Tracks w rounds calls spare (fail span fault >>= f) (fail span fault >>= g) :=
  fun _ stocked _ => ⟨.refl stocked, fun _ _ => rfl⟩

theorem tracks_typeName (v : Value) : Tracks w rounds calls spare (typeName v) (typeName v) :=
  tracks_bind tracks_heap fun _ => tracks_pure _

/-- A failure that needs the name of the type of a value for its message. -/
theorem tracks_failNamed (span : Span) (fault : String → RunFault) (v : Value) :
    Tracks w rounds calls spare (do fail span (fault (← typeName v)) : Run α) (do fail span (fault (← typeName v))) :=
  tracks_bind (tracks_typeName v) fun name => tracks_fail span (fault name)

theorem tracks_text (v : Value) : Tracks w rounds calls spare (text v) (text v) := by
  refine tracks_bind tracks_heap fun h => ?_
  cases h.text? v with
  | some s => exact tracks_pure s
  | none => exact tracks_throw _

theorem tracks_current : Tracks w rounds calls spare current current := tracks_bind tracks_get fun _ => tracks_pure _

theorem tracks_forM {items : List β} {f g : β → Run PUnit} (each : ∀ b, Tracks w rounds calls spare (f b) (g b)) :
    Tracks w rounds calls spare (items.forM f) (items.forM g) := by
  induction items with
  | nil => exact tracks_pure _
  | cons b items ih => exact tracks_bind (each b) fun _ => ih

theorem tracks_mapM {items : List β} {f g : β → Run α} (each : ∀ b, Tracks w rounds calls spare (f b) (g b)) :
    Tracks w rounds calls spare (items.mapM f) (items.mapM g) := by
  induction items with
  | nil =>
    rw [List.mapM_nil, List.mapM_nil]
    exact tracks_pure _
  | cons b items ih =>
    rw [List.mapM_cons, List.mapM_cons]
    exact tracks_bind (each b) fun _ => tracks_bind ih fun _ => tracks_pure _

theorem tracks_checkCancelled (span : Span) :
    Tracks w rounds calls spare (checkCancelled span) (checkCancelled span) := by
  refine tracks_self fun s stocked _ => ?_
  rw [checkCancelled_eq]
  rcases s.allowance with _ | _ | n
  · exact Untouched.leaves ⟨rfl, rfl, rfl, rfl, rfl⟩ stocked
  · exact Untouched.leaves ⟨rfl, rfl, rfl, rfl, rfl⟩ stocked
  · exact Untouched.leaves ⟨rfl, rfl, rfl, rfl, rfl⟩ stocked

theorem TracksAt.attempt {x y : Run α} (tracks : TracksAt w rounds spare s x y) :
    TracksAt w rounds spare s (attempt x) (attempt y) := by
  obtain ⟨leaves, same⟩ := tracks
  have state : (Evaluation.attempt x w s).2 = (x w s).2 := by
    unfold Evaluation.attempt
    rcases x w s with ⟨(d | _ | dead) | a, t⟩ <;> rfl
  refine ⟨by rw [state]; exact leaves, fun ahead moderate => ?_⟩
  rw [state] at moderate
  unfold Evaluation.attempt
  rw [same ahead moderate]

theorem tracks_attempt {x y : Run α} (tracks : Tracks w rounds calls spare x y) :
    Tracks w rounds calls spare (attempt x) (attempt y) := fun s stocked running => (tracks s stocked running).attempt

/-! ## Scopes and method contexts -/

theorem tracks_frameOf (scope : ScopeId) : Tracks w rounds calls spare (frameOf scope) (frameOf scope) := by
  refine tracks_self fun s stocked _ => ?_
  rw [frameOf_eq]
  cases s.env.capture? scope with
  | some frame => exact .refl stocked
  | none => exact .refl stocked

theorem tracks_setVariable (frame : Nat) (name : String) (v : Value) :
    Tracks w rounds calls spare (setVariable frame name v) (setVariable frame name v) :=
  tracks_modify fun _ => ⟨rfl, rfl, rfl, rfl, rfl⟩

theorem tracks_binding? (scope : ScopeId) (name : String) :
    Tracks w rounds calls spare (binding? scope name) (binding? scope name) :=
  tracks_bind (tracks_frameOf scope) fun _ => tracks_bind tracks_get fun _ => tracks_pure _

theorem tracks_define (scope : ScopeId) (name : String) (v : Value) :
    Tracks w rounds calls spare (define scope name v) (define scope name v) :=
  tracks_bind (tracks_frameOf scope) fun frame => tracks_setVariable frame name v

theorem tracks_assign (scope : ScopeId) (name : String) (v : Value) :
    Tracks w rounds calls spare (assign scope name v) (assign scope name v) := by
  refine tracks_bind (tracks_frameOf scope) fun frame => tracks_bind tracks_get fun s => ?_
  cases s.env.seenFrom frame name with
  | none => exact tracks_pure false
  | some found => exact tracks_bind (tracks_setVariable found.1 name v) fun _ => tracks_pure true

theorem tracks_openFrame (frame : Nat) : Tracks w rounds calls spare (openFrame frame) (openFrame frame) :=
  tracks_modifyGet fun _ => ⟨rfl, rfl, rfl, rfl, rfl⟩

theorem tracks_openScope (outer : ScopeId) : Tracks w rounds calls spare (openScope outer) (openScope outer) :=
  tracks_bind (tracks_frameOf outer) fun frame => tracks_openFrame frame

theorem tracks_restoring {x y : Run α} (tracks : Tracks w rounds calls spare x y) {restore : State → State}
    (same : ∀ s, Untouched s (restore s)) :
    Tracks w rounds calls spare (restoring x restore) (restoring y restore) := by
  intro s stocked running
  obtain ⟨leaves, follows⟩ := tracks s stocked running
  have restored : Leaves w (x w s).2 (restoring x restore w s).2 := (same _).leaves leaves.stocked
  refine ⟨leaves.trans restored, fun ahead moderate => ?_⟩
  unfold restoring
  rw [follows ahead (restored.moderate moderate)]

theorem tracks_releasing {x y : Run α} (tracks : Tracks w rounds calls spare x y) :
    Tracks w rounds calls spare (releasing x) (releasing y) :=
  tracks_bind tracks_get fun _ => tracks_restoring tracks fun _ => ⟨rfl, rfl, rfl, rfl, rfl⟩

/-- What code in a further method context can spare: all its rounds are left, unless the stack is full. -/
def World.beyond (w : World) (rounds : Nat) (calls : List CallFrame) (spare : Nat) : Nat :=
  if calls.length < maxCallDepth ∧ 0 < spare then spare + rounds * w.stride else 0

/-- A further method context is below the limit, or noted as that of an initial value. -/
theorem tracksAt_inContext {x y : Run α} (context : CallFrame) (file : Option String) (stocked : Stocked w s)
    (allowed : s.calls.length + 1 ≤ max maxCallDepth s.usage.initial)
    (inner : Tracks w rounds (context :: s.calls) (w.beyond rounds s.calls spare) x y) :
    TracksAt w rounds spare s (inContext context file x) (inContext context file y) := by
  let start : State := { s.noteContext with calls := context :: s.calls, file := file.getD s.file }
  have depth : start.usage.deepest = max s.usage.deepest (s.calls.length + 1) := rfl
  have begun : Stocked w start := by
    refine ⟨stocked.closures, stocked.classes, stocked.interfaces, Nat.le_max_right _ _, ?_, Nat.zero_le _⟩
    exact Nat.max_le.2 ⟨stocked.deepest, allowed⟩
  obtain ⟨leaves, same⟩ := inner start begun rfl
  have deepest : max s.usage.deepest (s.calls.length + 1) ≤ (x w start).2.usage.deepest := leaves.deepest
  have busiest : s.usage.busiest ≤ (x w start).2.usage.busiest := leaves.busiest
  have restored : (inContext context file x w s).2.calls = s.calls := congrArg List.tail leaves.calls
  have kept := leaves.stocked
  refine ⟨⟨⟨kept.closures, kept.classes, kept.interfaces, ?_, kept.deepest, ?_⟩, restored, ?_, Nat.le_refl _, busiest⟩,
    fun ahead moderate => ?_⟩
  · rw [restored]
    show s.calls.length ≤ (x w start).2.usage.deepest
    omega
  · exact Nat.le_trans stocked.turns busiest
  · show s.usage.deepest ≤ (x w start).2.usage.deepest
    omega
  · have ended : (x w start).2.Moderate rounds := ⟨moderate.deepest, moderate.busiest⟩
    have free : s.calls.length < maxCallDepth := by
      have := ended.deepest
      omega
    have left : 0 < spare := by
      have few : s.usage.turns ≤ rounds := Nat.le_trans stocked.turns (Nat.le_trans busiest ended.busiest)
      have cost : s.usage.turns * w.stride ≤ rounds * w.stride := Nat.mul_le_mul_right _ few
      omega
    have again : y w start = x w start := by
      refine same ?_ ended
      show rounds * w.stride < 0 * w.stride + w.beyond rounds s.calls spare
      rw [World.beyond, if_pos ⟨free, left⟩]
      omega
    show ((y w start).1, _) = ((x w start).1, _)
    rw [again]

/-- Code that is called runs in a method context of its own if the stack is not full. -/
theorem tracks_inContext {x y : Run α} (context : CallFrame) (file : Option String)
    (free : calls.length < maxCallDepth)
    (inner : Tracks w rounds (context :: calls) (w.beyond rounds calls spare) x y) :
    Tracks w rounds calls spare (inContext context file x) (inContext context file y) := by
  rintro s stocked rfl
  exact tracksAt_inContext context file stocked (by omega) inner

/-- The initial value of a field has a method context of its own, also if the stack is full. -/
theorem tracks_initial {x y : Run α} (context : CallFrame) (file : Option String)
    (inner : Tracks w rounds (context :: calls) (w.beyond rounds calls spare) x y) :
    Tracks w rounds calls spare (noteInitial >>= fun _ => inContext context file x)
      (noteInitial >>= fun _ => inContext context file y) := by
  rintro s stocked rfl
  have noted : Stocked w (noteInitial w s).2 := by
    refine ⟨stocked.closures, stocked.classes, stocked.interfaces, stocked.calls, ?_, stocked.turns⟩
    show s.usage.deepest ≤ max maxCallDepth (max s.usage.initial (s.calls.length + 1))
    have := stocked.deepest
    omega
  have start : TracksAt w rounds spare s noteInitial noteInitial :=
    ⟨⟨noted, rfl, Nat.le_refl _, Nat.le_refl _, Nat.le_refl _⟩, fun _ _ => rfl⟩
  refine start.bind fun _ s' ran leaves => ?_
  cases ran
  refine tracksAt_inContext context file noted ?_ inner
  show s.calls.length + 1 ≤ max maxCallDepth (max s.usage.initial (s.calls.length + 1))
  omega

theorem checkDepth_run (span : Span) (w : World) (s : State) :
    checkDepth span w s =
      if maxCallDepth ≤ s.calls.length then fail span (.callDepth maxCallDepth) w s else (.ok (), s) := by
  show (if s.calls.length ≥ maxCallDepth then fail span (.callDepth maxCallDepth) else pure () : Run Unit) w s = _
  split
  · rfl
  · rfl

/-- Nothing is called when the stack is full. -/
theorem tracks_checkDepth_bind (span : Span) {f g : Unit → Run α}
    (rest : calls.length < maxCallDepth → Tracks w rounds calls spare (f ()) (g ())) :
    Tracks w rounds calls spare (checkDepth span >>= f) (checkDepth span >>= g) := by
  rintro s stocked rfl
  have checked := checkDepth_run span w s
  by_cases full : maxCallDepth ≤ s.calls.length
  · rw [if_pos full] at checked
    have stopped (h : Unit → Run α) : (checkDepth span >>= h) w s =
    (fail span (.callDepth maxCallDepth) >>= h) w s := by
      rw [bind_run, bind_run, checked]
    refine ⟨by rw [stopped]; exact .refl stocked, fun _ _ => ?_⟩
    rw [stopped, stopped]
    rfl
  · rw [if_neg full] at checked
    have went (h : Unit → Run α) : (checkDepth span >>= h) w s = h () w s := by rw [bind_run, checked]
    obtain ⟨leaves, same⟩ := rest (Nat.lt_of_not_le full) s stocked rfl
    rw [← went f] at leaves same
    rw [← went g] at same
    exact ⟨leaves, same⟩

/-- A turn is worth a stride. -/
theorem tracks_noteTurn_bind {f g : Unit → Run α} (rest : Tracks w rounds calls (spare - w.stride) (f ()) (g ())) :
    Tracks w rounds calls spare (noteTurn >>= f) (noteTurn >>= g) := by
  intro s stocked running
  have noted : Leaves w s (noteTurn w s).2 := by
    refine ⟨⟨stocked.closures, stocked.classes, stocked.interfaces, stocked.calls, stocked.deepest, ?_⟩, rfl,
      Nat.le_refl _, Nat.le_succ _, Nat.le_max_left _ _⟩
    exact Nat.le_max_right _ _
  obtain ⟨leaves, same⟩ := rest (noteTurn w s).2 noted.stocked running
  refine ⟨noted.trans leaves, fun ahead moderate => same ?_ moderate⟩
  have turns : (noteTurn w s).2.usage.turns = s.usage.turns + 1 := rfl
  rw [turns, Nat.succ_mul]
  omega

end Evaluation

end ClassScript
