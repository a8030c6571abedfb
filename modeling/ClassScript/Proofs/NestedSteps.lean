import ClassScript.Evaluation.Statements
import ClassScript.Proofs.Nesting

/-!
Every construct of evaluation follows itself under two evaluators as long as those agree on the nested steps
that it asks for: on code that is smaller (`Runs`), and on what calls may need, which is any code in a further
method context, or any code at all once a turn has been taken (`Serves`).
-/

namespace ClassScript.Evaluation

/-- Two evaluators agree, while these calls are running, on code up to a size. -/
structure Runs (w : World) (rounds : Nat) (calls : List CallFrame) (spare size : Nat) (k k' : Evaluator) : Prop where
  eval (e : Expr) (scope : ScopeId) : e.size ≤ size → Tracks w rounds calls spare (k.eval e scope) (k'.eval e scope)
  exec (s : Stmt) (scope : ScopeId) : s.size ≤ size → Tracks w rounds calls spare (k.exec s scope) (k'.exec s scope)
  iterate (it : Iteration) : it.body.size ≤ size → Tracks w rounds calls spare (k.iterate it) (k'.iterate it)

/-- Two evaluators agree, while these calls are running, on what calls may need. -/
structure Serves (w : World) (rounds : Nat) (calls : List CallFrame) (spare : Nat) (k k' : Evaluator) : Prop where
  classOf (name : String) (span : Span) : Tracks w rounds calls spare (k.classOf name span) (k'.classOf name span)
  framed (context : CallFrame) : Runs w rounds (context :: calls) (w.beyond rounds calls spare) w.bound k k'
  callValue (f : Value) (args : List Value) (span : Span) :
    Tracks w rounds calls (spare - w.stride) (k.callValue f args span) (k'.callValue f args span)
  fallback (e : Expr) (scope : ScopeId) :
    e.size ≤ w.bound → Tracks w rounds calls (spare - w.stride) (k.eval e scope) (k'.eval e scope)

theorem World.beyond_mono (w : World) (rounds : Nat) (calls : List CallFrame) {less more : Nat} (le : less ≤ more) :
    w.beyond rounds calls less ≤ w.beyond rounds calls more := by
  unfold World.beyond
  split
  · rw [if_pos (by omega)]
    omega
  · exact Nat.zero_le _

variable {w : World} {calls : List CallFrame} {rounds spare size less : Nat} {k k' : Evaluator}

theorem Runs.mono (runs : Runs w rounds calls spare size k k') (le : less ≤ spare) :
    Runs w rounds calls less size k k' where
  eval e scope small := (runs.eval e scope small).mono le
  exec s scope small := (runs.exec s scope small).mono le
  iterate it small := (runs.iterate it small).mono le

theorem Serves.mono (serves : Serves w rounds calls spare k k') (le : less ≤ spare) :
    Serves w rounds calls less k k' where
  classOf name span := (serves.classOf name span).mono le
  framed context := (serves.framed context).mono (w.beyond_mono rounds calls le)
  callValue f args span := (serves.callValue f args span).mono (by omega)
  fallback e scope small := (serves.fallback e scope small).mono (by omega)

/-! ## Classes -/

/-- A change of a class that leaves its declaration as it is. -/
theorem tracks_modifyClass (id : Nat) {f : ClassDef → ClassDef} (decl : ∀ c, (f c).decl = c.decl) :
    Tracks w rounds calls spare (modifyClass id f) (modifyClass id f) := by
  refine tracks_self fun s stocked _ => ?_
  refine ⟨⟨stocked.closures, fun {i c} held => ?_, stocked.interfaces, stocked.calls, stocked.deepest, stocked.turns⟩,
    rfl, Nat.le_refl _, Nat.le_refl _, Nat.le_refl _⟩
  have held : (s.heap.classes.modify id f)[i]? = some c := held
  rw [Array.getElem?_modify] at held
  split at held
  · obtain ⟨before, written, rfl⟩ := Option.map_eq_some_iff.1 held
    rw [decl]
    exact stocked.classes written
  · exact stocked.classes held

theorem tracks_setField (id : Nat) (name : String) (v : Value) :
    Tracks w rounds calls spare (setField id name v) (setField id name v) :=
  tracks_modifyHeap (fun _ => rfl) fun _ => rfl

theorem tracks_newObject (cls : Nat) (host : Option Host) :
    Tracks w rounds calls spare (newObject cls host) (newObject cls host) :=
  tracks_modifyGet fun _ => ⟨rfl, rfl, rfl, rfl, rfl⟩

theorem tracks_newArray (storage : Storage) : Tracks w rounds calls spare (newArray storage) (newArray storage) :=
  tracks_modifyGet fun _ => ⟨rfl, rfl, rfl, rfl, rfl⟩

theorem tracks_newClassRef (cls : Nat) : Tracks w rounds calls spare (newClassRef cls) (newClassRef cls) :=
  tracks_modifyGet fun _ => ⟨rfl, rfl, rfl, rfl, rfl⟩

theorem tracks_newMethod (receiver : Value) (name : String) :
    Tracks w rounds calls spare (newMethod receiver name) (newMethod receiver name) :=
  tracks_modifyGet fun _ => ⟨rfl, rfl, rfl, rfl, rfl⟩

theorem tracks_newClosure {c : Closure} (fits : c.Fits w.bound) :
    Tracks w rounds calls spare (newClosure c) (newClosure c) := by
  refine tracks_self fun s stocked _ => ?_
  refine ⟨⟨fun {i d} held => ?_, stocked.classes, stocked.interfaces, stocked.calls, stocked.deepest, stocked.turns⟩,
    rfl, Nat.le_refl _, Nat.le_refl _, Nat.le_refl _⟩
  have held : (s.heap.closures.push c)[i]? = some d := held
  rw [Array.getElem?_push] at held
  split at held
  · cases held
    exact fits
  · exact stocked.closures held

theorem tracks_method? (cls : Nat) (name : String) :
    Tracks w rounds calls spare (method? cls name) (method? cls name) :=
  tracks_bind tracks_get fun _ => tracks_pure _

/-- What follows may rely on the code of the method that is found. -/
theorem tracks_method?_bind {α : Type} (cls : Nat) (name : String) {f g : Option FoundMethod → Run α}
    (rest : ∀ found, (∀ m ∈ found, m.decl.Fits w.bound) → Tracks w rounds calls spare (f found) (g found)) :
    Tracks w rounds calls spare (method? cls name >>= f) (method? cls name >>= g) :=
  tracks_get_bind fun _ stocked _ => rest _ fun _ found => stocked.method? found

/-- A change of the interfaces that brings no larger code. -/
theorem tracks_modifyInterfaces {f : List InterfaceDef → List InterfaceDef}
    (fit : ∀ known : List InterfaceDef, (∀ i ∈ known, i.decl.Fits w.bound) → ∀ i ∈ f known, i.decl.Fits w.bound) :
    Tracks w rounds calls spare (modify fun s => { s with interfaces := f s.interfaces } : Run PUnit)
      (modify fun s => { s with interfaces := f s.interfaces }) := by
  refine tracks_self fun s stocked _ => ?_
  refine ⟨⟨stocked.closures, stocked.classes, fun {i} member => ?_, stocked.calls, stocked.deepest, stocked.turns⟩,
    rfl, Nat.le_refl _, Nat.le_refl _, Nat.le_refl _⟩
  exact fit s.interfaces (fun _ => stocked.interfaces) i member

theorem buildInterface_tracks (fits : w.Fits) (fuel : Nat) (name : String) (span : Span) :
    Tracks w rounds calls spare (buildInterface fuel name span) (buildInterface fuel name span) := by
  induction fuel generalizing name span with
  | zero => exact tracks_throw _
  | succ fuel ih =>
    unfold buildInterface
    refine tracks_bind tracks_get fun s => ?_
    split
    · exact tracks_pure ()
    · refine tracks_read_bind ?_
      cases declared : w.interface? name with
      | none => exact tracks_fail _ _
      | some decl =>
        obtain ⟨d, found, rfl⟩ := Option.map_eq_some_iff.1 declared
        have fit : d.2.Fits w.bound := fits d (List.mem_of_find?_eq_some (Option.filter_eq_some_iff.1 found).1)
        refine tracks_bind (tracks_modifyInterfaces fun known before i member => ?_) fun _ => tracks_forM fun p => ?_
        · rcases List.mem_cons.1 member with rfl | member
          · exact fit
          · exact before i member
        · refine tracks_bind (ih _ _) fun _ => tracks_modifyInterfaces fun known before i member => ?_
          obtain ⟨j, written, rfl⟩ := List.mem_map.1 member
          split
          · exact before j written
          · exact before j written

theorem evalField_tracks
    (framed : ∀ context, Runs w rounds (context :: calls) (w.beyond rounds calls spare) w.bound k k') (cls : Nat)
    (self : Option Value) {e : Expr} (small : e.size ≤ w.bound) :
    Tracks w rounds calls spare (evalField k cls self e) (evalField k' cls self e) := by
  refine tracks_bind tracks_heap fun h => tracks_initial _ _ ?_
  exact tracks_bind (tracks_openScope _) fun scope => (framed _).eval e scope small

theorem orForget_tracksAt {α : Type} {s : State} (name : String) {x y : Run α}
    (tracks : TracksAt w rounds spare s x y) :
    TracksAt w rounds spare s (orForget name x) (orForget name y) := by
  refine tracks.attempt.bind fun r t _ leaves => ?_
  cases r with
  | ok a => exact tracks_pure a t leaves.stocked rfl
  | error d =>
    refine tracks_bind (tracks_modify fun _ => ?_) (fun _ => tracks_throw _) t leaves.stocked rfl
    exact ⟨rfl, rfl, rfl, rfl, rfl⟩

theorem addInterfaces_tracks (fits : w.Fits) (cls : Nat) (interfaces : List TypeExpr) :
    Tracks w rounds calls spare
      (interfaces.forM fun t => do
        buildInterface ((← read).program.statements.length + 1) (headName t) t.span
        modifyClass cls fun c => { c with interfaces := c.interfaces ++ [headName t] })
      (interfaces.forM fun t => do
        buildInterface ((← read).program.statements.length + 1) (headName t) t.span
        modifyClass cls fun c => { c with interfaces := c.interfaces ++ [headName t] }) := by
  refine tracks_forM fun t => tracks_bind tracks_read fun w' => ?_
  exact tracks_bind (buildInterface_tracks fits _ _ _) fun _ => tracks_modifyClass _ fun _ => rfl

theorem addMembers_tracks (cls : Nat) (decl : Declaration) :
    Tracks w rounds calls spare (addMembers cls decl) (addMembers cls decl) := by
  refine tracks_bind (tracks_modifyClass _ fun _ => rfl) fun _ => ?_
  split
  · split
    · exact tracks_modifyClass _ fun _ => rfl
    · exact tracks_fail _ _
  · exact tracks_pure ()

theorem initStatics_tracks
    (framed : ∀ context, Runs w rounds (context :: calls) (w.beyond rounds calls spare) w.bound k k') (cls : Nat)
    {fields : List Field} (small : ∀ f ∈ fields, ∀ e, f.init = some e → e.size ≤ w.bound) :
    Tracks w rounds calls spare (initStatics k cls fields) (initStatics k' cls fields) := by
  induction fields with
  | nil => exact tracks_pure ()
  | cons f fields ih =>
    have later := ih fun g member => small g (List.mem_cons_of_mem f member)
    have rest (v : Value) : Tracks w rounds calls spare
        (do
          modifyClass cls fun c => c.setStatic f.name.text v
          initStatics k cls fields)
        (do
          modifyClass cls fun c => c.setStatic f.name.text v
          initStatics k' cls fields) :=
      tracks_bind (tracks_modifyClass _ fun _ => rfl) fun _ => later
    unfold initStatics
    dsimp only
    split
    · cases held : f.init with
      | some e =>
        exact tracks_bind (evalField_tracks framed cls none (small f List.mem_cons_self e held)) rest
      | none => exact tracks_bind (tracks_pure _) rest
    · exact later

/-- How many declarations there are whose class is not known yet. -/
def unbuilt (w : World) (s : State) : Nat := w.declarations.countP fun d => (s.classes.lookup d.2.name.text).isNone

theorem unbuilt_le (w : World) (s : State) : unbuilt w s ≤ w.declarations.length := List.countP_le_length

/-- A class that is declared is one fewer once it is known. -/
theorem unbuilt_lt {s t : State} {name : String} {d : String × Declaration} {id : Nat}
    (declared : w.class? name = some d) (unknown : s.classes.lookup name = none)
    (known : t.classes = (name, id) :: s.classes) : unbuilt w t < unbuilt w s := by
  have found : w.declaration? name = some d := (Option.filter_eq_some_iff.1 declared).1
  have named : d.2.name.text = name := by simpa using List.find?_some found
  obtain ⟨before, after, split⟩ := List.append_of_mem (List.mem_of_find?_eq_some found)
  have fewer (ds : List (String × Declaration)) :
      (ds.countP fun d => (t.classes.lookup d.2.name.text).isNone) ≤
        ds.countP fun d => (s.classes.lookup d.2.name.text).isNone := by
    refine List.countP_mono_left fun e _ fresh => ?_
    rw [known, List.lookup_cons] at fresh
    split at fresh
    · cases fresh
    · exact fresh
  have left := fewer before
  have right := fewer after
  have now : (t.classes.lookup d.2.name.text).isNone = false := by simp [known, named]
  have once : (s.classes.lookup d.2.name.text).isNone = true := by simp [named, unknown]
  unfold unbuilt
  simp only [split, List.countP_append, List.countP_cons, now, once]
  simp only [Bool.false_eq_true, if_false, if_true]
  omega

theorem addSupers_tracksAt (fits : w.Fits) {t : State} (stocked : Stocked w t)
    (above : ∀ name span, TracksAt w rounds spare t (k.classOf name span) (k'.classOf name span)) (cls : Nat)
    (parent : Option TypeExpr) (interfaces : List TypeExpr) :
    TracksAt w rounds spare t (addSupers k cls parent interfaces) (addSupers k' cls parent interfaces) := by
  have rest (calls : List CallFrame) := @addInterfaces_tracks w calls rounds spare fits cls interfaces
  unfold addSupers
  cases parent with
  | none => exact rest _ t stocked rfl
  | some type =>
    dsimp only
    split
    · refine (above _ _).bind fun p s' _ leaves => ?_
      exact tracks_bind (tracks_modifyClass _ (by intro _; rfl)) (fun _ => rest _) s' leaves.stocked rfl
    · exact rest _ t stocked rfl

/-- A new class is known under its name, and nothing else changes. -/
theorem tracksAt_register {s : State} (stocked : Stocked w s) (name : String) {c : ClassDef}
    (fit : c.decl.Fits w.bound) :
    let register : Run Nat := modifyGet fun s =>
      (s.heap.classes.size,
        { s with
          classes := (name, s.heap.classes.size) :: s.classes,
          heap := { s.heap with classes := s.heap.classes.push c } })
    TracksAt w rounds spare s register register := by
  refine ⟨⟨⟨stocked.closures, fun {i d} held => ?_, stocked.interfaces, stocked.calls, stocked.deepest, stocked.turns⟩,
    rfl, Nat.le_refl _, Nat.le_refl _, Nat.le_refl _⟩, fun _ _ => rfl⟩
  have held : (s.heap.classes.push c)[i]? = some d := held
  rw [Array.getElem?_push] at held
  split at held
  · cases held
    exact fit
  · exact stocked.classes held

/-- A class that is not known yet is built from its superclass on, when fewer are not known. -/
theorem classOf_tracksAt (fits : w.Fits) {s : State} (stocked : Stocked w s)
    (framed : ∀ context, Runs w rounds (context :: s.calls) (w.beyond rounds s.calls spare) w.bound k k')
    (above : ∀ t, Stocked w t → t.calls = s.calls → unbuilt w t < unbuilt w s → ∀ name span,
      TracksAt w rounds spare t (k.classOf name span) (k'.classOf name span)) (name : String) (span : Span) :
    TracksAt w rounds spare s (classOf k name span) (classOf k' name span) := by
  refine (tracks_get s stocked rfl).bind fun _ _ ran _ => ?_
  cases ran
  cases unknown : s.classes.lookup name with
  | some id => exact tracks_pure id s stocked rfl
  | none =>
    refine (tracks_read s stocked rfl).bind fun _ _ ran _ => ?_
    cases ran
    cases declared : w.class? name with
    | none => exact tracks_fail _ _ s stocked rfl
    | some d =>
      have found : w.declaration? name = some d := (Option.filter_eq_some_iff.1 declared).1
      have fit : d.2.Fits w.bound := fits d (List.mem_of_find?_eq_some found)
      refine (tracksAt_register stocked name fit).bind fun cls t ran leaves => ?_
      have fewer : unbuilt w t < unbuilt w s := by
        cases ran
        exact unbuilt_lt declared unknown rfl
      have built (parent : Option TypeExpr) (interfaces : List TypeExpr) : TracksAt w rounds spare t
          (do
            orForget name do
              addSupers k cls parent interfaces
              addMembers cls d.2
            initStatics k cls d.2.fields
            return cls)
          (do
            orForget name do
              addSupers k' cls parent interfaces
              addMembers cls d.2
            initStatics k' cls d.2.fields
            return cls) := by
        have supers := addSupers_tracksAt fits leaves.stocked (above t leaves.stocked leaves.calls fewer) cls parent
          interfaces
        refine (orForget_tracksAt name (supers.bind fun _ u _ kept => ?_)).bind fun _ u _ kept => ?_
        · exact addMembers_tracks cls d.2 u kept.stocked rfl
        · refine tracks_bind (initStatics_tracks framed cls fun f member e held => fit.fields member held)
            (fun _ => tracks_pure cls) u kept.stocked (kept.calls.trans leaves.calls)
      cases d.2.heading with
      | ofClass _ parent interfaces => exact built parent interfaces
      | ofInterface _ => exact built none []

/-! ## Methods of the host -/

/-- The work of the host follows itself. -/
theorem tracks_hostRelated : HostRelated fun {_} x y => Tracks w rounds calls spare x y where
  pure := tracks_pure
  bind := tracks_bind
  time := tracks_bind tracks_read fun _ => tracks_pure _
  heap_bind rest := tracks_bind tracks_heap fun h => rest h h (.refl h)
  text := tracks_text
  print _ := tracks_modify fun _ => ⟨rfl, rfl, rfl, rfl, rfl⟩
  modifyArrays _ := tracks_modifyHeap (fun _ => rfl) fun _ => rfl
  modifyCursor _ _ := tracks_modifyHeap (fun _ => rfl) fun _ => rfl
  newArray := tracks_newArray
  newCursor _ := tracks_modifyGet fun _ => ⟨rfl, rfl, rfl, rfl, rfl⟩

/-- A host method works alike under both evaluators; it may call functions back. -/
def HostMethod.Follows (m : HostMethod) (w : World) (rounds : Nat) (calls : List CallFrame) (spare : Nat)
    (k k' : Evaluator) : Prop :=
  ∀ (span : Span) (args : List HostArg), Tracks w rounds calls (spare - w.stride) (m.call k span args)
    (m.call k' span args)

theorem hostMethod?_follows (serves : Serves w rounds calls spare k k') {h : Host} {name : String} {m : HostMethod}
    (found : Standard.method? h name = some m) : m.Follows w rounds calls spare k k' := fun span _ =>
  tracks_hostRelated.method (fun f item => serves.callValue f [item] span) found

theorem classMethod?_follows {c : HostClass} {name : String} {m : HostMethod}
    (found : Standard.classMethod? c name = some m) : m.Follows w rounds calls spare k k' := fun _ _ =>
  tracks_hostRelated.classMethod found

theorem boxedMethod?_follows {c : HostClass} {v : Value} {name : String} {m : HostMethod}
    (found : Standard.boxedMethod? c v name = some m) : m.Follows w rounds calls spare k k' := fun _ _ =>
  tracks_hostRelated.boxedMethod found

/-! ## Calls -/

theorem checkCount_tracks (name : String) (params : List Param) (count : Nat) (span : Span) :
    Tracks w rounds calls spare (checkCount name params count span) (checkCount name params count span) := by
  unfold checkCount
  dsimp only
  split
  · exact tracks_pure ()
  · split
    · exact tracks_fail _ _
    · exact tracks_fail _ _

theorem bindParams_tracks (scope : ScopeId)
    (each : ∀ e, e.size ≤ w.bound → Tracks w rounds calls spare (k.eval e scope) (k'.eval e scope))
    {params : List Param}
    (fit : Param.FitAll w.bound params) (args : List Value) :
    Tracks w rounds calls spare (bindParams k scope params args) (bindParams k' scope params args) := by
  induction params generalizing args with
  | nil => exact tracks_pure ()
  | cons p params ih =>
    have rest (v : Value) : Tracks w rounds calls spare
        (do
          define scope p.name.text (coerce p.type v)
          bindParams k scope params args.tail)
        (do
          define scope p.name.text (coerce p.type v)
          bindParams k' scope params args.tail) :=
      tracks_bind (tracks_define _ _ _) fun _ => ih (fun q member => fit q (List.mem_cons_of_mem p member)) args.tail
    unfold bindParams
    cases args with
    | cons a args => exact tracks_bind (tracks_pure _) rest
    | nil =>
      cases held : p.fallback with
      | some e => exact tracks_bind (each e (fit p List.mem_cons_self e held)) rest
      | none => exact tracks_fail_bind _ _ _ _

theorem withDefaults_tracks (serves : Serves w rounds calls spare k k') {m : FoundMethod}
    (fit : Param.FitAll w.bound m.decl.params) (args : List Value) (span : Span) :
    Tracks w rounds calls spare (withDefaults k m args span) (withDefaults k' m args span) := by
  refine tracks_bind (checkCount_tracks _ _ _ _) fun _ => ?_
  split
  · exact tracks_pure _
  · refine tracks_noteTurn_bind (tracks_releasing (tracks_bind (tracks_openScope _) fun scope => ?_))
    refine tracks_bind (bindParams_tracks scope (fun e small => serves.fallback e scope small) fit args) fun _ => ?_
    exact tracks_mapM fun p => tracks_bind (tracks_binding? _ _) fun _ => tracks_pure _

theorem execAll_tracks (runs : Runs w rounds calls spare size k k') (scope : ScopeId) {statements : List Stmt}
    (small : Stmt.sizeAll statements ≤ size) :
    Tracks w rounds calls spare (execAll k scope statements) (execAll k' scope statements) := by
  induction statements with
  | nil => exact tracks_pure _
  | cons s statements ih =>
    rw [Stmt.sizeAll] at small
    refine tracks_bind (runs.exec s scope (by omega)) fun outcome => ?_
    cases outcome with
    | returned v => exact tracks_pure _
    | normal => exact ih (by omega)

theorem execBlock_tracks (runs : Runs w rounds calls spare size k k') {b : Block} (small : b.size ≤ size + 1)
    (outer : ScopeId) : Tracks w rounds calls spare (execBlock k b outer) (execBlock k' b outer) := by
  obtain ⟨mark, statements⟩ := b
  rw [Block.size] at small
  refine tracks_releasing (tracks_bind (tracks_openScope _) fun scope => ?_)
  exact execAll_tracks runs scope (by dsimp only; omega)

theorem invoke_tracks (serves : Serves w rounds calls spare k k') {m : FoundMethod} (fit : m.decl.Fits w.bound)
    (from_ : Option Nat) (self : Option Value) (args : List Value) (span : Span) :
    Tracks w rounds calls spare (invoke k m from_ self args span) (invoke k' m from_ self args span) := by
  refine tracks_bind (checkCount_tracks _ _ _ _) fun _ => tracks_checkDepth_bind _ fun free => ?_
  refine tracks_bind tracks_heap fun h => tracks_inContext _ _ free ?_
  refine tracks_bind (tracks_openScope _) fun scope => ?_
  have runs := serves.framed ⟨m.owner <|> from_, self⟩
  refine tracks_bind (bindParams_tracks scope (fun e small => runs.eval e scope small) fit.params args) fun _ => ?_
  cases held : m.decl.body with
  | none => exact tracks_pure _
  | some body =>
    refine tracks_bind (execBlock_tracks runs (Nat.le_succ_of_le (fit.body held)) scope) fun outcome => ?_
    cases outcome with
    | normal => exact tracks_pure _
    | returned v => exact tracks_pure _

theorem callLambda_tracks (serves : Serves w rounds calls spare k k') {c : Closure} (fit : c.Fits w.bound)
    (args : List Value)
    (span : Span) : Tracks w rounds calls spare (callLambda k c args span) (callLambda k' c args span) := by
  refine tracks_bind (checkCount_tracks _ _ _ _) fun _ => tracks_checkDepth_bind _ fun free => ?_
  refine tracks_inContext _ _ free (tracks_bind (tracks_openFrame _) fun scope => ?_)
  have runs := serves.framed (c.context.getD ⟨none, none⟩)
  refine tracks_bind (bindParams_tracks scope (fun e small => runs.eval e scope small) fit.params args) fun _ => ?_
  cases held : c.body with
  | value e => exact tracks_bind (runs.eval e scope (fit.value held)) fun _ => tracks_pure _
  | block b =>
    refine tracks_bind (execBlock_tracks runs (Nat.le_succ_of_le (fit.block held)) scope) fun outcome => ?_
    cases outcome with
    | normal => exact tracks_pure _
    | returned v => exact tracks_pure _

theorem toValue_tracks (serves : Serves w rounds calls spare k k') (v : Value) (span : Span) :
    Tracks w rounds calls spare (toValue k v span) (toValue k' v span) := by
  unfold toValue
  split
  · refine tracks_bind (serves.classOf _ _) fun cls => ?_
    exact tracks_bind (tracks_newObject _ _) fun _ => tracks_pure _
  · exact tracks_pure _

theorem passAll_tracks (name : String) (span : Span) (position : Nat) (params : List ParamKind) (args : List Value) :
    Tracks w rounds calls spare (passAll name span position params args)
      (passAll name span position params args) := by
  induction params generalizing position args with
  | nil => exact tracks_pure _
  | cons p params ih =>
    cases args with
    | nil => exact tracks_pure _
    | cons v args =>
      refine tracks_bind tracks_heap fun h => ?_
      split
      · exact tracks_fail _ _
      · exact tracks_bind (ih _ _) fun _ => tracks_pure _

theorem callHost_tracks (serves : Serves w rounds calls spare k k') {m : HostMethod}
    (host : m.Follows w rounds calls spare k k')
    (name : String) (args : List Value) (span : Span) :
    Tracks w rounds calls spare (callHost k m name args span) (callHost k' m name args span) := by
  unfold callHost
  dsimp only
  split
  · exact tracks_fail_bind _ _ _ _
  · refine tracks_bind (passAll_tracks _ _ _ _ _) fun passed => tracks_noteTurn_bind ?_
    refine tracks_bind (host span passed) fun r => ?_
    split
    · exact toValue_tracks (serves.mono (Nat.sub_le _ _)) _ _
    · exact tracks_fail _ _
    · exact tracks_fail _ _

theorem callDeclared_tracks (serves : Serves w rounds calls spare k k') {m : HostMethod}
    (host : m.Follows w rounds calls spare k k')
    {declared : Option FoundMethod} (fit : ∀ d ∈ declared, d.decl.Fits w.bound) (name : String) (args : List Value)
    (span : Span) :
    Tracks w rounds calls spare (callDeclared k m declared name args span)
      (callDeclared k' m declared name args span) := by
  unfold callDeclared
  cases declared with
  | none => exact tracks_bind (tracks_pure _) fun _ => callHost_tracks serves host _ _ _
  | some d =>
    refine tracks_bind (withDefaults_tracks serves (fit d rfl).params args span) fun _ => ?_
    exact callHost_tracks serves host _ _ _

theorem callObject_tracks (serves : Serves w rounds calls spare k k') (id : Nat) (name : String) (args : List Value)
    (span : Span) :
    Tracks w rounds calls spare (callObject k id name args span) (callObject k' id name args span) := by
  refine tracks_bind tracks_heap fun h => tracks_bind tracks_heap fun h' => ?_
  refine tracks_method?_bind _ _ fun found fit => ?_
  have instance_ : ∀ d ∈ found.filter fun m => !m.isStatic, d.decl.Fits w.bound := fun d member =>
    fit d (Option.filter_eq_some_iff.1 member).1
  dsimp only
  split
  · next m own => exact invoke_tracks serves (instance_ m (Option.filter_eq_some_iff.1 own).1) _ _ _ _
  · split
    · next m hosted =>
      obtain ⟨thing, -, method⟩ := Option.bind_eq_some_iff.mp hosted
      exact callDeclared_tracks serves (hostMethod?_follows serves method) instance_ _ _ _
    · split
      · exact tracks_fail _ _
      · exact tracks_fail _ _

theorem callStatic_tracks (serves : Serves w rounds calls spare k k') (id : Nat) (name : String) (args : List Value)
    (span : Span) :
    Tracks w rounds calls spare (callStatic k id name args span) (callStatic k' id name args span) := by
  refine tracks_bind tracks_heap fun h => tracks_method?_bind _ _ fun found fit => ?_
  split
  · exact tracks_fail _ _
  · next m static =>
    have own := fit m (Option.filter_eq_some_iff.1 static).1
    split
    · exact invoke_tracks serves own _ _ _ _
    · refine tracks_bind tracks_heap fun h' => ?_
      dsimp only
      split
      · next hm hosted =>
        obtain ⟨cls, -, bound⟩ := List.exists_of_findSome?_eq_some hosted
        obtain ⟨host, -, method⟩ := Option.bind_eq_some_iff.mp bound
        refine callDeclared_tracks serves (classMethod?_follows method) (fun d same => ?_) _ _ _
        cases same
        exact own
      · exact tracks_fail _ _

theorem callBoxed_tracks (serves : Serves w rounds calls spare k k') (boxed : String) (v : Value) (name : String)
    (args : List Value) (span : Span) :
    Tracks w rounds calls spare (callBoxed k boxed v name args span) (callBoxed k' boxed v name args span) := by
  refine tracks_bind (serves.classOf _ _) fun id => tracks_method?_bind _ _ fun declared fit => ?_
  split
  · next m own => exact invoke_tracks serves (fit m (Option.filter_eq_some_iff.1 own).1) _ _ _ _
  · refine tracks_bind tracks_heap fun h => ?_
    split
    · exact tracks_failNamed _ _ v
    · split
      · next m method => exact callDeclared_tracks serves (boxedMethod?_follows method) fit _ _ _
      · split
        · exact tracks_fail _ _
        · exact tracks_failNamed _ _ v

theorem callMethod_tracks (serves : Serves w rounds calls spare k k') (receiver : Value) (name : String)
    (args : List Value)
    (span : Span) :
    Tracks w rounds calls spare (callMethod k receiver name args span) (callMethod k' receiver name args span) := by
  unfold callMethod
  split
  · exact tracks_fail _ _
  · exact callObject_tracks serves _ _ _ _
  · exact callStatic_tracks serves _ _ _ _
  · split
    · exact callBoxed_tracks serves _ _ _ _ _
    · exact tracks_failNamed _ _ _

theorem hasMethod_tracks (serves : Serves w rounds calls spare k k') (v : Value) (name : String) :
    Tracks w rounds calls spare (hasMethod k v name) (hasMethod k' v name) := by
  unfold hasMethod
  split
  · refine tracks_bind tracks_heap fun h => tracks_bind (tracks_method? _ _) fun found => ?_
    split
    · exact tracks_pure _
    · exact tracks_pure _
  · exact tracks_bind (tracks_method? _ _) fun _ => tracks_pure _
  · split
    · exact tracks_pure _
    · refine tracks_bind (tracks_attempt (serves.classOf _ _)) fun r => ?_
      split
      · exact tracks_pure _
      · refine tracks_bind (tracks_method? _ _) fun found => ?_
        split
        · exact tracks_pure _
        · exact tracks_bind tracks_heap fun _ => tracks_pure _

theorem callValue_tracks (serves : Serves w rounds calls spare k k') (f : Value) (args : List Value) (span : Span) :
    Tracks w rounds calls spare (callValue k f args span) (callValue k' f args span) := by
  unfold callValue
  split
  · exact tracks_heap_bind fun s stocked => callLambda_tracks serves (stocked.closure _) _ _
  · exact tracks_bind tracks_heap fun _ => callMethod_tracks serves _ _ _ _
  · exact tracks_fail _ _
  · exact tracks_failNamed _ _ _

theorem callParentConstructor_tracks (serves : Serves w rounds calls spare k k') (args : List Value) (span : Span) :
    Tracks w rounds calls spare (callParentConstructor k args span) (callParentConstructor k' args span) := by
  refine tracks_bind tracks_get fun s => ?_
  split
  · exact tracks_fail _ _
  · refine tracks_get_bind fun s' stocked _ => ?_
    split
    · split
      · exact tracks_pure _
      · exact tracks_bind tracks_heap fun _ => tracks_fail _ _
    · next ctor found =>
      split
      · exact tracks_bind (invoke_tracks serves (stocked.constructor? found) _ _ _ _) fun _ => tracks_pure _
      · exact tracks_pure _

theorem callParentMethod_tracks (serves : Serves w rounds calls spare k k') (property : Name) (args : List Value)
    (span : Span) :
    Tracks w rounds calls spare (callParentMethod k property args span) (callParentMethod k' property args span) := by
  refine tracks_bind tracks_get fun s => ?_
  split
  · exact tracks_fail _ _
  · refine tracks_bind tracks_heap fun h => tracks_method?_bind _ _ fun declared fit => ?_
    split
    · next m own => exact invoke_tracks serves (fit m (Option.filter_eq_some_iff.1 own).1) _ _ _ _
    · refine tracks_bind tracks_heap fun h' => ?_
      dsimp only
      split
      · next m hosted =>
        obtain ⟨thing, -, method⟩ := Option.bind_eq_some_iff.mp hosted
        exact callDeclared_tracks serves (hostMethod?_follows serves method) fit _ _ _
      · exact tracks_fail _ _

theorem createHost_tracks (serves : Serves w rounds calls spare k k') (cls : Nat) {ctor : Option FoundMethod}
    (fit : ∀ c ∈ ctor, c.decl.Fits w.bound) (args : List Value) (span : Span) :
    Tracks w rounds calls spare (createHost k cls ctor args span) (createHost k' cls ctor args span) := by
  refine tracks_bind tracks_get fun s => ?_
  split
  · exact tracks_pure _
  · next h _ =>
    have rest (passed : List Value) : Tracks w rounds calls spare
        (do
          if passed.isEmpty then return some (← newArray (.fitting []))
          else
            fail span (.hostFailed ("new " ++ h.name) (HostFault.constructorCount passed.length).message))
        (do
          if passed.isEmpty then return some (← newArray (.fitting []))
          else
            fail span (.hostFailed ("new " ++ h.name) (HostFault.constructorCount passed.length).message)) := by
      split
      · exact tracks_bind (tracks_newArray _) fun _ => tracks_pure _
      · exact tracks_fail _ _
    split
    · exact tracks_fail _ _
    · dsimp only
      split
      · split
        · exact tracks_bind (tracks_pure _) rest
        · exact tracks_bind (withDefaults_tracks serves (fit _ rfl).params _ _) rest
      · exact tracks_bind (tracks_pure _) rest

theorem initFields_tracks (serves : Serves w rounds calls spare k k') (cls object : Nat) {fields : List Field}
    (small : ∀ f ∈ fields, ∀ e, f.init = some e → e.size ≤ w.bound) :
    Tracks w rounds calls spare (initFields k cls object fields) (initFields k' cls object fields) := by
  induction fields with
  | nil => exact tracks_pure ()
  | cons f fields ih =>
    have later := ih fun g member => small g (List.mem_cons_of_mem f member)
    have rest (v : Value) : Tracks w rounds calls spare
        (do
          setField object f.name.text (coerce f.type v)
          initFields k cls object fields)
        (do
          setField object f.name.text (coerce f.type v)
          initFields k' cls object fields) :=
      tracks_bind (tracks_setField _ _ _) fun _ => later
    unfold initFields
    dsimp only
    cases held : f.init with
    | some e => exact tracks_bind (evalField_tracks serves.framed _ _ (small f List.mem_cons_self e held)) rest
    | none => exact tracks_bind (tracks_pure _) rest

theorem instantiate_tracks (serves : Serves w rounds calls spare k k') (cls : Nat) (args : List Value) (span : Span) :
    Tracks w rounds calls spare (instantiate k cls args span) (instantiate k' cls args span) := by
  refine tracks_get_bind fun s stocked _ => ?_
  have fit : ∀ c ∈ s.constructor? cls, c.decl.Fits w.bound := fun c found => stocked.constructor? found
  refine tracks_bind (createHost_tracks serves _ fit _ _) fun host => ?_
  refine tracks_bind (tracks_newObject _ _) fun id => tracks_bind tracks_heap fun h => ?_
  refine tracks_bind (tracks_forM fun c => ?_) fun _ => ?_
  · refine tracks_heap_bind fun s stocked => initFields_tracks serves _ _ fun f member e held => ?_
    exact stocked.instanceFields member held
  · dsimp only
    split
    · next c found =>
      split
      · exact tracks_bind (invoke_tracks serves (fit c found) _ _ _ _) fun _ => tracks_pure id
      · exact tracks_pure id
    · split
      · exact tracks_bind tracks_heap fun _ => tracks_fail_bind _ _ _ _
      · exact tracks_pure id

/-! ## Markup -/

theorem evalAttributes_tracks (runs : Runs w rounds calls spare size k k') (scope : ScopeId)
    {attributes : List Attribute}
    (small : Attribute.sizeAll attributes ≤ size) :
    Tracks w rounds calls spare (evalAttributes k scope attributes) (evalAttributes k' scope attributes) := by
  induction attributes with
  | nil => exact tracks_pure _
  | cons a attributes ih =>
    obtain ⟨mark, name, value⟩ := a
    rw [Attribute.sizeAll] at small
    refine tracks_bind (runs.eval value scope (by omega)) fun _ => ?_
    exact tracks_bind (ih (by omega)) fun _ => tracks_pure _

theorem renderComponent_tracks (serves : Serves w rounds calls spare k k') (tag : String)
    (attrs : List (String × Value))
    (span : Span) :
    Tracks w rounds calls spare (renderComponent k tag attrs span) (renderComponent k' tag attrs span) := by
  refine tracks_bind (serves.classOf _ _) fun cls => tracks_bind (tracks_method? _ _) fun found => ?_
  dsimp only
  split
  · exact tracks_fail_bind _ _ _ _
  · refine tracks_bind (instantiate_tracks serves _ _ _) fun id => ?_
    refine tracks_bind (tracks_forM fun a => tracks_setField _ _ _) fun _ => ?_
    exact callMethod_tracks serves _ _ _ _

theorem component?_tracks (serves : Serves w rounds calls spare k k') (tag : String) (attrs : List (String × Value))
    (span : Span) : Tracks w rounds calls spare (component? k tag attrs span) (component? k' tag attrs span) := by
  refine tracks_bind tracks_read fun w' => ?_
  split
  · exact tracks_pure _
  · refine tracks_bind (tracks_attempt (renderComponent_tracks serves tag attrs span)) fun r => ?_
    split
    · exact tracks_pure _
    · split
      · exact tracks_throw _
      · exact tracks_pure _

theorem toProperty_tracks (v : Value) : Tracks w rounds calls spare (toProperty v) (toProperty v) := by
  unfold toProperty
  split
  · exact tracks_pure _
  · exact tracks_pure _
  · exact tracks_pure _
  · exact tracks_pure _
  · exact tracks_bind (tracks_text _) fun _ => tracks_pure _

theorem addProps_tracks (n : Markup.Node) (props : List (String × Value)) :
    Tracks w rounds calls spare (addProps n props) (addProps n props) := by
  induction props generalizing n with
  | nil => exact tracks_pure n
  | cons p props ih => exact tracks_bind (toProperty_tracks p.2) fun _ => ih _

theorem addValue_tracks (n : Markup.Node) (v : Value) :
    Tracks w rounds calls spare (addValue n v) (addValue n v) := by
  refine tracks_bind tracks_heap fun h => ?_
  split
  · exact tracks_pure _
  · exact tracks_throw _

theorem addChildren_tracks (runs : Runs w rounds calls spare size k k') (scope : ScopeId) (n : Markup.Node)
    {children : List Child} (small : Child.sizeAll children + 1 ≤ size) :
    Tracks w rounds calls spare (addChildren k scope n children) (addChildren k' scope n children) := by
  induction children generalizing n with
  | nil => exact tracks_pure n
  | cons c children ih =>
    unfold addChildren
    cases c with
    | text m t =>
      rw [Child.sizeAll] at small
      exact tracks_bind (tracks_pure _) fun n => ih n small
    | element e =>
      rw [Child.sizeAll] at small
      refine tracks_bind (runs.eval (.markup e) scope (by rw [Expr.size]; omega)) fun v => ?_
      exact tracks_bind (addValue_tracks n v) fun n => ih n (by omega)
    | hole m e =>
      rw [Child.sizeAll] at small
      refine tracks_bind (runs.eval e scope (by omega)) fun v => ?_
      exact tracks_bind (addValue_tracks n v) fun n => ih n (by omega)

theorem wrapNode_tracks (serves : Serves w rounds calls spare k k') (n : Markup.Node) (span : Span) :
    Tracks w rounds calls spare (wrapNode k n span) (wrapNode k' n span) := by
  refine tracks_bind
    (tracks_modifyGet fun _ => ⟨rfl, rfl, rfl, rfl, rfl⟩) fun h => tracks_bind tracks_read fun w' => ?_
  split
  · exact tracks_pure _
  · refine tracks_bind (serves.classOf _ _) fun cls => ?_
    exact tracks_bind (tracks_newObject _ _) fun _ => tracks_pure _

theorem evalElement_tracks (serves : Serves w rounds calls spare k k') (runs : Runs w rounds calls spare size k k')
    {e : Element}
    (small : e.size ≤ size) (scope : ScopeId) :
    Tracks w rounds calls spare (evalElement k e scope) (evalElement k' e scope) := by
  obtain ⟨mark, tag, attributes, children, selfClosing⟩ := e
  rw [Element.size] at small
  refine tracks_bind (evalAttributes_tracks runs scope (by dsimp only; omega)) fun attrs => ?_
  refine tracks_bind (component?_tracks serves _ _ _) fun rendered => ?_
  split
  · exact tracks_pure _
  · refine tracks_bind (addProps_tracks _ _) fun n => ?_
    refine tracks_bind (addChildren_tracks runs scope n (by dsimp only; omega)) fun n => ?_
    exact wrapNode_tracks serves n _

/-! ## Expressions -/

theorem evalName_tracks (serves : Serves w rounds calls spare k k') (id : Name) (scope : ScopeId) :
    Tracks w rounds calls spare (evalName k id scope) (evalName k' id scope) := by
  refine tracks_bind (tracks_binding? _ _) fun found => ?_
  split
  · exact tracks_pure _
  · refine tracks_bind tracks_read fun w' => ?_
    split
    · exact tracks_bind (serves.classOf _ _) fun cls => tracks_newClassRef cls
    · exact tracks_fail _ _

theorem evalAll_tracks (runs : Runs w rounds calls spare size k k') (scope : ScopeId) {es : List Expr}
    (small : Expr.sizeAll es ≤ size) : Tracks w rounds calls spare (evalAll k scope es) (evalAll k' scope es) := by
  induction es with
  | nil => exact tracks_pure _
  | cons e es ih =>
    rw [Expr.sizeAll] at small
    refine tracks_bind (runs.eval e scope (by omega)) fun _ => ?_
    exact tracks_bind (ih (by omega)) fun _ => tracks_pure _

theorem applyUnary_tracks (op : UnaryOp) (v : Value) (span : Span) :
    Tracks w rounds calls spare (applyUnary op v span) (applyUnary op v span) := by
  unfold applyUnary
  split
  · exact tracks_pure _
  · exact tracks_pure _
  · exact tracks_failNamed _ _ _

theorem numeric_tracks (op : BinaryOp) (left right : Value) (span : Span) :
    let numeric : Run Value := do
      match left, right with
      | .number x, .number y =>
        match numericResult? op x y with
        | some v => return v
        | none => fail span .divisionByZero
      | _, _ => fail span (.badBinary op.spelling (← typeName left) (← typeName right))
    Tracks w rounds calls spare numeric numeric := by
  dsimp only
  split
  · split
    · exact tracks_pure _
    · exact tracks_fail _ _
  · exact tracks_bind (tracks_typeName _) fun _ => tracks_failNamed _ _ _

theorem applyBinary_tracks (op : BinaryOp) (left right : Value) (span : Span) :
    Tracks w rounds calls spare (applyBinary op left right span) (applyBinary op left right span) := by
  unfold applyBinary
  dsimp only
  split
  · exact tracks_bind tracks_heap fun _ => tracks_pure _
  · exact tracks_bind tracks_heap fun _ => tracks_pure _
  · split
    · exact tracks_bind (tracks_text _) fun _ => tracks_bind (tracks_text _) fun _ => tracks_pure _
    · exact numeric_tracks .add left right span
  · exact numeric_tracks op left right span

theorem logicOperand_tracks (op : BinaryOp) (e : Expr) (v : Value) :
    Tracks w rounds calls spare (logicOperand op e v) (logicOperand op e v) := by
  unfold logicOperand
  split
  · exact tracks_pure _
  · exact tracks_failNamed _ _ _

theorem evalLogic_tracks (runs : Runs w rounds calls spare size k k') (op : BinaryOp) (decisive : Bool)
    {left right : Expr}
    (small : left.size + right.size ≤ size) (scope : ScopeId) :
    Tracks w rounds calls spare (evalLogic k op decisive left right scope)
      (evalLogic k' op decisive left right scope) := by
  refine tracks_bind (runs.eval left scope (by omega)) fun l => tracks_bind (logicOperand_tracks _ _ _) fun b => ?_
  split
  · exact tracks_pure _
  · refine tracks_bind (runs.eval right scope (by omega)) fun r => ?_
    exact tracks_bind (logicOperand_tracks _ _ _) fun _ => tracks_pure _

theorem evalReceiver_tracks (runs : Runs w rounds calls spare size k k') {object : Expr} (small : object.size ≤ size)
    (scope : ScopeId) : Tracks w rounds calls spare (evalReceiver k object scope) (evalReceiver k' object scope) := by
  unfold evalReceiver
  split
  · refine tracks_bind tracks_current fun frame => ?_
    split
    · exact tracks_pure _
    · exact tracks_fail _ _
  · exact runs.eval _ _ small

theorem setMember_tracks (object : Value) (property : Name) (v : Value) :
    Tracks w rounds calls spare (setMember object property v) (setMember object property v) := by
  unfold setMember
  dsimp only
  split
  · exact tracks_fail _ _
  · exact tracks_bind tracks_get fun _ => tracks_bind tracks_heap fun _ => tracks_setField _ _ _
  · refine tracks_bind tracks_get fun s => ?_
    split
    · exact tracks_modifyClass _ fun _ => rfl
    · exact tracks_bind tracks_heap fun _ => tracks_fail _ _
  · exact tracks_failNamed _ _ _

theorem field?_tracks (object : Value) (name : String) :
    Tracks w rounds calls spare (field? object name) (field? object name) := by
  unfold field?
  split
  · refine tracks_bind tracks_heap fun h => ?_
    dsimp only
    split
    · exact tracks_pure _
    · exact tracks_bind tracks_get fun _ => tracks_pure _
  · exact tracks_bind tracks_get fun _ => tracks_pure _
  · exact tracks_pure _

theorem getMember_tracks (serves : Serves w rounds calls spare k k') (object : Value) (property : Name) :
    Tracks w rounds calls spare (getMember k object property) (getMember k' object property) := by
  unfold getMember
  dsimp only
  split
  · exact tracks_fail _ _
  · refine tracks_bind (field?_tracks _ _) fun found => ?_
    split
    · exact tracks_pure _
    · refine tracks_bind (hasMethod_tracks serves _ _) fun has => ?_
      split
      · exact tracks_newMethod _ _
      · exact tracks_failNamed _ _ _

theorem calledField?_tracks (object : Value) (name : String) :
    Tracks w rounds calls spare (calledField? object name) (calledField? object name) := by
  unfold calledField?
  split
  · exact tracks_bind tracks_heap fun _ => tracks_pure _
  · exact tracks_bind tracks_get fun _ => tracks_pure _
  · exact tracks_pure _

theorem evalCall_tracks (serves : Serves w rounds calls spare k k') (runs : Runs w rounds calls spare size k k')
    {callee : Expr}
    {args : List Expr} (small : callee.size + Expr.sizeAll args ≤ size) (span : Span) (scope : ScopeId) :
    Tracks w rounds calls spare (evalCall k callee args span scope) (evalCall k' callee args span scope) := by
  have passed : Tracks w rounds calls spare (evalAll k scope args) (evalAll k' scope args) :=
    evalAll_tracks runs scope (by omega)
  unfold evalCall
  split
  · exact tracks_bind passed fun vs => callParentConstructor_tracks serves _ _
  · exact tracks_bind passed fun vs => callParentMethod_tracks serves _ _ _
  · rw [Expr.size] at small
    refine tracks_bind (runs.eval _ scope (by omega)) fun o => tracks_bind passed fun vs => ?_
    refine tracks_bind (calledField?_tracks _ _) fun found => ?_
    split
    · exact callValue_tracks serves _ _ _
    · exact callMethod_tracks serves _ _ _ _
  · refine tracks_bind (runs.eval _ scope (by omega)) fun f => tracks_bind passed fun vs => ?_
    exact callValue_tracks serves _ _ _

theorem evalAssign_tracks (serves : Serves w rounds calls spare k k') (runs : Runs w rounds calls spare size k k')
    {target value : Expr} (small : target.size + value.size ≤ size) (span : Span) (scope : ScopeId) :
    Tracks w rounds calls spare (evalAssign k target value span scope) (evalAssign k' target value span scope) := by
  have assigned : Tracks w rounds calls spare (k.eval value scope) (k'.eval value scope) :=
    runs.eval value scope (by omega)
  unfold evalAssign
  split
  · refine tracks_bind assigned fun v => tracks_bind (tracks_assign _ _ _) fun done => ?_
    split
    · exact tracks_pure _
    · exact tracks_fail _ _
  · rw [Expr.size] at small
    refine tracks_bind (evalReceiver_tracks runs (by omega) scope) fun o => tracks_bind assigned fun v => ?_
    exact tracks_bind (setMember_tracks _ _ _) fun _ => tracks_pure _
  · rw [Expr.size] at small
    refine tracks_bind (runs.eval _ scope (by omega)) fun o => tracks_bind (runs.eval _ scope (by omega)) fun i => ?_
    refine tracks_bind assigned fun v => ?_
    exact tracks_bind (callMethod_tracks serves _ _ _ _) fun _ => tracks_pure _
  · exact tracks_fail _ _

theorem evalArray_tracks (serves : Serves w rounds calls spare k k') (runs : Runs w rounds calls spare size k k')
    {elements : List Expr} (small : Expr.sizeAll elements ≤ size) (span : Span) (scope : ScopeId) :
    Tracks w rounds calls spare (evalArray k elements span scope) (evalArray k' elements span scope) := by
  refine tracks_bind (evalAll_tracks runs scope small) fun items => tracks_bind (serves.classOf _ _) fun cls => ?_
  refine tracks_bind (tracks_newArray _) fun h => ?_
  exact tracks_bind (tracks_newObject _ _) fun _ => tracks_pure _

/-- A lambda is no larger than the program it stands in. -/
theorem fits_lambda {mark : Mark} {params : List Param} {result : Option TypeExpr} {body : LambdaBody}
    (small : (Expr.lambda mark params result body).size ≤ w.bound) (frame : Nat) (context : Option CallFrame) :
    (⟨params, result, body, frame, context⟩ : Closure).Fits w.bound := by
  cases body with
  | block b =>
    rw [Expr.size] at small
    refine ⟨Param.fit_of_size (by dsimp only; omega), fun same => ?_, fun same => by cases same⟩
    cases same
    omega
  | value e =>
    rw [Expr.size] at small
    refine ⟨Param.fit_of_size (by dsimp only; omega), fun same => (by cases same), fun same => ?_⟩
    cases same
    omega

theorem eval_tracks (serves : Serves w rounds calls spare k k') (runs : Runs w rounds calls spare size k k')
    (room : size < w.bound)
    {e : Expr} (small : e.size ≤ size + 1) (scope : ScopeId) :
    Tracks w rounds calls spare (eval k e scope) (eval k' e scope) := by
  cases e with
  | name id => exact evalName_tracks serves id scope
  | number m digits => exact tracks_pure _
  | string q => exact tracks_pure _
  | boolean m b => exact tracks_pure _
  | null m => exact tracks_pure _
  | self m =>
    refine tracks_bind tracks_current fun frame => ?_
    split
    · exact tracks_pure _
    · exact tracks_fail _ _
  | parent m => exact tracks_fail _ _
  | unary m op operand =>
    rw [Expr.size] at small
    exact tracks_bind (runs.eval operand scope (by omega)) fun v => applyUnary_tracks _ _ _
  | binary m op left right =>
    rw [Expr.size] at small
    unfold eval
    dsimp only
    split
    · exact evalLogic_tracks runs _ _ (by omega) scope
    · exact evalLogic_tracks runs _ _ (by omega) scope
    · refine tracks_bind (runs.eval left scope (by omega)) fun l => ?_
      exact tracks_bind (runs.eval right scope (by omega)) fun r => applyBinary_tracks _ _ _ _
  | assign m target value =>
    rw [Expr.size] at small
    exact evalAssign_tracks serves runs (by omega) _ scope
  | member m object property =>
    rw [Expr.size] at small
    exact tracks_bind (evalReceiver_tracks runs (by omega) scope) fun o => getMember_tracks serves _ _
  | index m object position =>
    rw [Expr.size] at small
    refine tracks_bind (runs.eval object scope (by omega)) fun o => ?_
    refine tracks_bind (runs.eval position scope (by omega)) fun i => ?_
    exact callMethod_tracks serves _ _ _ _
  | call m callee args =>
    rw [Expr.size] at small
    exact evalCall_tracks serves runs (by omega) _ scope
  | create m type args =>
    rw [Expr.size] at small
    refine tracks_bind (serves.classOf _ _) fun cls => ?_
    refine tracks_bind (evalAll_tracks runs scope (by omega)) fun vs => ?_
    exact tracks_bind (instantiate_tracks serves _ _ _) fun _ => tracks_pure _
  | array m elements =>
    rw [Expr.size] at small
    exact evalArray_tracks serves runs (by omega) _ scope
  | lambda m params result body =>
    refine tracks_bind (tracks_frameOf _) fun frame => tracks_bind tracks_current fun context => ?_
    exact tracks_newClosure (fits_lambda (Nat.le_trans small room) frame context)
  | markup element =>
    rw [Expr.size] at small
    exact evalElement_tracks serves runs (by omega) scope

/-! ## Statements -/

theorem callProtocol_tracks (serves : Serves w rounds calls spare k k') (v : Value) (name : String) (span : Span) :
    Tracks w rounds calls spare (callProtocol k v name span) (callProtocol k' v name span) := by
  refine tracks_bind (hasMethod_tracks serves _ _) fun has => ?_
  split
  · exact callMethod_tracks serves _ _ _ _
  · exact tracks_failNamed _ _ _

theorem execArms_tracks (runs : Runs w rounds calls spare size k k') (subject : Value) (scope : ScopeId)
    {arms : List Arm}
    (small : Arm.sizeAll arms ≤ size) :
    Tracks w rounds calls spare (execArms k subject scope arms) (execArms k' subject scope arms) := by
  induction arms with
  | nil => exact tracks_pure _
  | cons a arms ih =>
    obtain ⟨mark, value, body⟩ := a
    rw [Arm.sizeAll] at small
    refine tracks_bind (runs.eval value scope (by omega)) fun v => tracks_bind tracks_heap fun h => ?_
    split
    · exact tracks_bind (execBlock_tracks runs (by dsimp only; omega) scope) fun _ => tracks_pure _
    · exact ih (by omega)

/-- To go on with an iteration is worth a stride. -/
theorem iterate_tracks (serves : Serves w rounds calls spare k k') (runs : Runs w rounds calls spare size k k')
    {it : Iteration}
    (small : it.body.size ≤ size + 1)
    (again : Tracks w rounds calls (spare - w.stride) (k.iterate it) (k'.iterate it)) :
    Tracks w rounds calls spare (iterate k it) (iterate k' it) := by
  refine tracks_bind (callProtocol_tracks serves _ _ _) fun more => ?_
  split
  · exact tracks_pure _
  · refine tracks_bind (callProtocol_tracks serves _ _ _) fun item => ?_
    refine tracks_bind (tracks_releasing (tracks_bind (tracks_openScope _) fun scope => ?_)) fun outcome => ?_
    · exact tracks_bind (tracks_define _ _ _) fun _ => execBlock_tracks runs small scope
    · split
      · exact tracks_pure _
      · exact tracks_bind (callProtocol_tracks serves _ _ _) fun _ => tracks_noteTurn_bind again
  · exact tracks_failNamed _ _ _

theorem execEach_tracks (serves : Serves w rounds calls spare k k') (runs : Runs w rounds calls spare size k k')
    (item : Name)
    {iterable : Expr} {body : Block} (small : iterable.size + body.size ≤ size) (scope : ScopeId) :
    Tracks w rounds calls spare (execEach k item iterable body scope) (execEach k' item iterable body scope) := by
  refine tracks_bind (runs.eval iterable scope (by omega)) fun v => ?_
  dsimp only
  split
  · exact tracks_fail_bind _ _ _ _
  · refine tracks_bind (callProtocol_tracks serves _ _ _) fun it => ?_
    split
    · exact tracks_fail_bind _ _ _ _
    · refine tracks_bind (callProtocol_tracks serves _ _ _) fun _ => ?_
      exact runs.iterate _ (by dsimp only; omega)

theorem evalCondition_tracks (runs : Runs w rounds calls spare size k k') {e : Expr} (small : e.size ≤ size)
    (scope : ScopeId) : Tracks w rounds calls spare (evalCondition k e scope) (evalCondition k' e scope) := by
  refine tracks_bind (runs.eval e scope small) fun v => ?_
  split
  · exact tracks_pure _
  · exact tracks_failNamed _ _ _

theorem exec_tracks (serves : Serves w rounds calls spare k k') (runs : Runs w rounds calls spare size k k')
    {s : Stmt}
    (small : s.size ≤ size + 1) (scope : ScopeId) :
    Tracks w rounds calls spare (exec k s scope) (exec k' s scope) := by
  refine tracks_bind (tracks_checkCancelled _) fun _ => ?_
  cases s with
  | does m e =>
    rw [Stmt.size] at small
    exact tracks_bind (runs.eval e scope (by omega)) fun _ => tracks_pure _
  | binds m name type value =>
    have defined (v : Value) : Tracks w rounds calls spare
        (do
          define scope name.text v
          return Outcome.normal)
        (do
          define scope name.text v
          return Outcome.normal) := tracks_bind (tracks_define _ _ _) fun _ => tracks_pure _
    cases value with
    | some e =>
      rw [Stmt.size] at small
      exact tracks_bind (runs.eval e scope (by omega)) fun v => tracks_bind (tracks_pure _) defined
    | none => exact tracks_bind (tracks_pure _) defined
  | block b =>
    rw [Stmt.size] at small
    exact execBlock_tracks runs (by omega) scope
  | branch m condition yes no =>
    cases no with
    | some s =>
      rw [Stmt.size] at small
      refine tracks_bind (evalCondition_tracks runs (by omega) scope) fun b => ?_
      split
      · exact execBlock_tracks runs (by omega) scope
      · exact runs.exec s scope (by omega)
    | none =>
      rw [Stmt.size] at small
      refine tracks_bind (evalCondition_tracks runs (by omega) scope) fun b => ?_
      split
      · exact execBlock_tracks runs (by omega) scope
      · exact tracks_pure _
  | select m subject arms fallback =>
    cases fallback with
    | some b =>
      rw [Stmt.size] at small
      refine tracks_bind (runs.eval subject scope (by omega)) fun v => ?_
      refine tracks_bind (execArms_tracks runs v scope (by omega)) fun outcome => ?_
      cases outcome with
      | some outcome => exact tracks_pure _
      | none => exact execBlock_tracks runs (by omega) scope
    | none =>
      rw [Stmt.size] at small
      refine tracks_bind (runs.eval subject scope (by omega)) fun v => ?_
      refine tracks_bind (execArms_tracks runs v scope (by omega)) fun outcome => ?_
      cases outcome with
      | some outcome => exact tracks_pure _
      | none => exact tracks_pure _
  | each m item iterable body =>
    rw [Stmt.size] at small
    exact execEach_tracks serves runs _ (by omega) scope
  | returns m value =>
    cases value with
    | some e =>
      rw [Stmt.size] at small
      exact tracks_bind (runs.eval e scope (by omega)) fun _ => tracks_pure _
    | none => exact tracks_pure _
  | declares d => exact tracks_pure _
  | uses m names path => exact tracks_pure _

end ClassScript.Evaluation
