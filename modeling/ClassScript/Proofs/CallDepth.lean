import ClassScript.Proofs.MemberResolution
import ClassScript.Proofs.NestedSteps

/-!
How deep calls nest. All states of a session with a program respect the limit of calls, but for the method
contexts of initial values of fields, which are added whatever the depth; a call of a method, a constructor or a
lambda on a full stack fails. So unless an initial value is evaluated on a full stack, a look at the limit before
every step changes nothing (`watcher`), and neither does it matter how many nested steps there may be, once they
are enough for the size of the program, the limit of calls, and the turns that code in one method context takes
(`recursion_is_bounded`). Initial values that are evaluated again and again, and methods of the host that call one
another, nest without bound (`recursion_escapes_the_limit`).
-/

namespace ClassScript

namespace Evaluation

variable {w : World} {calls : List CallFrame} {rounds spare n size : Nat} {k k' : Evaluator}

/-! ## What nested steps need -/

/-- The nested steps that one method context may cost that takes so many turns. -/
def World.room (w : World) (rounds : Nat) : Nat := (rounds + 1) * w.stride

/-- The nested steps that a call needs below so many others. -/
def World.callNeed (w : World) (rounds depth : Nat) : Nat :=
  w.bound + w.declarations.length + 2 + (maxCallDepth - depth) * w.room rounds

/-- The nested steps that code of a size needs below so many calls. -/
def World.need (w : World) (rounds depth size : Nat) : Nat := w.callNeed rounds depth + size + 1

/-- The nested steps that it needs to build a class, when so many are not known yet. -/
def World.classNeed (w : World) (rounds depth unknown : Nat) : Nat :=
  unknown + 1 + (maxCallDepth - depth) * w.room rounds

/-- Code in a further method context needs less, by what it has to spare for its own turns. -/
theorem World.beyond_le (w : World) {ahead : Nat} (context : CallFrame)
    (enough : ahead ≤ n - (maxCallDepth - calls.length) * w.room rounds) :
    w.beyond rounds calls ahead ≤ n - w.need rounds (context :: calls).length w.bound := by
  unfold World.beyond
  split
  · next free =>
    have one : maxCallDepth - calls.length = maxCallDepth - (calls.length + 1) + 1 := by omega
    have stride := w.stride_eq
    rw [one, Nat.succ_mul, World.room, Nat.succ_mul] at enough
    simp only [World.need, World.callNeed, World.room, List.length_cons, Nat.succ_mul]
    omega
  · exact Nat.zero_le _

/-! ## One nested step more -/

/-- What can be evaluated with the nested steps of an evaluator. -/
def Evaluator.step (k : Evaluator) : Evaluator :=
  ⟨Evaluation.eval k, Evaluation.exec k, Evaluation.callValue k, Evaluation.classOf k, Evaluation.iterate k⟩

theorem evaluator_succ (n : Nat) : evaluator (n + 1) = (evaluator n).step := rfl

theorem runs_nothing (k k' : Evaluator) : Runs w rounds calls spare 0 k k' where
  eval e _ small := absurd e.size_pos (by omega)
  exec s _ small := absurd s.size_pos (by omega)
  iterate it small := absurd it.body.size_pos (by omega)

/-- Two evaluators that agree on smaller code agree with one nested step more. -/
theorem Runs.step (serves : Serves w rounds calls spare k k') (runs : Runs w rounds calls spare size k k')
    (room : size < w.bound) (again : ∀ it : Iteration, it.body.size ≤ size + 1 →
      Tracks w rounds calls (spare - w.stride) (k.iterate it) (k'.iterate it)) :
    Runs w rounds calls spare (size + 1) k.step k'.step where
  eval _ scope small := eval_tracks serves runs room small scope
  exec _ scope small := exec_tracks serves runs small scope
  iterate it small := iterate_tracks serves runs small (again it small)

/-- An evaluator that may take `n` nested steps is followed by another in all that needs fewer. -/
structure Follows (w : World) (rounds n : Nat) (k k' : Evaluator) : Prop where
  runs (calls : List CallFrame) {size : Nat} :
    size ≤ w.bound → Runs w rounds calls (n - w.need rounds calls.length size) size k k'
  callValue (calls : List CallFrame) (f : Value) (args : List Value) (span : Span) :
    Tracks w rounds calls (n - w.callNeed rounds calls.length) (k.callValue f args span) (k'.callValue f args span)
  classOf {s : State} (name : String) (span : Span) : Stocked w s →
    TracksAt w rounds (n - w.classNeed rounds s.calls.length (unbuilt w s)) s (k.classOf name span)
      (k'.classOf name span)

theorem Follows.serves (follows : Follows w rounds n k k') (calls : List CallFrame) :
    Serves w rounds calls (n + 1 - w.callNeed rounds calls.length) k k' where
  classOf name span s stocked running := by
    have few := unbuilt_le w s
    refine (follows.classOf name span stocked).mono ?_
    rw [running]
    unfold World.callNeed World.classNeed
    omega
  framed context := by
    refine (follows.runs (context :: calls) (Nat.le_refl _)).mono (w.beyond_le context ?_)
    unfold World.callNeed
    omega
  callValue f args span := by
    refine (follows.callValue calls f args span).mono ?_
    have stride := w.stride_eq
    omega
  fallback e scope small := by
    refine ((follows.runs calls (Nat.le_refl _)).eval e scope small).mono ?_
    have stride := w.stride_eq
    unfold World.need
    omega

/-- What cannot spare anything need not be followed. -/
theorem tracksAt_endless {α : Type} {s : State} (stocked : Stocked w s) (y : Run α) :
    TracksAt w rounds 0 s (throw .endless) y := by
  refine ⟨.refl stocked, fun ahead moderate => ?_⟩
  have few : s.usage.turns * w.stride ≤ rounds * w.stride :=
    Nat.mul_le_mul_right _ (Nat.le_trans stocked.turns moderate.busiest)
  omega

theorem follows_zero (w : World) (rounds : Nat) (k' : Evaluator) : Follows w rounds 0 (evaluator 0) k' where
  runs calls size _ := by
    rw [Nat.zero_sub]
    exact ⟨fun _ _ _ s stocked _ => tracksAt_endless stocked _, fun _ _ _ s stocked _ => tracksAt_endless stocked _,
      fun _ _ s stocked _ => tracksAt_endless stocked _⟩
  callValue calls f args span := by
    rw [Nat.zero_sub]
    exact fun s stocked _ => tracksAt_endless stocked _
  classOf name span stocked := by
    rw [Nat.zero_sub]
    exact tracksAt_endless stocked _

theorem follows_succ (fits : w.Fits) (follows : Follows w rounds n k k') :
    Follows w rounds (n + 1) k.step k'.step where
  runs calls size room := by
    cases size with
    | zero => exact runs_nothing _ _
    | succ size =>
      have enough : n + 1 - w.need rounds calls.length (size + 1) ≤ n - w.need rounds calls.length size := by
        unfold World.need
        omega
      have fewer : n + 1 - w.need rounds calls.length (size + 1) ≤ n + 1 - w.callNeed rounds calls.length := by
        unfold World.need
        omega
      refine .step ((follows.serves calls).mono fewer) ((follows.runs calls (Nat.le_of_lt room)).mono enough) room
        fun it small => ((follows.runs calls room).iterate it small).mono ?_
      have stride := w.stride_eq
      omega
  callValue calls f args span := callValue_tracks (follows.serves calls) f args span
  classOf {s} name span stocked := by
    refine classOf_tracksAt fits stocked (fun context => ?_) (fun t stocked running fewer name span => ?_) name span
    · refine (follows.runs (context :: s.calls) (Nat.le_refl _)).mono (w.beyond_le context ?_)
      unfold World.classNeed
      omega
    · refine (follows.classOf name span stocked).mono ?_
      rw [running]
      unfold World.classNeed
      omega

/-- An evaluator follows the one that may take a nested step less. -/
theorem evaluator_follows (fits : w.Fits) (rounds n : Nat) :
    Follows w rounds n (evaluator n) (evaluator (n + 1)) := by
  induction n with
  | zero => exact follows_zero w rounds _
  | succ n ih =>
    rw [evaluator_succ n, evaluator_succ (n + 1)]
    exact follows_succ fits ih

/-! ## Looking at every nested step -/

/-- Goes on if no more calls are running than may be. -/
def checkLimit (stop : Stop) : Run Unit := do
  if maxCallDepth < (← get).calls.length then throw stop

/-- An evaluator that looks before each of its steps how many calls are running. -/
def Evaluator.watched (k : Evaluator) (stop : Stop) : Evaluator where
  eval e scope := checkLimit stop >>= fun _ => k.eval e scope
  exec s scope := checkLimit stop >>= fun _ => k.exec s scope
  callValue f args span := checkLimit stop >>= fun _ => k.callValue f args span
  classOf name span := checkLimit stop >>= fun _ => k.classOf name span
  iterate it := checkLimit stop >>= fun _ => k.iterate it

/-- The evaluator with at most so many nested steps that stops at the first one for which more calls are running
than may be. -/
def watcher (stop : Stop) : Nat → Evaluator
  | 0 => evaluator 0
  | fuel + 1 => (watcher stop fuel).step.watched stop

/-- Two evaluators do the same, whatever they can spare. -/
structure Coincides (w : World) (rounds : Nat) (k k' : Evaluator) : Prop where
  runs (calls : List CallFrame) (spare : Nat) {size : Nat} : size ≤ w.bound → Runs w rounds calls spare size k k'
  callValue (calls : List CallFrame) (spare : Nat) (f : Value) (args : List Value) (span : Span) :
    Tracks w rounds calls spare (k.callValue f args span) (k'.callValue f args span)
  classOf (calls : List CallFrame) (spare : Nat) (name : String) (span : Span) :
    Tracks w rounds calls spare (k.classOf name span) (k'.classOf name span)

theorem Coincides.serves (coincides : Coincides w rounds k k') (calls : List CallFrame) (spare : Nat) :
    Serves w rounds calls spare k k' where
  classOf name span := coincides.classOf calls spare name span
  framed context := coincides.runs (context :: calls) _ (Nat.le_refl _)
  callValue f args span := coincides.callValue calls _ f args span
  fallback e scope small := (coincides.runs calls _ (Nat.le_refl _)).eval e scope small

theorem Coincides.step (fits : w.Fits) (coincides : Coincides w rounds k k') : Coincides w rounds k.step k'.step where
  runs calls spare size room := by
    cases size with
    | zero => exact runs_nothing _ _
    | succ size =>
      exact .step (coincides.serves calls spare) (coincides.runs calls spare (Nat.le_of_lt room)) room
        (coincides.runs calls _ room).iterate
  callValue calls spare f args span := callValue_tracks (coincides.serves calls spare) f args span
  classOf calls spare name span s stocked _ :=
    classOf_tracksAt fits stocked (fun context => coincides.runs _ _ (Nat.le_refl _))
      (fun t stocked _ _ name span => coincides.classOf _ spare name span t stocked rfl) name span

/-- A moderate computation passes the limit at no time, so looking at it changes nothing. -/
theorem tracks_checkLimit {α : Type} {x y : Run α} (tracks : Tracks w rounds calls spare x y) (stop : Stop) :
    Tracks w rounds calls spare x (checkLimit stop >>= fun _ => y) := by
  intro s stocked running
  obtain ⟨leaves, same⟩ := tracks s stocked running
  refine ⟨leaves, fun ahead moderate => ?_⟩
  have within : ¬maxCallDepth < s.calls.length :=
    Nat.not_lt.2 (Nat.le_trans stocked.calls (Nat.le_trans leaves.deepest moderate.deepest))
  have checked : checkLimit stop w s = (.ok (), s) := by
    show (if maxCallDepth < s.calls.length then throw stop else pure () : Run Unit) w s = _
    rw [if_neg within]
    rfl
  rw [bind_run, checked]
  exact same ahead moderate

theorem Coincides.watched (coincides : Coincides w rounds k k') (stop : Stop) :
    Coincides w rounds k (k'.watched stop) where
  runs calls spare _ room :=
    have runs := coincides.runs calls spare room
    ⟨fun e scope small => tracks_checkLimit (runs.eval e scope small) stop,
      fun s scope small => tracks_checkLimit (runs.exec s scope small) stop,
      fun it small => tracks_checkLimit (runs.iterate it small) stop⟩
  callValue calls spare f args span := tracks_checkLimit (coincides.callValue calls spare f args span) stop
  classOf calls spare name span := tracks_checkLimit (coincides.classOf calls spare name span) stop

theorem watcher_coincides (fits : w.Fits) (rounds : Nat) (stop : Stop) (n : Nat) :
    Coincides w rounds (evaluator n) (watcher stop n) := by
  induction n with
  | zero =>
    exact ⟨fun _ _ _ _ => ⟨fun _ _ _ => tracks_throw _, fun _ _ _ => tracks_throw _, fun _ _ => tracks_throw _⟩,
      fun _ _ _ _ _ => tracks_throw _, fun _ _ _ _ => tracks_throw _⟩
  | succ n ih =>
    rw [evaluator_succ]
    exact (ih.step fits).watched stop

/-! ## Sessions -/

/-- What can be done with a program that is loaded. -/
inductive Operation where
  | run
  | invoke (cls name : String) (args : List Value)
  | search (cls name : String)

/-- What an operation computes. -/
def Operation.work (o : Operation) (w : World) (k : Evaluator) : Run Value := do
  match o with
  | .run => runAll k w.program.actions
  | .invoke cls name args => invokeNamed k cls name args
  | .search cls name => return .boolean (← hasNamed k cls name)

/-- The states of a session with a program: operations follow one another, each with any bound on its nested
steps, and may be limited in the statements that they start. An operation that reaches its bound stops where it
is, so that all states on its way count. -/
inductive Session (w : World) : State → Prop where
  | loaded (i : Interpreter) : Session w (i.load w.program).state
  | limited {s : State} (allowance : Option Nat) : Session w s → Session w { s with allowance }
  | operated {s : State} (o : Operation) (fuel : Nat) : Session w s → Session w (o.work w (evaluator fuel) w s).2

theorem runAll_tracks (runs : Runs w rounds calls spare w.bound k k')
    {actions : List Placed} (small : ∀ a ∈ actions, a.statement.size ≤ w.bound) :
    Tracks w rounds calls spare (runAll k actions) (runAll k' actions) := by
  induction actions with
  | nil => exact tracks_pure _
  | cons a actions ih =>
    refine tracks_bind (tracks_modify fun _ => ⟨rfl, rfl, rfl, rfl, rfl⟩) fun _ => ?_
    refine tracks_bind (runs.exec _ _ (small a List.mem_cons_self)) fun outcome => ?_
    cases outcome with
    | returned v => exact tracks_pure _
    | normal => exact ih fun b member => small b (List.mem_cons_of_mem a member)

theorem invokeNamed_tracks (serves : Serves w rounds calls spare k k')
    (cls name : String) (args : List Value) :
    Tracks w rounds calls spare (invokeNamed k cls name args) (invokeNamed k' cls name args) := by
  refine tracks_bind (serves.classOf _ _) fun id => tracks_bind tracks_heap fun h => ?_
  refine tracks_bind (tracks_method? _ _) fun found => ?_
  split
  · exact tracks_fail _ _
  · split
    · exact tracks_bind (tracks_newClassRef _) fun v => callMethod_tracks serves _ _ _ _
    · exact tracks_bind (instantiate_tracks serves _ _ _) fun object => callMethod_tracks serves _ _ _ _

theorem hasNamed_tracks (serves : Serves w rounds calls spare k k')
    (cls name : String) : Tracks w rounds calls spare (hasNamed k cls name) (hasNamed k' cls name) := by
  refine tracks_bind tracks_read fun w' => ?_
  split
  · exact tracks_pure _
  · refine tracks_bind (tracks_attempt (serves.classOf _ _)) fun r => ?_
    split
    · exact tracks_pure _
    · exact tracks_bind (tracks_method? _ _) fun _ => tracks_pure _

theorem actions_small (w : World) : ∀ a ∈ w.program.actions, a.statement.size ≤ w.bound := by
  intro a member
  have written : a ∈ w.program.statements := (List.mem_filter.1 member).1
  exact Nat.le_succ_of_le (Stmt.size_le_sizeAll (List.mem_map_of_mem written))

theorem Operation.tracks (o : Operation) (serves : Serves w rounds calls spare k k')
    (runs : Runs w rounds calls spare w.bound k k') : Tracks w rounds calls spare (o.work w k) (o.work w k') := by
  cases o with
  | run => exact runAll_tracks runs (actions_small w)
  | invoke cls name args => exact invokeNamed_tracks serves cls name args
  | search cls name => exact tracks_bind (hasNamed_tracks serves cls name) fun _ => tracks_pure _

/-- With one nested step more, an operation goes on as before. -/
theorem work_tracks (fits : w.Fits) (rounds : Nat) (o : Operation) (calls : List CallFrame) (n : Nat) :
    Tracks w rounds calls (n - w.need rounds calls.length w.bound) (o.work w (evaluator n))
      (o.work w (evaluator (n + 1))) := by
  have follows := evaluator_follows fits rounds n
  refine o.tracks ((follows.serves calls).mono ?_) (follows.runs calls (Nat.le_refl _))
  unfold World.need
  omega

/-- In all states of a session, code is held that is no larger than the program, and no call is running. -/
theorem Session.stocked (fits : w.Fits) {s : State} (session : Session w s) : Stocked w s ∧ s.calls = [] := by
  induction session with
  | loaded i =>
    refine ⟨⟨fun held => ?_, fun held => ?_, fun member => ?_, Nat.le_refl _, Nat.zero_le _, Nat.le_refl _⟩, rfl⟩
    · cases held
    · cases held
    · exact absurd member List.not_mem_nil
  | @limited s allowance _ ih =>
    have same : Untouched s { s with allowance } := ⟨rfl, rfl, rfl, rfl, rfl⟩
    exact ⟨same.stocked ih.1, ih.2⟩
  | operated o fuel _ ih =>
    obtain ⟨leaves, -⟩ := work_tracks fits 0 o [] fuel _ ih.1 ih.2
    exact ⟨leaves.stocked, leaves.calls.trans ih.2⟩

/-- What an operation on a loaded program can need. -/
theorem need_top (w : World) (rounds : Nat) :
    w.need rounds 0 w.bound + rounds * w.stride = (maxCallDepth + 1) * w.room rounds := by
  have stride := w.stride_eq
  have room : w.room rounds = rounds * w.stride + w.stride := Nat.succ_mul _ _
  rw [Nat.succ_mul, World.need, World.callNeed, Nat.sub_zero]
  omega

/-- Once its nested steps are enough, an operation that is moderate stays the same with more of them. -/
theorem work_settled (fits : w.Fits) {s : State} (session : Session w s) (o : Operation) {fuel : Nat}
    (moderate : (o.work w (evaluator fuel) w s).2.Moderate rounds)
    (enough : (maxCallDepth + 1) * w.room rounds < fuel) (more : Nat) :
    o.work w (evaluator (fuel + more)) w s = o.work w (evaluator fuel) w s := by
  obtain ⟨stocked, idle⟩ := session.stocked fits
  induction more with
  | zero => rfl
  | succ more ih =>
    obtain ⟨-, same⟩ := work_tracks fits rounds o [] (fuel + more) s stocked idle
    rw [ih] at same
    refine same ?_ moderate
    rw [← need_top] at enough
    show rounds * w.stride < s.usage.turns * w.stride + (fuel + more - w.need rounds 0 w.bound)
    omega

/-- No nested step of a moderate operation is taken while more calls are running than may be. -/
theorem work_watched (fits : w.Fits) {s : State} (session : Session w s) (o : Operation) {fuel : Nat}
    (moderate : (o.work w (evaluator fuel) w s).2.Moderate rounds) (stop : Stop) :
    o.work w (watcher stop fuel) w s = o.work w (evaluator fuel) w s := by
  obtain ⟨stocked, idle⟩ := session.stocked fits
  have coincides := watcher_coincides fits rounds stop fuel
  -- what there is to spare is chosen so that all rounds may be taken
  have ahead : rounds * w.stride < s.usage.turns * w.stride + (rounds * w.stride + 1) := by omega
  exact (o.tracks (coincides.serves [] _) (coincides.runs [] _ (Nat.le_refl _)) s stocked idle).same ahead moderate

/-! ## Interpreters -/

/-- An interpreter with a program, in a state of a session with it. -/
structure InSession (w : World) (i : Interpreter) : Prop where
  loaded : i.world = some w
  session : Session w i.state

theorem InSession.watch {i : Interpreter} (running : InSession w i) : InSession w i.watch := by
  unfold Interpreter.watch
  split
  · exact running
  · exact ⟨running.loaded, .limited _ running.session⟩

/-- A computation that does what an operation does stays in the session. -/
theorem InSession.exec {α : Type} {i : Interpreter} (running : InSession w i) {x : Evaluator → Run α} (o : Operation)
    (same : ∀ k s, (x k w s).2 = (o.work w k w s).2) : InSession w (i.exec x).2 := by
  rw [Interpreter.exec_eq running.loaded]
  refine ⟨running.loaded, ?_⟩
  show Session w (x (evaluator (maxSteps w.program)) w i.state).2
  rw [same]
  exact .operated o _ running.session

theorem inSession_run (i : Interpreter) (p : LinkedProgram) : InSession (.ofProgram p i.clock) (i.run p).2 :=
  (InSession.watch ⟨rfl, .loaded i⟩).exec .run fun _ _ => rfl

/-! ## Calls on a full stack -/

/-- What a call fails with when there are too many running. -/
def tooDeep (span : Span) (s : State) : Stop :=
  .failed ⟨.execution, "R001", "maximum call depth 5000 exceeded", span, s.file⟩

theorem checkCount_passes (name : String) {params : List Param} {count : Nat} (span : Span)
    (least : Param.requiredCount params ≤ count) (most : count ≤ params.length) :
    checkCount name params count span = pure () := by
  unfold checkCount
  dsimp only
  rw [if_pos (by simp [least, most])]

theorem checkDepth_full {s : State} (full : maxCallDepth ≤ s.calls.length) (span : Span) :
    checkDepth span w s = (.error (tooDeep span s), s) := by
  rw [checkDepth_run, if_pos full]
  rfl

/-- A method is not called on a full stack. -/
theorem invoke_full {s : State} (full : maxCallDepth ≤ s.calls.length) (k : Evaluator) {m : FoundMethod}
    (from_ : Option Nat) (self : Option Value) {args : List Value} (span : Span) (takes : m.decl.Takes args.length) :
    invoke k m from_ self args span w s = (.error (tooDeep span s), s) := by
  unfold invoke
  rw [checkCount_passes _ _ takes.1 takes.2, pure_bind, bind_run, checkDepth_full full]

/-- A lambda is not called on a full stack. -/
theorem callLambda_full {s : State} (full : maxCallDepth ≤ s.calls.length) (k : Evaluator) {c : Closure}
    {args : List Value} (span : Span) (least : Param.requiredCount c.params ≤ args.length)
    (most : args.length ≤ c.params.length) : callLambda k c args span w s = (.error (tooDeep span s), s) := by
  unfold callLambda
  rw [checkCount_passes _ _ least most, pure_bind, bind_run, checkDepth_full full]

end Evaluation

open Evaluation

/-- In a session with a program, there are never more method contexts than the limit of calls, unless one of them
was that of an initial value of a field; and a call on a full stack fails. So if no initial value is evaluated on
a full stack in an operation, then no step of it is taken while there are more method contexts than that, and if
code in one method context takes no more turns than so many, then nested steps are bounded: an operation that
could take that many does the same with any more of them. -/
theorem recursion_is_bounded {p : LinkedProgram} {clock : Float} {s : State}
    (session : Session (.ofProgram p clock) s) :
    (s.calls.length ≤ s.usage.deepest ∧ s.usage.deepest ≤ max maxCallDepth s.usage.initial) ∧
      (∀ (o : Operation) (fuel : Nat) (after : Except Stop Value × State),
        o.work (.ofProgram p clock) (evaluator fuel) (.ofProgram p clock) s = after →
          after.2.usage.initial ≤ maxCallDepth →
            (∀ stop, o.work (.ofProgram p clock) (watcher stop fuel) (.ofProgram p clock) s = after) ∧
            ∀ rounds more, after.2.usage.busiest ≤ rounds →
              (maxCallDepth + 1) * (World.ofProgram p clock).room rounds < fuel → fuel ≤ more →
                o.work (.ofProgram p clock) (evaluator more) (.ofProgram p clock) s = after) ∧
      ∀ t : State, maxCallDepth ≤ t.calls.length → ∀ (k : Evaluator) (args : List Value) (span : Span),
        (∀ (m : FoundMethod) (from_ : Option Nat) (self : Option Value), m.decl.Takes args.length →
          invoke k m from_ self args span (.ofProgram p clock) t = (.error (tooDeep span t), t)) ∧
        ∀ c : Closure, Param.requiredCount c.params ≤ args.length → args.length ≤ c.params.length →
          callLambda k c args span (.ofProgram p clock) t = (.error (tooDeep span t), t) := by
  have fits := World.fits_ofProgram p clock
  have stocked := (session.stocked fits).1
  refine ⟨⟨stocked.calls, stocked.deepest⟩, ?_, fun t full k args span => ⟨?_, ?_⟩⟩
  · rintro o fuel after rfl unhurt
    have left := ((session.operated o fuel).stocked fits).1
    have shallow : (o.work _ (evaluator fuel) _ s).2.usage.deepest ≤ maxCallDepth :=
      Nat.le_trans left.deepest (Nat.max_le.2 ⟨Nat.le_refl _, unhurt⟩)
    refine ⟨work_watched fits session o ⟨shallow, Nat.le_refl _⟩, fun rounds more few enough le => ?_⟩
    obtain ⟨extra, rfl⟩ := Nat.exists_eq_add_of_le le
    exact work_settled fits session o ⟨shallow, few⟩ enough extra
  · exact fun m from_ self takes => invoke_full full k from_ self span takes
  · exact fun c least most => callLambda_full full k span least most

/-! ## A program that is bounded -/

open Sample

/-- A new instance of `A`. -/
def Sample.newA : Expr := .create default (.simple default "A" false) []

/-- `class A { public x = null; public static f(n) { } }`, `new A();` -/
def modest : LinkedProgram :=
  .ofProgram ⟨"main.clasp",
    [.declares (cls "A" none [field "x" (.null default)] [method true "f" ["n"] []]), .does default newA], default⟩

theorem modest_is_bounded :
    let work (k : Evaluator) := (Operation.invoke "A" "f" [.null]).work (.ofProgram modest 0) k (.ofProgram modest 0)
      (finalState modest)
    (finalState modest).usage = ⟨1, 1, 0, 0⟩ ∧
      (∀ stop, work (watcher stop 1000000) = work (evaluator 1000000)) ∧
      (∀ more, 1000000 ≤ more → work (evaluator more) = work (evaluator 1000000)) ∧
      ∀ k t, t.calls = List.replicate maxCallDepth ⟨none, none⟩ →
        invoke k ⟨method true "f" ["n"] [], some 0⟩ none none [.null] Span.none (.ofProgram modest 0) t =
          (.error (tooDeep Span.none t), t) := by
  have session : Session (.ofProgram modest 0) (finalState modest) :=
    (inSession_run (Interpreter.new 0 none) modest).session
  obtain ⟨-, settles, fails⟩ := recursion_is_bounded session
  obtain ⟨watched, settled⟩ := settles (.invoke "A" "f" [.null]) 1000000 _ rfl (by decide +kernel)
  refine ⟨by decide +kernel, watched, fun more le => ?_, fun k t running => ?_⟩
  · exact settled 0 more (by decide +kernel) (by decide +kernel) le
  · refine (fails t ?_ k [.null] Span.none).1 _ none none (by decide)
    exact Nat.le_of_eq (by rw [running, List.length_replicate])

/-! ## Programs that are not

An initial value of a field that makes another instance of its class is evaluated again and again, each time in
one method context more. Methods of the host that call one another have no method context at all. -/

/-- `class A { public x = new A(); }` -/
def selfMade : Declaration := cls "A" none [field "x" newA] []

/-- `class A { public x = new A(); }`, `new A();` -/
def selfMaking : LinkedProgram := .ofProgram ⟨"main.clasp", [.declares selfMade, .does default newA], default⟩

/-- `class Array { public push(v); public forEach(f); }`, which the host implements. -/
def Sample.array : Declaration :=
  { cls "Array" none [] [hosted "push" ["v"], hosted "forEach" ["f"]] with
    annotations := [⟨default, Annotation.native⟩] }

/-- The method `forEach` of `x` as a value. -/
def Sample.forEach : Expr := .member default (.name (named "x")) (named "forEach")

/-- `class Array { public push(v); public forEach(f); }` of the host, `let x = [];`, `x.push(x.forEach);`,
`x.forEach(x.forEach);` -/
def echoing : LinkedProgram :=
  .ofProgram ⟨"main.clasp",
    [.declares array, .binds default (named "x") none (some (.array default [])),
      .does default (call "x" "push" [forEach]), .does default (call "x" "forEach" [forEach])],
    default⟩

namespace Evaluation

variable {w : World} {s : State} {α β : Type} {P : Nat → Prop}

/-- A computation reaches its bound on nested steps, and the most method contexts until then are so many. -/
def Exhausts (P : Nat → Prop) (x : Run α) (w : World) (s : State) : Prop :=
  (x w s).1 = .error .endless ∧ P (x w s).2.usage.deepest

theorem exhausts_endless (now : P s.usage.deepest) : Exhausts P (throw .endless : Run α) w s := ⟨rfl, now⟩

theorem exhausts_bind {x : Run α} {f : α → Run β} (exhausts : Exhausts P x w s) : Exhausts P (x >>= f) w s := by
  unfold Exhausts at exhausts ⊢
  rw [bind_run]
  rcases ran : x w s with ⟨stop | a, t⟩
  · rw [ran] at exhausts
    obtain ⟨same, deep⟩ := exhausts
    cases same
    exact ⟨rfl, deep⟩
  · rw [ran] at exhausts
    cases exhausts.1

theorem exhausts_then {x : Run α} {f : α → Run β} {a : α} {t : State} (ran : x w s = (.ok a, t))
    (exhausts : Exhausts P (f a) w t) : Exhausts P (x >>= f) w s := by
  unfold Exhausts
  rw [bind_run, ran]
  exact exhausts

theorem exhausts_openScope {f : ScopeId → Run α} {outer frame : Nat} (live : s.env.capture? outer = some frame)
    (exhausts : Exhausts P (f s.env.height) w { s with env := (s.env.pushFrame frame).2 }) :
    Exhausts P (openScope outer >>= f) w s := by
  refine exhausts_then ?_ exhausts
  show (frameOf outer >>= openFrame) w s = _
  rw [bind_run, frameOf_eq, live]
  rfl

theorem exhausts_inContext {x : Run α} {context : CallFrame} {file : Option String}
    (exhausts : Exhausts P x w { s.noteContext with calls := context :: s.calls, file := file.getD s.file }) :
    Exhausts P (inContext context file x) w s := exhausts

/-- A slot that is live stays so when a scope is opened. -/
theorem capture?_pushFrame {e : Environment Value} {slot frame parent : Nat} (live : e.capture? slot = some frame) :
    (e.pushFrame parent).2.capture? slot = some frame := by
  obtain ⟨below, held⟩ := Array.getElem?_eq_some_iff.1 live
  exact (Array.getElem?_push_lt below).trans (congrArg some held)

/-- The class of `selfMaking` is built. -/
structure Grown (s : State) : Prop where
  known : s.classes.lookup "A" = some 0
  classes : s.heap.classes = #[⟨"A", "main.clasp", selfMade, none, [], true, none, []⟩]
  live : ∃ frame, s.env.capture? Environment.global = some frame
  calls : s.calls.length ≤ s.usage.deepest

theorem classOf_known {k : Evaluator} {name : String} {id : Nat} (known : s.classes.lookup name = some id)
    (span : Span) : classOf k name span w s = (.ok id, s) := by
  have got : (get : Run State) w s = (.ok s, s) := rfl
  unfold classOf
  rw [bind_run, got]
  dsimp only
  rw [known]
  rfl

/-- The initial value of the field of a new instance is evaluated in a further method context. -/
theorem exhausts_instantiate {k : Evaluator} {span : Span} (grown : Grown s)
    (inner : ∀ t slot, Grown t → t.calls.length = s.calls.length + 1 → Exhausts P (k.eval newA slot) w t) :
    Exhausts P (instantiate k 0 [] span) w s := by
  obtain ⟨env, heap, known, interfaces, calls, file, output, allowance, checks, usage⟩ := s
  obtain ⟨objects, classes, closures, methods, arrays, cursors, nodes, identities⟩ := heap
  obtain rfl : classes = #[_] := grown.classes
  obtain ⟨frame, live⟩ := grown.live
  -- the constructor, the host thing, the object, and the line of the class
  refine exhausts_then rfl (exhausts_then rfl (exhausts_then rfl (exhausts_then rfl (exhausts_bind ?_))))
  -- the fields of `A`, the only class in its line
  refine exhausts_bind (exhausts_then rfl (exhausts_bind ?_))
  refine exhausts_then rfl (exhausts_then rfl (exhausts_inContext (exhausts_openScope live ?_)))
  exact inner _ _ ⟨grown.known, rfl, ⟨frame, capture?_pushFrame live⟩, Nat.le_max_right _ _⟩ rfl

/-- Every nested step but the last ones adds a method context. -/
theorem newA_exhausts (n : Nat) {scope : ScopeId} {depth : Nat} (grown : Grown s)
    (le : depth + 1 ≤ s.calls.length + n) : Exhausts (depth ≤ ·) (evalWithin n newA scope) w s := by
  have noted := grown.calls
  induction n generalizing s scope with
  | zero => exact exhausts_endless (by show depth ≤ _; omega)
  | succ n ih =>
    cases n with
    | zero => exact exhausts_bind (exhausts_endless (by show depth ≤ _; omega))
    | succ n =>
      refine exhausts_then (classOf_known grown.known _) (exhausts_then rfl (exhausts_bind ?_))
      exact exhausts_instantiate grown fun t slot further longer => ih further (by omega) further.calls

/-- The class is built when it is first used. -/
theorem classWithin_selfMade (n : Nat) (span : Span) :
    ∃ t, classWithin (n + 1) "A" span (.ofProgram selfMaking 0)
        { ((Interpreter.new 0 none).load selfMaking).state with file := "main.clasp", checks := 1 } = (.ok 0, t) ∧
      Grown t ∧ t.calls = [] := by
  refine ⟨_, rfl, ⟨rfl, rfl, ⟨0, rfl⟩, Nat.le_refl _⟩, rfl⟩

theorem selfMaking_exhausts (n : Nat) :
    Exhausts (n ≤ ·) (runAll (evaluator (n + 3)) selfMaking.actions) (.ofProgram selfMaking 0)
      ((Interpreter.new 0 none).load selfMaking).state := by
  obtain ⟨t, built, grown, idle⟩ := classWithin_selfMade n default
  refine exhausts_then rfl (exhausts_bind (exhausts_then rfl (exhausts_bind ?_)))
  refine exhausts_then built (exhausts_then rfl (exhausts_bind ?_))
  refine exhausts_instantiate grown fun u slot further longer => ?_
  rw [idle, List.length_nil] at longer
  exact newA_exhausts (n + 1) further (by omega)

/-- The heap of `echoing`, with its array and the methods that were read as values. -/
def echoHeap (arrays : Arrays) (methods : Array BoundMethod) : Heap where
  objects := #[⟨0, [], some (.array 0)⟩]
  classes := #[⟨"Array", "main.clasp", array, none, [], true, some .array, []⟩]
  closures := #[]
  methods
  arrays
  cursors := #[]
  nodes := #[]
  identities := 0
  addresses := fun _ => 0

/-- The states of `echoing` before its last statement. -/
def echoState (arrays : Arrays) (methods : Array BoundMethod) (turns checks : Nat) : State where
  env := ⟨#[⟨[("x", .object 0)], none⟩], #[0]⟩
  heap := echoHeap arrays methods
  classes := [("Array", 0)]
  interfaces := []
  calls := []
  file := "main.clasp"
  output := #[]
  allowance := none
  checks
  usage := ⟨0, 0, turns, turns⟩

/-- The array without items. -/
def noItems : Arrays := (Arrays.empty.create (.fitting [])).2

/-- The array that holds the first method that was read. -/
def oneItem : Arrays := noItems.push 0 (.method 0)

/-- The method `forEach` of the array. -/
def echoMethod : BoundMethod := ⟨.object 0, "forEach"⟩

/-- The array of `echoing` holds its own method, and nothing has had a method context. -/
structure Echo (s : State) : Prop where
  heap : s.heap = echoHeap oneItem #[echoMethod, echoMethod]
  interfaces : s.interfaces = []
  deepest : s.usage.deepest = 0

theorem exhausts_forEach {k : Evaluator} {span : Span} {f : Nat} (echo : Echo s)
    (inner : ∀ t, Echo t → Exhausts P (k.callValue (.method f) [.method 0] span) w t) :
    Exhausts P (callMethod k (.object 0) "forEach" [.method f] span) w s := by
  obtain ⟨env, heap, known, interfaces, calls, file, output, allowance, checks, usage⟩ := s
  obtain rfl : heap = echoHeap _ _ := echo.heap
  obtain rfl : interfaces = [] := echo.interfaces
  -- the object, its class and its method `forEach`
  refine exhausts_then rfl (exhausts_then rfl (exhausts_then rfl ?_))
  -- the arguments are complete, and are handed over
  refine exhausts_then rfl (exhausts_then rfl (exhausts_then rfl (exhausts_bind ?_)))
  refine exhausts_bind (exhausts_then rfl (exhausts_then rfl (exhausts_bind (exhausts_bind ?_))))
  exact inner _ ⟨rfl, rfl, echo.deepest⟩

/-- Every nested call of a method goes on with another one. -/
theorem callWithin_echo (n : Nat) {f : Nat} (isEcho : f = 0 ∨ f = 1) {span : Span} (echo : Echo s) :
    Exhausts (· = 0) (callWithin n (.method f) [.method 0] span) w s := by
  induction n generalizing s f with
  | zero => exact exhausts_endless echo.deepest
  | succ n ih =>
    refine exhausts_then rfl ?_
    rw [echo.heap]
    have called : Exhausts (· = 0) (callMethod (evaluator n) (.object 0) "forEach" [.method 0] span) w s :=
      exhausts_forEach echo fun t again => ih (.inl rfl) again
    rcases isEcho with rfl | rfl
    · exact called
    · exact called

theorem echoing_exhausts (n : Nat) :
    Exhausts (· = 0) (runAll (evaluator (n + 5)) echoing.actions) (.ofProgram echoing 0)
      ((Interpreter.new 0 none).load echoing).state := by
  have made : (evaluator (n + 5)).exec (.binds default (named "x") none (some (.array default []))) Environment.global
      (.ofProgram echoing 0) { ((Interpreter.new 0 none).load echoing).state with file := "main.clasp" } =
      (.ok .normal, echoState noItems #[] 0 1) := rfl
  have pushed : (evaluator (n + 5)).exec (.does default (call "x" "push" [forEach])) Environment.global
      (.ofProgram echoing 0) (echoState noItems #[] 0 1) = (.ok .normal, echoState oneItem #[echoMethod] 1 2) := rfl
  have read : evalAll (evaluator (n + 3)) Environment.global [forEach] (.ofProgram echoing 0)
      (echoState oneItem #[echoMethod] 1 3) = (.ok [.method 1], echoState oneItem #[echoMethod, echoMethod] 1 3) := rfl
  refine exhausts_then rfl (exhausts_then made (exhausts_then rfl (exhausts_then pushed ?_)))
  refine exhausts_then rfl (exhausts_bind (exhausts_then rfl (exhausts_bind ?_)))
  refine exhausts_then (a := .object 0) rfl (exhausts_then read (exhausts_then (a := none) rfl ?_))
  exact exhausts_forEach ⟨rfl, rfl, rfl⟩ fun t again => callWithin_echo _ (.inr rfl) again

end Evaluation

/-- What the statements of a program come to in a new interpreter, with the state that they leave. -/
def firstRun (p : LinkedProgram) (fuel : Nat) : Except Stop Value × State :=
  runAll (evaluator fuel) p.actions (.ofProgram p 0) ((Interpreter.new 0 none).load p).state

/-- However many nested steps there may be, both programs take all of them. The method contexts of initial values
pass any limit; methods of the host need none. -/
theorem recursion_escapes_the_limit :
    (∃ c, selfMaking.check = .ok c) ∧
      (∀ n, (firstRun selfMaking (n + 3)).1 = .error .endless ∧ n ≤ (firstRun selfMaking (n + 3)).2.usage.deepest) ∧
      (∃ c, echoing.check = .ok c) ∧
      ∀ n, (firstRun echoing (n + 5)).1 = .error .endless ∧ (firstRun echoing (n + 5)).2.usage.deepest = 0 := by
  obtain ⟨c, accepted, -⟩ := exists_accepted (p := selfMaking) (P := fun _ => True) (by decide +kernel)
  obtain ⟨d, accepted', -⟩ := exists_accepted (p := echoing) (P := fun _ => True) (by decide +kernel)
  unfold firstRun
  refine ⟨⟨c, accepted⟩, fun n => selfMaking_exhausts n, ⟨d, accepted'⟩, fun n => ?_⟩
  have exhausts := echoing_exhausts n
  unfold Exhausts at exhausts
  exact exhausts

end ClassScript
