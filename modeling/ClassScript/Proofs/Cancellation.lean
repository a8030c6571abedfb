import ClassScript.Proofs.ClassTable
import ClassScript.Standard.Prelude

/-!
Runs that are cancelled. A computation honours the limit on statements if it asks for no more than there are left, or
asks once more and ends with the failure that says so (`Honours`). Evaluation covers failures up at two places: what a
component renders, where that failure is let through, and the probe for a method of a primitive value, which starts no
statement if the classes of such values have no supertypes and no fields, as those of the prelude.
-/

namespace ClassScript

/-- The failure of a cancelled run. -/
def Diagnostic.IsCancelled (d : Diagnostic) : Prop :=
  d.kind = .execution ∧ d.code = RunFault.cancelledCode ∧ d.message = RunFault.cancelled.message

namespace Evaluation

variable {α β : Type} {w : World} {s t : State} {left : Nat}

/-- What a computation comes to that began with so many statements left to start: no more of them were started, or
one more was to be, and it ends with the failure of a cancelled run. -/
def Spent (s : State) (left : Nat) (after : Except Stop α × State) : Prop :=
  (∃ used ≤ left, after.2.checks = s.checks + used ∧ after.2.allowance = some (left - used)) ∨
    ∃ d, after.1 = .error (.failed d) ∧ d.IsCancelled ∧ after.2.checks = s.checks + left + 1 ∧
      after.2.allowance = some 0

/-- A computation starts no statement beyond the limit, and says so if one was to be started. -/
def Honours (w : World) (x : Run α) : Prop := ∀ s left, s.allowance = some left → Spent s left (x w s)

/-- Nothing was asked. -/
theorem spent_nothing {after : Except Stop α × State} (limited : s.allowance = some left)
    (checks : after.2.checks = s.checks) (allowance : after.2.allowance = s.allowance) : Spent s left after :=
  .inl ⟨0, Nat.zero_le left, checks, allowance.trans limited⟩

/-- What is spent later counts from what was left. -/
theorem Spent.later {after : Except Stop α × State} {used : Nat} (within : used ≤ left)
    (checks : t.checks = s.checks + used) (rest : Spent t (left - used) after) : Spent s left after := by
  rcases rest with ⟨more, within', checks', allowance'⟩ | ⟨d, failed, last, checks', allowance'⟩
  · refine .inl ⟨used + more, by omega, by omega, ?_⟩
    rw [allowance', Nat.sub_sub]
  · exact .inr ⟨d, failed, last, by omega, allowance'⟩

theorem honours_pure (a : α) : Honours w (pure a : Run α) := fun _ _ limited => spent_nothing limited rfl rfl

theorem honours_throw (stop : Stop) : Honours w (throw stop : Run α) := fun _ _ limited =>
  spent_nothing limited rfl rfl

theorem honours_bind {x : Run α} {f : α → Run β} (first : Honours w x) (rest : ∀ a, Honours w (f a)) :
    Honours w (x >>= f) := by
  intro s left limited
  have begun := first s left limited
  rw [bind_run]
  rcases ran : x w s with ⟨stop | a, t⟩
  · rw [ran] at begun
    rcases begun with going | ⟨d, failed, last⟩
    · exact .inl going
    · exact .inr ⟨d, congrArg Except.error (Except.error.inj failed), last⟩
  · rw [ran] at begun
    rcases begun with ⟨used, within, checks, allowance⟩ | ⟨d, failed, -⟩
    · exact (rest a t (left - used) allowance).later within checks
    · cases failed

theorem checkCancelled_honours (w : World) (span : Span) : Honours w (checkCancelled span) := by
  intro s left limited
  rw [checkCancelled_eq, limited]
  cases left with
  | zero => exact .inr ⟨_, rfl, ⟨rfl, rfl, rfl⟩, rfl, rfl⟩
  | succ n => exact .inl ⟨1, by omega, rfl, rfl⟩

/-- A failure that is caught has to be thrown again if it is that of a cancelled run. -/
theorem honours_attempt_bind {x : Run α} {f : Except Diagnostic α → Run β} (first : Honours w x)
    (rest : ∀ r, Honours w (f r))
    (again : ∀ d, d.code = RunFault.cancelledCode → ∀ t : State,
      ∃ u, f (.error d) w t = (.error (.failed d), u) ∧ u.checks = t.checks ∧ u.allowance = t.allowance) :
    Honours w (attempt x >>= f) := by
  intro s left limited
  have begun := first s left limited
  rw [bind_run]
  unfold attempt
  rcases ran : x w s with ⟨(d | _ | dead) | a, t⟩
  · rw [ran] at begun
    rcases begun with ⟨used, within, checks, allowance⟩ | ⟨_, failed, last, checks, allowance⟩
    · exact (rest (.error d) t (left - used) allowance).later within checks
    · cases failed
      obtain ⟨u, thrown, same, kept⟩ := again d last.2.1 t
      refine .inr ⟨d, ?_, last, ?_, ?_⟩
      · exact congrArg Prod.fst thrown
      · exact (congrArg (·.2.checks) thrown).trans (same.trans checks)
      · exact (congrArg (·.2.allowance) thrown).trans (kept.trans allowance)
  · rw [ran] at begun
    rcases begun with going | ⟨_, failed, -⟩
    · exact .inl going
    · cases failed
  · rw [ran] at begun
    rcases begun with going | ⟨_, failed, -⟩
    · exact .inl going
    · cases failed
  · rw [ran] at begun
    rcases begun with ⟨used, within, checks, allowance⟩ | ⟨_, failed, -⟩
    · exact (rest (.ok a) t (left - used) allowance).later within checks
    · cases failed

theorem covering_honours {x : Run α} (honours : Honours w x) : Honours w (covering x) := by
  refine honours_attempt_bind honours (fun r => ?_) fun d same t => ?_
  · cases r with
    | ok v => exact honours_pure _
    | error d =>
      dsimp only
      split
      · exact honours_throw _
      · exact honours_pure _
  · refine ⟨t, ?_, rfl, rfl⟩
    have cancelled : (d.code == RunFault.cancelledCode) = true := by rw [same]; exact beq_self_eq_true _
    dsimp only
    rw [if_pos cancelled]
    rfl

theorem orForget_honours {x : Run α} (name : String) (honours : Honours w x) : Honours w (orForget name x) := by
  refine honours_attempt_bind honours (fun r => ?_) fun d _ t => ⟨_, rfl, rfl, rfl⟩
  cases r with
  | ok a => exact honours_pure a
  | error d =>
    exact honours_bind (fun _ _ limited => spent_nothing limited rfl rfl) fun _ => honours_throw _

/-- The limit is respected by evaluation. -/
theorem respected_honours (w : World) : Respected (fun _ => True) w w.bare fun x _ => Honours w x where
  further := w.extends_bare
  pure := honours_pure
  bind := honours_bind
  get_bind rest s := rest s (held_any s) s
  read_bind rest := rest
  modifyGet mirrored s _ limited := spent_nothing limited (mirrored s).minor.checks (mirrored s).minor.allowance
  restoring {_ x _ restore} inner minor _ s left limited := by
    have restored := minor (x w s).2
    rcases inner s left limited with ⟨used, within, checks, allowance⟩ | ⟨d, failed, last, checks, allowance⟩
    · exact .inl ⟨used, within, restored.checks.trans checks, restored.allowance.trans allowance⟩
    · exact .inr ⟨d, failed, last, restored.checks.trans checks, restored.allowance.trans allowance⟩
  failed _ := honours_throw _
  deadScope _ := honours_throw _
  endless _ := honours_throw _
  checkCancelled := checkCancelled_honours w
  covering := covering_honours

/-! ## Classes of primitive values -/

/-- The classes of primitive values have no supertypes and no fields. -/
def World.PlainBoxes (w : World) : Prop :=
  ∀ v name d, boxedName? v = some name → w.class? name = some d → d.2.heading.supers = [] ∧ d.2.fields = []

/-- A computation starts no statement. -/
def Idle (w : World) (x : Run α) : Prop := ∀ s, (x w s).2.checks = s.checks ∧ (x w s).2.allowance = s.allowance

theorem Idle.honours {x : Run α} (idle : Idle w x) : Honours w x := fun s _ limited =>
  spent_nothing limited (idle s).1 (idle s).2

theorem idle_pure (a : α) : Idle w (pure a : Run α) := fun _ => ⟨rfl, rfl⟩

theorem idle_throw (stop : Stop) : Idle w (throw stop : Run α) := fun _ => ⟨rfl, rfl⟩

theorem idle_fail (span : Span) (fault : RunFault) : Idle w (fail span fault : Run α) := fun _ => ⟨rfl, rfl⟩

theorem idle_modifyClass (id : Nat) (f : ClassDef → ClassDef) : Idle w (modifyClass id f) := fun _ => ⟨rfl, rfl⟩

theorem idle_bind {x : Run α} {f : α → Run β} (first : Idle w x) (rest : ∀ a, Idle w (f a)) : Idle w (x >>= f) := by
  intro s
  have begun := first s
  rw [bind_run]
  rcases ran : x w s with ⟨stop | a, t⟩
  · rw [ran] at begun
    exact begun
  · rw [ran] at begun
    exact ⟨(rest a t).1.trans begun.1, (rest a t).2.trans begun.2⟩

theorem idle_attempt {x : Run α} (idle : Idle w x) : Idle w (attempt x) := by
  intro s
  have begun := idle s
  unfold attempt
  rcases ran : x w s with ⟨(d | _ | dead) | a, t⟩ <;> rwa [ran] at begun

theorem idle_probing {x : Run α} (idle : Idle w x) : Idle w (probing x) :=
  idle_bind (idle_attempt idle) fun r => by
    cases r with
    | ok v => exact idle_pure _
    | error d => exact idle_pure _

/-- Nothing is evaluated to build a class without supertypes and fields. -/
theorem building_idle {decl : Declaration} (alone : decl.heading.supers = []) (fieldless : decl.fields = [])
    (k : Evaluator) (name file : String) : Idle w (building k name file decl) := by
  have members (cls : Nat) : Idle w (addMembers cls decl) := by
    refine idle_bind (idle_modifyClass _ _) fun _ => ?_
    split
    · split
      · exact idle_modifyClass _ _
      · exact idle_fail _ _
    · exact idle_pure _
  have equipped (cls : Nat) : Idle w (equipping k cls decl) := by
    unfold equipping
    dsimp only
    cases heading : decl.heading with
    | ofClass _ parent interfaces =>
      rw [heading] at alone
      obtain ⟨orphan, rfl⟩ := List.append_eq_nil_iff.1 alone
      obtain rfl : parent = none := Option.toList_eq_nil_iff.1 orphan
      exact idle_bind (idle_pure _) fun _ => members cls
    | ofInterface _ => exact idle_bind (idle_pure _) fun _ => members cls
  have prepared : Idle w (preparing k name file decl) := by
    refine idle_bind (fun _ => ⟨rfl, rfl⟩) fun cls => idle_bind ?_ fun _ => idle_pure cls
    refine idle_bind (idle_attempt (equipped cls)) fun r => ?_
    cases r with
    | ok a => exact idle_pure a
    | error d => exact idle_bind (fun _ => ⟨rfl, rfl⟩) fun _ => idle_throw _
  refine idle_bind prepared fun cls => idle_bind ?_ fun _ => idle_pure cls
  rw [fieldless]
  exact idle_pure ()

theorem probe_idle (plain : w.PlainBoxes) (k : Evaluator) {v : Value} {name : String}
    (boxed : boxedName? v = some name) (span : Span) : Idle w (classOf k name span) := by
  intro s
  rw [classOf_run]
  cases s.classes.lookup name with
  | some id => exact ⟨rfl, rfl⟩
  | none =>
    cases declared : w.class? name with
    | none => exact ⟨rfl, rfl⟩
    | some d =>
      obtain ⟨alone, fieldless⟩ := plain v name d boxed declared
      exact building_idle alone fieldless k name d.1 s

/-- All of evaluation honours the limit. -/
theorem evaluator_honours (plain : w.PlainBoxes) (n : Nat) :
    (evaluator n).Related (fun _ => True) (fun x _ => Honours w x) (evaluator n) :=
  evaluator_satisfies (respected_honours w)
    (fun both _ span _ => classOf_related (respected_honours w) both
      (fun _ _ _ _ _ limited => spent_nothing limited rfl rfl) (fun name inner => orForget_honours name inner) trivial
      span)
    (fun {k} _ _ _ boxed => (idle_probing (probe_idle plain k boxed Span.none)).honours) n

end Evaluation

open Evaluation Sample

/-! ## The prelude -/

/-- The statements of the prelude are among those of a program. -/
def LinkedProgram.HasPrelude (p : LinkedProgram) : Prop :=
  ∃ prelude, Program.ofSource Prelude.path Prelude.source = .ok prelude ∧
    ∀ s ∈ prelude.statements, ⟨Prelude.path, s⟩ ∈ p.statements

/-- A statement declares a class of that name without supertypes and fields. -/
def Stmt.declaresBox (name : String) : Stmt → Bool
  | .declares d => d.name.text == name && !d.isInterface && d.heading.supers.isEmpty && d.fields.isEmpty
  | _ => false

theorem Stmt.exists_of_declaresBox {name : String} {s : Stmt} (declares : s.declaresBox name = true) :
    ∃ d, s = .declares d ∧ d.name.text = name ∧ d.isInterface = false ∧ d.heading.supers = [] ∧ d.fields = [] := by
  unfold Stmt.declaresBox at declares
  split at declares
  · next d =>
    simp only [Bool.and_eq_true, beq_iff_eq, Bool.not_eq_true', List.isEmpty_iff] at declares
    exact ⟨d, rfl, declares.1.1.1, declares.1.1.2, declares.1.2, declares.2⟩
  · cases declares

/-- The classes of all primitive values are declared so. -/
def Program.declaresBoxes (p : Program) : Bool :=
  [Builtin.numberClass, Builtin.stringClass, Builtin.booleanClass].all fun name => p.statements.any (·.declaresBox name)

/-- The prelude, `class App { public render() { return; } }` and `vdom <App/>;`. -/
def rendering (prelude : Program) : LinkedProgram :=
  let app : Declaration := cls "App" none [] [method false "render" [] [.returns default none]]
  let actions : List Stmt := [.declares app, .does default (.markup ⟨default, "App", [], [], true⟩)]
  ⟨"main.clasp", prelude.statements.map (⟨Prelude.path, ·⟩) ++ actions.map (⟨"main.clasp", ·⟩), default⟩

/-- What the prelude declares, and what is to be seen of a program with it. -/
theorem prelude_parses :
    (Program.ofSource Prelude.path Prelude.source).toOption.any (fun prelude =>
      prelude.declaresBoxes && (rendering prelude).check.toOption.isSome &&
        ((Interpreter.new 0 (some 1)).run (rendering prelude)).2.state.checks == 2) = true := by
  -- The characters of a line are spelled out, since reading them off its encoding takes long.
  simp only [Prelude.source, Prelude.lines, List.flatMap_cons, List.flatMap_nil]
  repeat rw [Text.ofString_ofList]
  decide +kernel

theorem exists_prelude :
    ∃ prelude, Program.ofSource Prelude.path Prelude.source = .ok prelude ∧ prelude.declaresBoxes = true ∧
      (rendering prelude).check.toOption.isSome = true ∧
        ((Interpreter.new 0 (some 1)).run (rendering prelude)).2.state.checks = 2 := by
  have holds := prelude_parses
  cases parsed : Program.ofSource Prelude.path Prelude.source with
  | error d =>
    rw [parsed] at holds
    cases holds
  | ok prelude =>
    rw [parsed] at holds
    simp only [Except.toOption, Option.any_some, Bool.and_eq_true, beq_iff_eq] at holds
    exact ⟨prelude, rfl, holds.1.1, holds.1.2, holds.2⟩

/-- In a program with the prelude, the classes of primitive values have no supertypes and no fields. -/
theorem plainBoxes_of_prelude {p : LinkedProgram} {r : Registry} (describes : r.Describes p) (linked : p.HasPrelude)
    (clock : Float) : (World.ofProgram p clock).PlainBoxes := by
  obtain ⟨prelude, parsed, within⟩ := linked
  obtain ⟨prelude', parsed', boxes, -⟩ := exists_prelude
  obtain rfl : prelude' = prelude := Except.ok.inj (parsed'.symm.trans parsed)
  intro v name d boxed declared
  have isBox : name ∈ [Builtin.numberClass, Builtin.stringClass, Builtin.booleanClass] := by
    unfold boxedName? at boxed
    split at boxed <;> cases boxed <;> simp
  obtain ⟨s, member, declares⟩ := List.any_eq_true.1 (List.all_eq_true.1 boxes name isBox)
  obtain ⟨decl, rfl, rfl, isClass, alone, fieldless⟩ := Stmt.exists_of_declaresBox declares
  have listed : (Prelude.path, decl) ∈ p.declarations := List.mem_filterMap.2 ⟨_, within _ member, rfl⟩
  have found : (World.ofProgram p clock).class? decl.name.text = some (Prelude.path, decl) :=
    class?_of_mem describes.registered listed isClass
  obtain rfl := Option.some.inj (found.symm.trans declared)
  exact ⟨alone, fieldless⟩

/-! ## Operations -/

namespace Interpreter

/-- What a computation is asked for beyond the limit shows in what an interpreter reports. -/
theorem outcome_cancelled {α : Type} {i : Interpreter} {s : State} {left : Nat} {after : Except Stop α × State}
    (spent : Spent s left after) (beyond : s.checks + left < (i.outcome after).2.state.checks) :
    (∃ d, (i.outcome after).1 = .error (.failed d) ∧ d.IsCancelled) ∧
      (i.outcome after).2.state.checks = s.checks + left + 1 := by
  rcases after with ⟨r, t⟩
  rcases spent with ⟨used, within, checks, -⟩ | ⟨d, rfl, last, checks, -⟩
  · have counted : (i.outcome (r, t)).2.state.checks = t.checks := rfl
    dsimp only at checks
    omega
  · exact ⟨⟨d, rfl, last⟩, checks⟩

theorem watch_load (i : Interpreter) (p : LinkedProgram) :
    (i.load p).watch.state.checks = 0 ∧ (i.load p).watch.state.allowance = i.watch.state.allowance := by
  obtain ⟨world, clock, addresses, state, limit⟩ := i
  cases limit <;> exact ⟨rfl, rfl⟩

theorem invoke_eq {i : Interpreter} {w : World} (loaded : i.world = some w) (cls name : String) (args : List Value) :
    i.invoke cls name args =
      i.watch.outcome (invokeNamed (evaluator (maxSteps w.program)) cls name args w i.watch.state) := by
  have watched : i.watch.world = some w := by
    unfold watch
    split
    · exact loaded
    · exact loaded
  unfold invoke
  rw [loaded]
  exact exec_eq watched _

theorem watch_checks (i : Interpreter) : i.watch.state.checks = i.state.checks := by
  unfold watch
  split <;> rfl

end Interpreter

theorem run_cancelled {p : LinkedProgram} {i : Interpreter} {n : Nat} (plain : (World.ofProgram p i.clock).PlainBoxes)
    (limited : i.watch.state.allowance = some n) (beyond : n < (i.run p).2.state.checks) :
    (∃ d, (i.run p).1 = .error (.failed d) ∧ d.IsCancelled) ∧ (i.run p).2.state.checks = n + 1 := by
  obtain ⟨fresh, allowance⟩ := i.watch_load p
  have honours : Honours (.ofProgram p i.clock) (runAll (evaluator (maxSteps p)) p.actions) :=
    runAll_related (respected_honours _) (evaluator_honours plain (maxSteps p)) fun _ _ => covers_any _
  have spent := honours (i.load p).watch.state n (allowance.trans limited)
  rw [Interpreter.run_eq] at beyond ⊢
  have last := Interpreter.outcome_cancelled (i := (i.load p).watch) spent
    (by rw [fresh, Nat.zero_add]; exact beyond)
  rwa [fresh, Nat.zero_add] at last

theorem invoke_cancelled {w : World} {i : Interpreter} {n : Nat} (plain : w.PlainBoxes)
    (limited : i.watch.state.allowance = some n) (loaded : i.world = some w) {cls name : String} {args : List Value}
    (beyond : i.state.checks + n < (i.invoke cls name args).2.state.checks) :
    (∃ d, (i.invoke cls name args).1 = .error (.failed d) ∧ d.IsCancelled) ∧
      (i.invoke cls name args).2.state.checks = i.state.checks + n + 1 := by
  have honours : Honours w (invokeNamed (evaluator (maxSteps w.program)) cls name args) :=
    invokeNamed_related (respected_honours _) (evaluator_honours plain (maxSteps w.program)) trivial name args
  have spent := honours i.watch.state n limited
  rw [Interpreter.invoke_eq loaded] at beyond ⊢
  have last := Interpreter.outcome_cancelled (i := i.watch) spent (by rw [i.watch_checks]; exact beyond)
  rwa [i.watch_checks] at last

/-- A run or a call of an accepted program with the prelude is never asked for more than one statement beyond the
limit, and if it is asked for that one, it ends with the failure of a cancelled run. -/
theorem cancellation_is_never_masked {p : LinkedProgram} {c : Checked} (accepted : p.check = .ok c)
    (linked : p.HasPrelude) {i : Interpreter} {n : Nat} (limited : i.watch.state.allowance = some n) :
    (n < (i.run p).2.state.checks →
      (∃ d, (i.run p).1 = .error (.failed d) ∧ d.IsCancelled) ∧ (i.run p).2.state.checks = n + 1) ∧
    ∀ clock cls name args, i.world = some (.ofProgram p clock) →
      i.state.checks + n < (i.invoke cls name args).2.state.checks →
        (∃ d, (i.invoke cls name args).1 = .error (.failed d) ∧ d.IsCancelled) ∧
          (i.invoke cls name args).2.state.checks = i.state.checks + n + 1 :=
  have plain (clock : Float) := plainBoxes_of_prelude (describes_of_check accepted) linked clock
  ⟨run_cancelled (plain i.clock) limited, fun clock _ _ _ loaded => invoke_cancelled (plain clock) limited loaded⟩

/-- The second statement that is to be started stands in the method that renders a component. -/
theorem rendering_is_cancelled :
    ∃ prelude c, Program.ofSource Prelude.path Prelude.source = .ok prelude ∧ (rendering prelude).check = .ok c ∧
      (rendering prelude).HasPrelude ∧ (Interpreter.new 0 (some 1)).watch.state.allowance = some 1 ∧
      (∃ d, ((Interpreter.new 0 (some 1)).run (rendering prelude)).1 = .error (.failed d) ∧ d.IsCancelled) ∧
      ((Interpreter.new 0 (some 1)).run (rendering prelude)).2.state.checks = 2 := by
  obtain ⟨prelude, parsed, -, accepted, asked⟩ := exists_prelude
  have linked : (rendering prelude).HasPrelude :=
    ⟨prelude, parsed, fun s member => List.mem_append_left _ (List.mem_map_of_mem member)⟩
  obtain ⟨c, accepted⟩ : ∃ c, (rendering prelude).check = .ok c := by
    cases checked : (rendering prelude).check with
    | ok c => exact ⟨c, rfl⟩
    | error stop =>
      rw [checked] at accepted
      cases accepted
  have beyond : 1 < ((Interpreter.new 0 (some 1)).run (rendering prelude)).2.state.checks := asked.symm ▸ Nat.one_lt_two
  have limited : (Interpreter.new 0 (some 1)).watch.state.allowance = some 1 := rfl
  obtain ⟨failed, -⟩ := (cancellation_is_never_masked accepted linked limited).1 beyond
  exact ⟨prelude, c, parsed, accepted, linked, limited, failed, asked⟩

end ClassScript
