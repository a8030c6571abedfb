import ClassScript.Proofs.Constructs
import ClassScript.Proofs.EntryPoint
import ClassScript.Environment

/-!
The table of classes while a program runs. Classes that are known stay known, and what becomes known was made later
(`Onward`). A class that cannot be equipped with its supertypes, members and host class is forgotten, so that a later
use builds it again; one whose own static fields fail is not.
-/

namespace ClassScript

namespace Evaluation

variable {α β : Type} {w : World} {s t u : State} {k : Evaluator}

/-- Classes that were known still are, and those that became known are newer than all that there were. -/
structure Onward (s t : State) : Prop where
  known {name : String} {id : Nat} : s.classes.lookup name = some id → t.classes.lookup name = some id
  fresh {name : String} {id : Nat} :
    s.classes.lookup name = none → t.classes.lookup name = some id → s.heap.classes.size ≤ id
  built : s.heap.classes.size ≤ t.heap.classes.size

theorem onward_of_eq (classes : t.classes = s.classes) (built : t.heap.classes.size = s.heap.classes.size) :
    Onward s t where
  known found := classes ▸ found
  fresh unknown found := by rw [classes, unknown] at found; cases found
  built := Nat.le_of_eq built.symm

theorem Onward.refl (s : State) : Onward s s := onward_of_eq rfl rfl

theorem Onward.trans (first : Onward s t) (second : Onward t u) : Onward s u where
  known found := second.known (first.known found)
  fresh {name id} unknown found := by
    cases between : t.classes.lookup name with
    | none => exact Nat.le_trans first.built (second.fresh between found)
    | some id' =>
      obtain rfl := Option.some.inj ((second.known between).symm.trans found)
      exact first.fresh unknown between
  built := Nat.le_trans first.built second.built

/-- A computation goes onward from every state. -/
def Advances (w : World) (x : Run α) : Prop := ∀ s, Onward s (x w s).2

/-! ## Computations that go onward -/

theorem advances_bind {x : Run α} {f : α → Run β} (first : Advances w x) (rest : ∀ a, Advances w (f a)) :
    Advances w (x >>= f) := by
  intro s
  have begun := first s
  rw [bind_run]
  rcases ran : x w s with ⟨stop | a, t⟩
  · rw [ran] at begun
    exact begun
  · rw [ran] at begun
    exact begun.trans (rest a t)

theorem advances_attempt {x : Run α} (advances : Advances w x) : Advances w (attempt x) := by
  intro s
  have state : (attempt x w s).2 = (x w s).2 := by
    unfold attempt
    rcases x w s with ⟨(d | _ | dead) | a, t⟩ <;> rfl
  rw [state]
  exact advances s

theorem advances_pure (a : α) : Advances w (pure a : Run α) := fun s => .refl s

/-- Nothing more is done if a class is not there. -/
theorem advances_probing {x : Run α} (advances : Advances w x) : Advances w (probing x) :=
  advances_bind (advances_attempt advances) fun r => by
    cases r with
    | ok v => exact advances_pure _
    | error d => exact advances_pure _

theorem checkCancelled_advances (w : World) (span : Span) : Advances w (checkCancelled span) := by
  intro s
  rw [checkCancelled_eq]
  rcases s.allowance with _ | _ | n <;> exact onward_of_eq rfl rfl

/-- What goes onward is respected by evaluation. -/
theorem respected_advances (w : World) : Respected (fun _ => True) w w.bare fun x _ => Advances w x where
  further := w.extends_bare
  pure := advances_pure
  bind := advances_bind
  get_bind rest s := rest s (held_any s) s
  read_bind rest := rest
  modifyGet mirrored s := onward_of_eq (mirrored s).minor.classes (mirrored s).minor.built
  restoring {α x _ restore} inner minor _ s := by
    have restored := minor (x w s).2
    exact (inner s).trans (onward_of_eq restored.classes restored.built)
  failed _ s := .refl s
  deadScope _ s := .refl s
  endless _ s := .refl s
  checkCancelled := checkCancelled_advances w
  covering inner := by
    refine advances_bind (advances_attempt inner) fun r => ?_
    cases r with
    | ok v => exact advances_pure _
    | error d =>
      dsimp only
      split
      · exact fun s => .refl s
      · exact advances_pure _

/-! ## Building a class -/

theorem orForget_run (name : String) (x : Run α) (w : World) (s : State) :
    orForget name x w s =
      match x w s with
      | (.error (.failed d), t) =>
        (.error (.failed d), { t with classes := t.classes.filter fun c => c.1 != name })
      | r => r := by
  unfold orForget attempt
  rw [bind_run]
  rcases x w s with ⟨(d | _ | dead) | a, t⟩ <;> rfl

/-- A state with a new class under a name. -/
def State.withClass (s : State) (name : String) (c : ClassDef) : State :=
  { s with
    classes := (name, s.heap.classes.size) :: s.classes
    heap := { s.heap with classes := s.heap.classes.push c } }

/-- A state in which a name is not known. -/
def State.forgetting (s : State) (name : String) : State :=
  { s with classes := s.classes.filter fun c => c.1 != name }

theorem lookup_withClass (s : State) (name : String) (c : ClassDef) :
    (s.withClass name c).classes.lookup name = some s.heap.classes.size := by
  simp [State.withClass]

theorem onward_withClass {name : String} (unknown : s.classes.lookup name = none) (c : ClassDef) :
    Onward s (s.withClass name c) where
  known {other id} found := by
    have differs : (other == name) = false := by
      refine beq_eq_false_iff_ne.2 fun same => ?_
      rw [same, unknown] at found
      cases found
    simpa [State.withClass, List.lookup_cons, differs] using found
  fresh {other id} early found := by
    simp only [State.withClass, List.lookup_cons] at found
    split at found
    · exact Nat.le_of_eq (Option.some.inj found)
    · rw [early] at found
      cases found
  built := by simp [State.withClass]

/-- What becomes of a class that is forgotten does not matter. -/
theorem onward_forgetting {name : String} (unknown : s.classes.lookup name = none) (onward : Onward s t) :
    Onward s (t.forgetting name) where
  known {other id} found := by
    have differs : other ≠ name := fun same => by
      rw [same, unknown] at found
      cases found
    exact (lookup_filter_ne differs _).trans (onward.known found)
  fresh {other id} early found := by
    by_cases same : other = name
    · have gone : (t.forgetting name).classes.lookup other = none := by rw [same]; exact lookup_filter_self name _
      rw [gone] at found
      cases found
    · exact onward.fresh early ((lookup_filter_ne same _).symm.trans found)
  built := onward.built

/-- An evaluator that goes onward whatever it is asked for. -/
abbrev Evaluator.Advances (w : World) (k : Evaluator) : Prop :=
  k.Related (fun _ => True) (fun x _ => Evaluation.Advances w x) k

variable {name file : String} {decl : Declaration} {cls : Nat} {d : Diagnostic}

/-- How the preparation of a class ends: it is known under its name, or forgotten if it cannot be equipped. -/
theorem preparing_run (k : Evaluator) (name file : String) (decl : Declaration) (w : World) (s : State) :
    preparing k name file decl w s =
      match equipping k s.heap.classes.size decl w (s.withClass name ⟨name, file, decl, none, [], false, none, []⟩) with
      | (.ok _, t) => (.ok s.heap.classes.size, t)
      | (.error (.failed d), t) => (.error (.failed d), t.forgetting name)
      | (.error stop, t) => (.error stop, t) := by
  have registered : registering name ⟨name, file, decl, none, [], false, none, []⟩ w s =
      (.ok s.heap.classes.size, s.withClass name ⟨name, file, decl, none, [], false, none, []⟩) := rfl
  rw [preparing, bind_run, registered]
  dsimp only
  rw [bind_run, orForget_run]
  rcases equipping k s.heap.classes.size decl w _ with ⟨(d | _ | dead) | a, t⟩ <;> rfl

theorem equipping_advances (advances : k.Advances w) (cls : Nat) (decl : Declaration) :
    Advances w (equipping k cls decl) :=
  equipping_related (respected_advances w) advances cls decl.within_any

theorem initStatics_advances (advances : k.Advances w) (cls : Nat) (fields : List Field) :
    Advances w (initStatics k cls fields) :=
  initStatics_related (respected_advances w) advances cls fun _ _ _ _ => covers_any _

theorem preparing_onward (advances : k.Advances w) (unknown : s.classes.lookup name = none) :
    Onward s (preparing k name file decl w s).2 := by
  have equipped := (onward_withClass unknown _).trans (equipping_advances advances s.heap.classes.size decl
    (s.withClass name ⟨name, file, decl, none, [], false, none, []⟩))
  rw [preparing_run]
  rcases ran : equipping k _ decl w _ with ⟨(d | _ | dead) | a, t⟩
  · rw [ran] at equipped
    exact onward_forgetting unknown equipped
  · rwa [ran] at equipped
  · rwa [ran] at equipped
  · rwa [ran] at equipped

/-- A class that was prepared is the newest one from before its supertypes were looked for, and is known. -/
theorem preparing_ok (advances : k.Advances w) (prepared : preparing k name file decl w s = (.ok cls, t)) :
    cls = s.heap.classes.size ∧ t.classes.lookup name = some cls := by
  have equipped := equipping_advances advances s.heap.classes.size decl
    (s.withClass name ⟨name, file, decl, none, [], false, none, []⟩)
  rw [preparing_run] at prepared
  rcases ran : equipping k _ decl w _ with ⟨(d | _ | dead) | a, t'⟩
  · rw [ran] at prepared
    cases prepared
  · rw [ran] at prepared
    cases prepared
  · rw [ran] at prepared
    cases prepared
  · rw [ran] at prepared equipped
    cases prepared
    exact ⟨rfl, equipped.known (lookup_withClass s name _)⟩

/-- A class that cannot be prepared is not known. -/
theorem preparing_failed (failed : preparing k name file decl w s = (.error (.failed d), t)) :
    t.classes.lookup name = none := by
  rw [preparing_run] at failed
  rcases ran : equipping k _ decl w _ with ⟨(e | _ | dead) | a, t'⟩
  · rw [ran] at failed
    cases failed
    exact lookup_filter_self name _
  · rw [ran] at failed
    cases failed
  · rw [ran] at failed
    cases failed
  · rw [ran] at failed
    cases failed

theorem building_onward (advances : k.Advances w) (unknown : s.classes.lookup name = none) :
    Onward s (building k name file decl w s).2 := by
  have prepared : Onward s (preparing k name file decl w s).2 := preparing_onward advances unknown
  rw [building, bind_run]
  rcases ran : preparing k name file decl w s with ⟨stop | cls, t⟩
  · rwa [ran] at prepared
  · rw [ran] at prepared
    exact prepared.trans (advances_bind (initStatics_advances advances cls decl.fields) (fun _ u => .refl u) t)

/-- What a class that is looked for comes to: it is known, it is not declared, or it is built. -/
theorem classOf_run (k : Evaluator) (name : String) (span : Span) (w : World) (s : State) :
    classOf k name span w s =
      match s.classes.lookup name, w.class? name with
      | some id, _ => (.ok id, s)
      | none, none => fail span (.unknownClass name) w s
      | none, some (file, decl) => building k name file decl w s := by
  have got : (get : Run State) w s = (.ok s, s) := rfl
  have world : (read : Run World) w s = (.ok w, s) := rfl
  rw [classOf_eq, bind_run, got]
  dsimp only
  cases s.classes.lookup name with
  | some id => rfl
  | none =>
    dsimp only
    rw [bind_run, world]
    dsimp only
    cases w.class? name with
    | none => rfl
    | some d => rfl

theorem classOf_advances (advances : k.Advances w) (name : String) (span : Span) :
    Advances w (classOf k name span) := by
  intro s
  rw [classOf_run]
  cases unknown : s.classes.lookup name with
  | some id => exact .refl s
  | none =>
    cases w.class? name with
    | none => exact .refl s
    | some d => exact building_onward advances unknown

/-- All of evaluation goes onward. -/
theorem evaluator_advances (w : World) (n : Nat) : (evaluator n).Advances w :=
  evaluator_satisfies (respected_advances w) (fun advances name span _ => classOf_advances advances name span)
    (fun advances _ name _ => advances_probing (classOf_advances advances name Span.none)) n

/-! ## Classes that could not be built -/

/-- The states that evaluation may come to from another one, with any changes in between that leave the classes
alone. -/
inductive Leads (w : World) (s : State) : State → Prop
  | refl : Leads w s s
  | eval {t : State} (n : Nat) (e : Expr) (scope : ScopeId) : Leads w s t → Leads w s ((evaluator n).eval e scope w t).2
  | exec {t : State} (n : Nat) (st : Stmt) (scope : ScopeId) :
    Leads w s t → Leads w s ((evaluator n).exec st scope w t).2
  | callValue {t : State} (n : Nat) (f : Value) (args : List Value) (span : Span) :
    Leads w s t → Leads w s ((evaluator n).callValue f args span w t).2
  | classOf {t : State} (n : Nat) (name : String) (span : Span) :
    Leads w s t → Leads w s ((evaluator n).classOf name span w t).2
  | iterate {t : State} (n : Nat) (it : Iteration) : Leads w s t → Leads w s ((evaluator n).iterate it w t).2
  | elsewhere {t u : State} :
    Leads w s t → u.classes = t.classes → u.heap.classes.size = t.heap.classes.size → Leads w s u

theorem Leads.onward (leads : Leads w s t) : Onward s t := by
  induction leads with
  | refl => exact .refl s
  | eval n e scope _ ih => exact ih.trans ((evaluator_advances w n).eval scope (covers_any _) _)
  | exec n st scope _ ih => exact ih.trans ((evaluator_advances w n).exec scope (covers_any _) _)
  | callValue n f args span _ ih => exact ih.trans ((evaluator_advances w n).callValue f args span _)
  | classOf n name span _ ih => exact ih.trans ((evaluator_advances w n).classOf span trivial _)
  | iterate n it _ ih => exact ih.trans ((evaluator_advances w n).iterate (covers_any _) _)
  | elsewhere _ classes built ih => exact ih.trans (onward_of_eq classes built)

/-- A name that is not known gets a class made later, whenever it is used with success. -/
theorem classOf_later (unknown : s.classes.lookup name = none) (leads : Leads w s t) {n : Nat} {span : Span} {id : Nat}
    (used : (evaluator (n + 1)).classOf name span w t = (.ok id, u)) : s.heap.classes.size ≤ id := by
  have onward := leads.onward
  have ran := (classOf_run (evaluator n) name span w t).symm.trans used
  cases between : t.classes.lookup name with
  | some id' =>
    rw [between] at ran
    cases ran
    exact onward.fresh unknown between
  | none =>
    rw [between] at ran
    cases declared : w.class? name with
    | none =>
      rw [declared] at ran
      cases ran
    | some d =>
      rw [declared] at ran
      dsimp only at ran
      rw [building, bind_run] at ran
      rcases prepared : preparing (evaluator n) name d.1 d.2 w t with ⟨stop | cls, v⟩
      · rw [prepared] at ran
        cases ran
      · obtain ⟨newest, -⟩ := preparing_ok (evaluator_advances w n) prepared
        rw [prepared] at ran
        dsimp only at ran
        rw [bind_run] at ran
        rcases filled : initStatics (evaluator n) cls d.2.fields w v with ⟨stop | _, v'⟩
        · rw [filled] at ran
          cases ran
        · rw [filled] at ran
          cases ran
          exact newest ▸ onward.built

/-- A class that was not known and cannot be built is forgotten, and every later use of its name gives a class made
after that, unless the failure is that of its own static fields: then the class stays, with the fields that had got
their values. -/
theorem failed_class_is_forgotten (w : World) (n : Nat) (name : String) (span : Span) {s t : State} {d : Diagnostic}
    (unknown : s.classes.lookup name = none)
    (failed : (evaluator (n + 1)).classOf name span w s = (.error (.failed d), t)) :
    (t.classes.lookup name = none ∧
      ∀ u, Leads w t u → ∀ m later id v, (evaluator (m + 1)).classOf name later w u = (.ok id, v) →
        t.heap.classes.size ≤ id) ∨
      ∃ file decl cls prepared, w.class? name = some (file, decl) ∧
        preparing (evaluator n) name file decl w s = (.ok cls, prepared) ∧
        initStatics (evaluator n) cls decl.fields w prepared = (.error (.failed d), t) ∧
        t.classes.lookup name = some cls := by
  have forgotten (gone : t.classes.lookup name = none) : t.classes.lookup name = none ∧
      ∀ u, Leads w t u → ∀ m later id v, (evaluator (m + 1)).classOf name later w u = (.ok id, v) →
        t.heap.classes.size ≤ id := ⟨gone, fun _ leads _ _ _ _ used => classOf_later gone leads used⟩
  have ran := (classOf_run (evaluator n) name span w s).symm.trans failed
  rw [unknown] at ran
  cases declared : w.class? name with
  | none =>
    rw [declared] at ran
    cases ran
    exact .inl (forgotten unknown)
  | some declaration =>
    obtain ⟨file, decl⟩ := declaration
    rw [declared] at ran
    dsimp only at ran
    rw [building, bind_run] at ran
    rcases prepared : preparing (evaluator n) name file decl w s with ⟨stop | cls, u⟩
    · rw [prepared] at ran
      cases ran
      exact .inl (forgotten (preparing_failed prepared))
    · obtain ⟨-, known⟩ := preparing_ok (evaluator_advances w n) prepared
      have kept := initStatics_advances (evaluator_advances w n) cls decl.fields u
      rw [prepared] at ran
      dsimp only at ran
      rw [bind_run] at ran
      rcases filled : initStatics (evaluator n) cls decl.fields w u with ⟨stop | _, v⟩
      · rw [filled] at ran kept
        cases ran
        exact .inr ⟨file, decl, cls, u, rfl, prepared, filled, kept.known known⟩
      · rw [filled] at ran
        cases ran

end Evaluation

open Evaluation Sample

/-- `class App extends Missing { }`, whose superclass is not declared. -/
def orphaned : LinkedProgram := .ofProgram ⟨"main.clasp", [.declares (cls "App" (some "Missing") [] [])], default⟩

theorem orphaned_is_forgotten :
    ∃ d t, (evaluator 3).classOf "App" Span.none (.ofProgram orphaned 0) ((Interpreter.new 0 none).load orphaned).state =
        (.error (.failed d), t) ∧
      t.classes.lookup "App" = none ∧
      ∀ u, Leads (.ofProgram orphaned 0) t u → ∀ m later id v,
        (evaluator (m + 1)).classOf "App" later (.ofProgram orphaned 0) u = (.ok id, v) → t.heap.classes.size ≤ id := by
  refine ⟨_, _, rfl, ?_⟩
  rcases failed_class_is_forgotten (.ofProgram orphaned 0) 2 "App" Span.none
    (s := ((Interpreter.new 0 none).load orphaned).state) rfl rfl with gone | ⟨_, _, _, _, _, _, _, known⟩
  · exact gone
  · cases known

/-- A class `App` with static fields `first = null` and `second = Boom.go(null)`; the initial value of the second one
fails. -/
def faltering : LinkedProgram :=
  entering [static "first" (.null default), static "second" (call "Boom" "go" [.null default])]

/-- The class `App` failed when it was built, and is known with its first static field only. -/
def Sample.isHalfBuilt (r : Except Stop Nat × State) : Bool :=
  match r with
  | (.error (.failed _), t) =>
    t.classes.lookup "App" == some 0 && ((t.heap.cls 0).static? "first").isSome &&
      ((t.heap.cls 0).static? "second").isNone
  | _ => false

theorem exists_of_isHalfBuilt {r : Except Stop Nat × State} (half : isHalfBuilt r = true) :
    ∃ d t, r = (.error (.failed d), t) ∧ t.classes.lookup "App" = some 0 ∧
      ((t.heap.cls 0).static? "first").isSome = true ∧ (t.heap.cls 0).static? "second" = none := by
  rcases r with ⟨(d | _ | _) | id, t⟩
  · simp only [isHalfBuilt, Bool.and_eq_true, beq_iff_eq, Option.isNone_iff_eq_none] at half
    exact ⟨d, t, rfl, half.1.1, half.1.2, half.2⟩
  · cases half
  · cases half
  · cases half

/-- The class could not be built, but its name stands for it from then on, with one of its two static fields. -/
theorem faltering_class_stays :
    (∃ c, faltering.check = .ok c) ∧
      ∃ d t id, (evaluator 40).classOf "App" Span.none (.ofProgram faltering 0)
          ((Interpreter.new 0 none).load faltering).state = (.error (.failed d), t) ∧
        t.classes.lookup "App" = some id ∧ ((t.heap.cls id).static? "first").isSome = true ∧
        (t.heap.cls id).static? "second" = none ∧
        (evaluator 40).classOf "App" Span.none (.ofProgram faltering 0) t = (.ok id, t) := by
  obtain ⟨c, accepted, -⟩ := exists_accepted (p := faltering) (P := fun _ => True) (by decide +kernel)
  refine ⟨⟨c, accepted⟩, ?_⟩
  have half : isHalfBuilt ((evaluator 40).classOf "App" Span.none (.ofProgram faltering 0)
      ((Interpreter.new 0 none).load faltering).state) = true := by decide +kernel
  generalize (evaluator 40).classOf "App" Span.none (.ofProgram faltering 0)
    ((Interpreter.new 0 none).load faltering).state = outcome at half ⊢
  obtain ⟨d, t, rfl, known, first, second⟩ := exists_of_isHalfBuilt half
  refine ⟨d, t, 0, rfl, known, first, second, ?_⟩
  refine (classOf_run (evaluator 39) "App" Span.none _ t).trans ?_
  rw [known]

end ClassScript
