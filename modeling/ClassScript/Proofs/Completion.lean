import ClassScript.Proofs.InterfaceMethods
import ClassScript.Proofs.PermanentFrames
import ClassScript.Proofs.StackDiscipline
import ClassScript.Proofs.TypeSoundness
import Mathlib.Data.List.Induction

/-!
Completing the arguments of a method of the host. Arguments that are fewer than the parameters are bound in a scope of
their own, where each is converted to the type of its parameter and default values take the places of those that are
missing, and then read back (`completed_arguments_are_converted`). Two things can come between: a full list of arguments
is not converted at all (`full_arguments_are_not_converted`), and a default value may assign to a parameter before it
(`default_value_replaces_argument`). Constant default values do not (`defaultsSpare_of_constant`).
-/

namespace ClassScript.Evaluation

variable {α β : Type} {k : Evaluator} {w : World} {s s' : State} {scope : ScopeId}

theorem ran_bind {x : Run α} {f : α → Run β} {b : β} (ran : (x >>= f) w s = (.ok b, s')) :
    ∃ a t, x w s = (.ok a, t) ∧ f a w t = (.ok b, s') := by
  rw [bind_run] at ran
  rcases first : x w s with ⟨stop | a, t⟩
  · rw [first] at ran
    cases ran
  · rw [first] at ran
    exact ⟨a, t, rfl, ran⟩

/-! ## Binding parameters one after the other -/

/-- The value that a parameter is bound to, before it is converted: the first of the arguments that are left, or
its default value. -/
def argumentFor (k : Evaluator) (scope : ScopeId) (p : Param) (args : List Value) : Run Value :=
  match args, p.fallback with
  | a :: _, _ => pure a
  | [], some e => k.eval e scope
  | [], none => fail Span.none .missingDefault

theorem bindParams_nil (args : List Value) : bindParams k scope [] args = pure () := rfl

theorem bindParams_cons (p : Param) (ps : List Param) (args : List Value) :
    bindParams k scope (p :: ps) args = (do
      let v ← argumentFor k scope p args
      define scope p.name.text (coerce p.type v)
      bindParams k scope ps args.tail) := by
  conv_lhs => unfold bindParams
  cases args with
  | cons a as => simp [argumentFor]
  | nil => rcases fallback : p.fallback with _ | e <;> simp [argumentFor, fallback]

theorem bindParams_append (ps qs : List Param) (args : List Value) :
    bindParams k scope (ps ++ qs) args =
      (do bindParams k scope ps args; bindParams k scope qs (args.drop ps.length)) := by
  induction ps generalizing args with
  | nil => simp [bindParams_nil]
  | cons p ps ih => simp [bindParams_cons, ih]

/-- The scope in which the arguments of a host method are completed, with parameters bound in it. -/
def calleeScope (k : Evaluator) (params : List Param) (args : List Value) : Run ScopeId := do
  noteTurn
  let scope ← openScope Environment.global
  bindParams k scope params args
  return scope

theorem calleeScope_append (ps : List Param) (p : Param) (args : List Value) :
    calleeScope k (ps ++ [p]) args = (do
      let scope ← calleeScope k ps args
      let v ← argumentFor k scope p (args.drop ps.length)
      define scope p.name.text (coerce p.type v)
      return scope) := by
  simp [calleeScope, bindParams_append, bindParams_cons, bindParams_nil]

/-! ## What the parameters hold -/

/-- The values of a completed list of arguments: each argument, converted to the type of its parameter, and for each
parameter without an argument its default value, evaluated where the parameters before it are bound, and converted. -/
structure Completes (k : Evaluator) (params : List Param) (args : List Value) (w : World) (s : State)
    (vs : List Value) : Prop where
  length : vs.length = params.length
  given : ∀ (i : Nat) (p : Param) (a : Value), params[i]? = some p → args[i]? = some a →
    vs[i]? = some (coerce p.type a)
  missing : ∀ (i : Nat) (p : Param), params[i]? = some p → args.length ≤ i → ∃ e scope v t t',
    p.fallback = some e ∧ calleeScope k (params.take i) args w s = (.ok scope, t) ∧
      k.eval e scope w t = (.ok v, t') ∧ vs[i]? = some (coerce p.type v)

/-- No default value that is needed assigns to a parameter before it: the frame of the parameters stays as it is. -/
def DefaultsSpare (k : Evaluator) (params : List Param) (args : List Value) (w : World) (s : State) : Prop :=
  ∀ (i : Nat) (p : Param) (e : Expr) (scope : ScopeId) (frame : Nat) (v : Value) (t t' : State),
    params[i]? = some p → args.length ≤ i → p.fallback = some e →
      calleeScope k (params.take i) args w s = (.ok scope, t) → t.env.capture? scope = some frame →
        k.eval e scope w t = (.ok v, t') → t'.env.frames[frame]? = t.env.frames[frame]?

theorem argumentFor_cases {p : Param} {args : List Value} {v : Value}
    (ran : argumentFor k scope p args w s = (.ok v, s')) :
    (∃ as, args = v :: as ∧ s' = s) ∨
      (args = [] ∧ ∃ e, p.fallback = some e ∧ k.eval e scope w s = (.ok v, s')) := by
  cases args with
  | cons a as =>
    cases ran
    exact .inl ⟨as, rfl, rfl⟩
  | nil =>
    unfold argumentFor at ran
    cases fallback : p.fallback with
    | none =>
      rw [fallback] at ran
      cases ran
    | some e =>
      rw [fallback] at ran
      exact .inr ⟨rfl, e, rfl, ran⟩

theorem getElem?_concat_cases {xs : List α} {x y : α} {i : Nat} (found : (xs ++ [x])[i]? = some y) :
    (i < xs.length ∧ xs[i]? = some y) ∨ (i = xs.length ∧ y = x) := by
  rcases Nat.lt_or_ge i xs.length with inside | beyond
  · exact .inl ⟨inside, by rwa [List.getElem?_append_left inside] at found⟩
  · rw [List.getElem?_append_right beyond, List.getElem?_singleton] at found
    split at found
    · exact .inr ⟨by omega, (Option.some.inj found).symm⟩
    · cases found

theorem completes_concat {ps : List Param} {p : Param} {args vs : List Value} {v : Value} {t t' : State}
    (completes : Completes k ps args w s vs) (opened : calleeScope k ps args w s = (.ok scope, t))
    (supplied : argumentFor k scope p (args.drop ps.length) w t = (.ok v, t')) :
    Completes k (ps ++ [p]) args w s (vs ++ [coerce p.type v]) := by
  have before {i : Nat} (inside : i < ps.length) : (vs ++ [coerce p.type v])[i]? = vs[i]? :=
    List.getElem?_append_left (completes.length ▸ inside)
  have last : (vs ++ [coerce p.type v])[ps.length]? = some (coerce p.type v) := by
    rw [← completes.length, List.getElem?_concat_length]
  refine ⟨by simp [completes.length], fun i q a param arg => ?_, fun i q param beyond => ?_⟩
  · obtain ⟨inside, param⟩ | ⟨rfl, rfl⟩ := getElem?_concat_cases param
    · rw [before inside]
      exact completes.given i q a param arg
    · obtain ⟨as, rest, -⟩ | ⟨none, -⟩ := argumentFor_cases supplied
      · have same : args[ps.length]? = some v := by rw [← List.head?_drop, rest, List.head?_cons]
        rw [last, Option.some.inj (same.symm.trans arg)]
      · have beyond := List.drop_eq_nil_iff.1 none
        rw [List.getElem?_eq_none beyond] at arg
        cases arg
  · obtain ⟨inside, param⟩ | ⟨rfl, rfl⟩ := getElem?_concat_cases param
    · rw [before inside, List.take_append_of_le_length (Nat.le_of_lt inside)]
      exact completes.missing i q param beyond
    · obtain ⟨as, rest, -⟩ | ⟨-, e, fallback, evaluated⟩ := argumentFor_cases supplied
      · rw [List.drop_eq_nil_of_le beyond] at rest
        cases rest
      · refine ⟨e, scope, v, t, t', fallback, ?_, evaluated, last⟩
        rwa [List.take_left]

theorem calleeScope_nil {args : List Value} (ran : calleeScope k [] args w s = (.ok scope, s')) :
    ∃ frame f, s'.env.capture? scope = some frame ∧ s'.env.frames[frame]? = some f := by
  obtain ⟨-, t, noted, ran⟩ := ran_bind ran
  obtain ⟨id, u, opened, ran⟩ := ran_bind ran
  obtain ⟨outer, u', found, opened⟩ := ran_bind opened
  cases ran
  cases opened
  exact ⟨u'.env.frames.size, ⟨[], some outer⟩, by simp [Environment.capture?], by simp⟩

theorem define_run {frame : Nat} (captured : s.env.capture? scope = some frame) (name : String) (v : Value) :
    define scope name v w s = (.ok (), { s with env := s.env.setAt frame name v }) := by
  unfold define
  rw [bind_run, frameOf_run captured]
  rfl

/-- Where parameters have been bound, the frame of their scope holds the values of the completed arguments. The
induction is on the number of parameters that are bound, since a default value sees those before it. -/
theorem calleeScope_holds (disciplined : k.Disciplined) {params : List Param} {args : List Value}
    (distinct : (params.map fun p => p.name.text).Nodup) (spare : DefaultsSpare k params args w s)
    (ran : calleeScope k params args w s = (.ok scope, s')) :
    ∃ frame f vs, s'.env.capture? scope = some frame ∧ s'.env.frames[frame]? = some f ∧
      params.map (fun p => f.find? p.name.text) = vs.map some ∧ Completes k params args w s vs := by
  induction params using List.reverseRecOn generalizing scope s' with
  | nil =>
    obtain ⟨frame, f, captured, held⟩ := calleeScope_nil ran
    exact ⟨frame, f, [], captured, held, rfl, rfl, by simp, by simp⟩
  | append_singleton ps p ih =>
    rw [calleeScope_append] at ran
    obtain ⟨scope, t, opened, ran⟩ := ran_bind ran
    obtain ⟨v, t', supplied, ran⟩ := ran_bind ran
    obtain ⟨_, u, defined, ran⟩ := ran_bind ran
    cases ran
    rw [List.map_append, List.nodup_append] at distinct
    have spareBefore : DefaultsSpare k ps args w s := fun i q e scope frame v t t' param beyond fallback opened =>
      have inside : i < ps.length := (List.getElem?_eq_some_iff.1 param).1
      spare i q e scope frame v t t' (by rwa [List.getElem?_append_left inside]) beyond fallback
        (by rwa [List.take_append_of_le_length (Nat.le_of_lt inside)])
    obtain ⟨frame, f, vs, captured, held, holds, completes⟩ := ih distinct.1 spareBefore opened
    have kept : t'.env.capture? scope = some frame ∧ t'.env.frames[frame]? = some f := by
      obtain ⟨as, -, rfl⟩ | ⟨none, e, fallback, evaluated⟩ := argumentFor_cases supplied
      · exact ⟨captured, held⟩
      · have live : scope < t.env.slots.size := (Array.getElem?_eq_some_iff.1 captured).1
        have undisturbed := disciplined.eval _ e scope live w t rfl
        rw [evaluated] at undisturbed
        have spared := spare ps.length p e scope frame v t t' (by simp) (List.drop_eq_nil_iff.1 none) fallback
          (by rwa [List.take_left]) captured evaluated
        exact ⟨by rw [Environment.capture?, undisturbed.slots]; exact captured, spared.trans held⟩
    rw [define_run kept.1] at defined
    cases defined
    refine ⟨frame, f.set p.name.text (coerce p.type v), vs ++ [coerce p.type v], kept.1, ?_, ?_,
      completes_concat completes opened supplied⟩
    · show (t'.env.frames.modify frame _)[frame]? = _
      rw [Array.getElem?_modify, if_pos rfl, kept.2, Option.map_some]
    · have others : ps.map (fun q => (f.set p.name.text (coerce p.type v)).find? q.name.text) =
          ps.map fun q => f.find? q.name.text := by
        refine List.map_congr_left fun q among => ?_
        rw [Frame.find?_set, if_neg]
        exact distinct.2.2 _ (List.mem_map_of_mem among) _ (by simp)
      rw [List.map_append, List.map_append, others, holds]
      simp [Frame.find?_set]

/-! ## Reading the values back -/

theorem binding?_run {frame : Nat} {f : Frame Value} {name : String} {v : Value}
    (captured : s.env.capture? scope = some frame) (held : s.env.frames[frame]? = some f)
    (found : f.find? name = some v) : binding? scope name w s = (.ok (some v), s) := by
  have seen : s.env.seenFrom frame name = some (frame, v) := by
    rw [Environment.seenFrom, Environment.findFrom, held]
    simp only [found]
  unfold binding?
  rw [bind_run, frameOf_run captured]
  show (pure ((s.env.seenFrom frame name).map (·.2)) : Run (Option Value)) w s = _
  rw [seen]
  rfl

/-- The values of parameters, as they are read from their scope. -/
def readBack (scope : ScopeId) (params : List Param) : Run (List Value) :=
  params.mapM fun p => return (← binding? scope p.name.text).getD .null

theorem readBack_run {frame : Nat} {f : Frame Value} {params : List Param} {vs : List Value}
    (captured : s.env.capture? scope = some frame) (held : s.env.frames[frame]? = some f)
    (holds : params.map (fun p => f.find? p.name.text) = vs.map some) :
    readBack scope params w s = (.ok vs, s) := by
  induction params generalizing vs with
  | nil =>
    obtain rfl : vs = [] := by simpa using holds.symm
    rfl
  | cons p params ih =>
    cases vs with
    | nil => simp at holds
    | cons v vs =>
      obtain ⟨found, holds⟩ := List.cons.inj holds
      have rest := ih holds
      unfold readBack at rest ⊢
      rw [List.mapM_cons, bind_run, bind_run, binding?_run captured held found]
      show ((params.mapM _ >>= fun vs => pure (v :: vs)) : Run (List Value)) w s = _
      rw [bind_run, rest]
      rfl

theorem checkCount_ran {name : String} {params : List Param} {count : Nat} {span : Span}
    (ran : checkCount name params count span w s = (.ok (), s')) : s' = s := by
  unfold checkCount at ran
  split at ran
  · cases ran
    rfl
  · split at ran <;> cases ran

theorem releasing_ran {x : Run α} {a : α} (ran : releasing x w s = (.ok a, s')) : ∃ t, x w s = (.ok a, t) := by
  change restoring x (fun t => { t with env := t.env.release s.env.height }) w s = _ at ran
  unfold restoring at ran
  rcases ended : x w s with ⟨r, t⟩
  rw [ended] at ran
  cases ran
  exact ⟨t, rfl⟩

/-- A list of arguments that is full is given back as it is; otherwise the values are those that the parameters have. -/
theorem withDefaults_cases {m : FoundMethod} {args vs : List Value} {span : Span}
    (completed : withDefaults k m args span w s = (.ok vs, s')) :
    (args.length = m.decl.params.length ∧ vs = args) ∨
      ∃ scope t t', calleeScope k m.decl.params args w s = (.ok scope, t) ∧
        readBack scope m.decl.params w t = (.ok vs, t') := by
  obtain ⟨_, t, counted, rest⟩ := ran_bind completed
  obtain rfl := checkCount_ran counted
  split at rest
  case isTrue full =>
    cases rest
    exact .inl ⟨beq_iff_eq.1 full, rfl⟩
  case isFalse partly =>
    obtain ⟨_, noted, turn, rest⟩ := ran_bind rest
    obtain ⟨t', ran⟩ := releasing_ran rest
    obtain ⟨scope, opened, opening, ran⟩ := ran_bind ran
    obtain ⟨_, t, binding, ran⟩ := ran_bind ran
    refine .inr ⟨scope, t, t', ?_, ran⟩
    simp only [calleeScope, bind_run, turn, opening, binding]
    rfl

/-! ## Constant default values -/

/-- Whether an expression is a literal, possibly behind unary operators. -/
def IsConstant : Expr → Prop
  | .number .. | .string _ | .boolean .. | .null _ => True
  | .unary _ _ operand => IsConstant operand
  | _ => False

theorem applyUnary_still (op : UnaryOp) (v : Value) (span : Span) : (applyUnary op v span w s).2 = s := by
  unfold applyUnary
  split <;> rfl

/-- Evaluating a constant changes nothing. -/
theorem constant_still {e : Expr} (constant : IsConstant e) (n : Nat) (scope : ScopeId) (w : World) (s : State) :
    ((evaluator n).eval e scope w s).2 = s := by
  induction n generalizing e with
  | zero => rfl
  | succ n ih =>
    show (eval (evaluator n) e scope w s).2 = s
    cases e with
    | unary m op operand =>
      have operandStill : ((evaluator n).eval operand scope w s).2 = s := ih constant
      show (((evaluator n).eval operand scope >>= fun v => applyUnary op v m.span : Run Value) w s).2 = s
      rw [bind_run]
      rcases ran : (evaluator n).eval operand scope w s with ⟨stop | v, t⟩
      · rw [ran] at operandStill
        exact operandStill
      · rw [ran] at operandStill
        cases operandStill
        exact applyUnary_still op v m.span
    | number | string | boolean | null => rfl
    | _ => exact False.elim constant

theorem defaultsSpare_of_constant {n : Nat} {params : List Param} {args : List Value}
    (constant : ∀ p ∈ params, ∀ e, p.fallback = some e → IsConstant e) :
    DefaultsSpare (evaluator n) params args w s := by
  intro i p e scope frame v t t' param beyond fallback opened captured evaluated
  have still := constant_still (constant p (List.mem_of_getElem? param) e fallback) n scope w t
  rw [evaluated] at still
  cases still
  rfl

/-! ## Completed arguments -/

/-- Every argument already is as the type of its parameter converts it. -/
def Converted (params : List Param) (args : List Value) : Prop :=
  ∀ (i : Nat) (p : Param) (a : Value), params[i]? = some p → args[i]? = some a → coerce p.type a = a

/-- What must not come between a list of arguments and its completion: a list that is full has been converted before,
and no default value assigns to a parameter. -/
structure Unhindered (k : Evaluator) (params : List Param) (args : List Value) (w : World) (s : State) : Prop where
  full : args.length = params.length → Converted params args
  spare : DefaultsSpare k params args w s

theorem completes_of_full {params : List Param} {args : List Value} (full : args.length = params.length)
    (converted : Converted params args) : Completes k params args w s args where
  length := full
  given i p a param arg := by rw [arg, converted i p a param arg]
  missing i p param beyond := by
    rw [List.getElem?_eq_none (full ▸ beyond)] at param
    cases param

theorem completes_of_ran (disciplined : k.Disciplined) {m : FoundMethod} {args vs : List Value} {span : Span}
    (distinct : (m.decl.params.map fun p => p.name.text).Nodup) (unhindered : Unhindered k m.decl.params args w s)
    (completed : withDefaults k m args span w s = (.ok vs, s')) : Completes k m.decl.params args w s vs := by
  obtain ⟨full, rfl⟩ | ⟨scope, t, t', opened, read⟩ := withDefaults_cases completed
  · exact completes_of_full full (unhindered.full full)
  · obtain ⟨frame, f, held, captured, found, holds, completes⟩ :=
      calleeScope_holds disciplined distinct unhindered.spare opened
    rw [readBack_run captured found holds] at read
    cases read
    exact completes

/-- What the arguments that are given become does not depend on those behind them. -/
theorem Completes.take_eq {params : List Param} {args more vs vs' : List Value} {w' : World} {t : State}
    (completes : Completes k params args w s vs) (completes' : Completes k params (args ++ more) w' t vs') :
    vs'.take args.length = vs.take args.length := by
  refine List.ext_getElem? fun i => ?_
  rw [List.getElem?_take, List.getElem?_take]
  split
  case isTrue inside =>
    cases param : params[i]? with
    | none =>
      have less : params.length ≤ i := List.getElem?_eq_none_iff.1 param
      rw [List.getElem?_eq_none (completes'.length ▸ less), List.getElem?_eq_none (completes.length ▸ less)]
    | some p =>
      have arg : args[i]? = some args[i] := List.getElem?_eq_getElem inside
      have arg' : (args ++ more)[i]? = some args[i] := by rw [List.getElem?_append_left inside, arg]
      rw [completes.given i p _ param arg, completes'.given i p _ param arg']
  case isFalse => rfl

/-- Completing the arguments of a method of the host gives each argument converted to the type of its parameter, and
for each parameter without an argument its default value, evaluated in the scope of the callee, and converted. With more
arguments behind them, the same arguments become the same values. -/
theorem completed_arguments_are_converted (n : Nat) (m : FoundMethod) (args vs : List Value) (span : Span) (w : World)
    (s s' : State) (distinct : (m.decl.params.map fun p => p.name.text).Nodup)
    (unhindered : Unhindered (evaluator n) m.decl.params args w s)
    (completed : withDefaults (evaluator n) m args span w s = (.ok vs, s')) :
    Completes (evaluator n) m.decl.params args w s vs ∧
      ∀ (more vs' : List Value) (span' : Span) (w' : World) (t t' : State),
        Unhindered (evaluator n) m.decl.params (args ++ more) w' t →
          withDefaults (evaluator n) m (args ++ more) span' w' t = (.ok vs', t') →
            vs'.take args.length = vs.take args.length := by
  have disciplined := evaluator_disciplined n
  have completes := completes_of_ran disciplined distinct unhindered completed
  exact ⟨completes, fun more vs' span' w' t t' unhindered' completed' =>
    completes.take_eq (completes_of_ran disciplined distinct unhindered' completed')⟩

open Sample

/-- `substring(start: number, end: number = …): string;` -/
def substringMethod (fallback : Expr) : FoundMethod :=
  ⟨{ method false "substring" [] [] with
    params := [⟨default, named "start", some (typed "number"), none⟩,
      ⟨default, named "end", some (typed "number"), some fallback⟩],
    body := none }, none⟩

/-- The string `"1"`. -/
def one : Value := .string [0x31]

theorem coerce_one : ∃ x, coerce (some (typed "number")) one = .number x := by
  have shown : Bytes.shown [0x31] = "1" := by decide +kernel
  obtain ⟨x, read⟩ := Option.isSome_iff_exists.1 (show (Number.read "1").isSome = true by decide +kernel)
  refine ⟨x, ?_⟩
  show ((Number.read (Bytes.shown [0x31])).map Value.number).getD one = _
  rw [shown, read]
  rfl

/-- `-1` -/
def minusOne : Expr := .unary default .negate (.number default "1")

theorem substring_start_is_converted :
    ∃ x vs s', withDefaults (evaluator 2) (substringMethod minusOne) [one] default default default = (.ok vs, s') ∧
      vs.length = 2 ∧ vs[0]? = some (.number x) := by
  obtain ⟨x, converts⟩ := coerce_one
  have constant : ∀ p ∈ (substringMethod minusOne).decl.params, ∀ e, p.fallback = some e → IsConstant e := by
    simp [substringMethod, minusOne, IsConstant]
  obtain ⟨vs, s', completed⟩ : ∃ vs s',
      withDefaults (evaluator 2) (substringMethod minusOne) [one] default default default = (.ok vs, s') := ⟨_, _, rfl⟩
  obtain ⟨completes, -⟩ := completed_arguments_are_converted 2 (substringMethod minusOne) [one] vs default default
    default s' (by decide) ⟨fun full => (by cases full), defaultsSpare_of_constant constant⟩ completed
  refine ⟨x, vs, s', completed, completes.length, ?_⟩
  rw [← converts]
  exact completes.given 0 _ one rfl rfl

/-- With all arguments, the string stays a string. -/
theorem full_arguments_are_not_converted :
    ∃ x s', coerce (some (typed "number")) one = .number x ∧
      withDefaults (evaluator 2) (substringMethod minusOne) [one, .number 3] default default default =
        (.ok [one, .number 3], s') := by
  obtain ⟨x, converts⟩ := coerce_one
  exact ⟨x, _, converts, rfl⟩

/-- `start = 3` -/
def reassignment : Expr := .assign default (.name (named "start")) (.number default "3")

theorem default_value_replaces_argument :
    ∃ s', withDefaults (evaluator 2) (substringMethod reassignment) [.number 1] default default default =
      (.ok [.number (Number.ofDigits "3"), .number (Number.ofDigits "3")], s') := ⟨_, rfl⟩

end ClassScript.Evaluation
