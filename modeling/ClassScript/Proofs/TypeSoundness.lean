import ClassScript.Evaluation.Interpreter
import ClassScript.Proofs.FirstOrder
import ClassScript.Proofs.Steady

/-!
Type soundness of first-order programs. A run is safe if it leads from states with one property to
states with another unless it divides by zero (`Safe`). The invariant of a run is that its frames agree
with the variables that typing knows (`Fits`): each step of evaluation keeps it (`eval_safe`,
`exec_safe`), and so does a run of any length (`evaluator_safe`). An accepted program therefore ends
with a value or divides by zero (`accepted_program_does_not_go_wrong`).
-/

namespace ClassScript

/-! ## Runs that do not go wrong -/

namespace Evaluation

/-- A run stops because of a division by zero. -/
def IsDivision (stop : Stop) : Prop :=
  ∃ d, stop = .failed d ∧ d.kind = .execution ∧ d.code = "R001" ∧ d.message = "division by zero"

/-- From a state with one property a computation leads to a result and a state with another, unless it
divides by zero. -/
def Safe {α : Type} (before : State → Prop) (x : Run α) (after : α → State → Prop) : Prop :=
  ∀ w s, before s → (∃ a s', x w s = (.ok a, s') ∧ after a s') ∨ ∃ stop s', x w s = (.error stop, s') ∧ IsDivision stop

section

variable {α β : Type} {before : State → Prop}

theorem safe_pure {after : α → State → Prop} {a : α} (holds : ∀ s, before s → after a s) :
    Safe before (pure a) after := fun _ s ready => .inl ⟨a, s, rfl, holds s ready⟩

theorem safe_bind {between : α → State → Prop} {after : β → State → Prop} {x : Run α} {f : α → Run β}
    (first : Safe before x between) (rest : ∀ a, Safe (between a) (f a) after) : Safe before (x >>= f) after := by
  intro w s ready
  rw [bind_run]
  rcases first w s ready with ⟨a, s', ran, holds⟩ | ⟨stop, s', ran, division⟩
  · rw [ran]
    exact rest a w s' holds
  · rw [ran]
    exact .inr ⟨stop, s', rfl, division⟩

/-- Facts that do not concern the state may be used. -/
theorem safe_given {fact : Prop} {after : α → State → Prop} {x : Run α} (safe : fact → Safe before x after) :
    Safe (fun s => fact ∧ before s) x after := fun w s ready => safe ready.1 w s ready.2

/-- Facts that the state tells may be used. -/
theorem safe_using (fact : Prop) {after : α → State → Prop} {x : Run α} (told : ∀ s, before s → fact)
    (safe : fact → Safe before x after) : Safe before x after := fun w s ready => safe (told s ready) w s ready

theorem safe_heap : Safe before heap (fun _ => before) := fun _ s ready => .inl ⟨s.heap, s, rfl, ready⟩

theorem safe_division (span : Span) (after : α → State → Prop) : Safe before (fail span .divisionByZero) after :=
  fun _ s _ => .inr ⟨_, s, rfl, _, rfl, rfl, rfl, rfl⟩

/-- A primitive value always has a text. -/
theorem text_eq (v : Value) (w : World) (s : State) :
    text v w s = (match s.heap.text? v with
      | some t => pure t
      | none => throw .endless : Run Bytes) w s := rfl

theorem safe_text {v : Value} (primitive : v.isPrimitive = true) : Safe before (text v) (fun _ => before) := by
  intro w s ready
  have shown : ∃ t, s.heap.text? v = some t := by
    unfold Heap.text? Heap.nesting
    cases v <;> simp [Value.isPrimitive] at primitive <;> exact ⟨_, by rw [Heap.textWithin]⟩
  obtain ⟨t, isText⟩ := shown
  refine .inl ⟨t, s, ?_, ready⟩
  rw [text_eq, isText]
  rfl

end

/-! ## Variables -/

/-- Running code in a scope fits the variables that typing knows: the slot holds the innermost frame of
a chain that agrees with them, and the number of statements is not limited. -/
structure Fits (slots : Array Nat) (slot : ScopeId) (ids : List Nat) (frames : List (List Typing.Binding))
    (s : State) : Prop where
  live : s.env.slots = slots
  inner : ∃ id outer, ids = id :: outer ∧ slots[slot]? = some id
  agrees : Agrees s.env.frames frames ids
  unlimited : s.allowance = none

variable {slots : Array Nat} {slot : ScopeId} {ids : List Nat} {scope : Typing.Scope}

theorem frameOf_run {s : State} {id : Nat} (held : s.env.capture? slot = some id) (w : World) :
    frameOf slot w s = (.ok id, s) := by
  rw [frameOf_eq, held]
  rfl

/-- A variable that typing knows is found from the slot, with a value of its type. -/
theorem fits_find {s : State} (fits : Fits slots slot ids scope.frames s) {name : String} {b : Typing.Binding}
    (known : scope.find? name = some b) :
    ∃ id outer holder v, ids = id :: outer ∧ s.env.capture? slot = some id ∧
      s.env.seenFrom id name = some (holder, v) ∧ Holds b.type v := by
  obtain ⟨id, outer, rfl, held⟩ := fits.inner
  have found := agrees_find fits.agrees name (Nat.lt_succ_self id)
  rw [Typing.Scope.find?] at known
  rw [known] at found
  cases place : s.env.findFrom name (id + 1) id with
  | none => rw [place] at found; cases found
  | some at_ =>
    rw [place] at found
    cases found with
    | some both =>
      refine ⟨id, outer, at_.1, at_.2, rfl, ?_, place, both.1⟩
      rw [Environment.capture?, fits.live, held]

theorem binding?_safe {name : String} {b : Typing.Binding} (known : scope.find? name = some b) :
    Safe (Fits slots slot ids scope.frames) (binding? slot name)
      (fun found s => (∃ v, found = some v ∧ Holds b.type v) ∧ Fits slots slot ids scope.frames s) := by
  intro w s fits
  obtain ⟨id, outer, holder, v, -, captured, place, holds⟩ := fits_find fits known
  refine .inl ⟨some v, s, ?_, ⟨v, rfl, holds⟩, fits⟩
  unfold binding?
  rw [bind_run, frameOf_run captured]
  show (pure ((s.env.seenFrom id name).map (·.2)) : Run (Option Value)) w s = _
  rw [place]
  rfl

theorem assign_eq {s : State} {id : Nat} (captured : s.env.capture? slot = some id) {name : String} {v : Value}
    {w : World} :
    assign slot name v w s = (match s.env.seenFrom id name with
      | some (holder, _) => do setVariable holder name v; return true
      | none => return false : Run Bool) w s := by
  unfold assign
  rw [bind_run, frameOf_run captured]
  rfl

/-- A variable that typing knows can be given a value of its type. -/
theorem assign_safe {name : String} {b : Typing.Binding} (known : scope.find? name = some b) {v : Value}
    (holds : Holds b.type v) :
    Safe (Fits slots slot ids scope.frames) (assign slot name v)
      (fun done s => done = true ∧ Fits slots slot ids scope.frames s) := by
  intro w s fits
  obtain ⟨id, outer, holder, old, rfl, captured, place, -⟩ := fits_find fits known
  have agrees := agrees_assign fits.agrees (Nat.lt_succ_self id) known place holds
  refine .inl ⟨true, { s with env := s.env.setAt holder name v }, ?_, rfl, ?_⟩
  · rw [assign_eq captured, place]
    rfl
  · exact ⟨fits.live, fits.inner, agrees, fits.unlimited⟩

/-- A variable can be defined with a value of its type. -/
theorem define_safe {b : Typing.Binding} {v : Value} (holds : Holds b.type v) :
    Safe (Fits slots slot ids scope.frames) (define slot b.name v)
      (fun _ => Fits slots slot ids (scope.define b).frames) := by
  intro w s fits
  obtain ⟨id, outer, rfl, held⟩ := fits.inner
  have captured : s.env.capture? slot = some id := by rw [Environment.capture?, fits.live, held]
  refine .inl ⟨(), { s with env := s.env.setAt id b.name v }, ?_, ?_⟩
  · unfold define
    rw [bind_run, frameOf_run captured]
    rfl
  · exact ⟨fits.live, fits.inner, agrees_define fits.agrees holds, fits.unlimited⟩

theorem checkCancelled_safe (span : Span) {frames : List (List Typing.Binding)} :
    Safe (Fits slots slot ids frames) (checkCancelled span) (fun _ => Fits slots slot ids frames) := by
  intro w s fits
  refine .inl ⟨(), { s with checks := s.checks + 1 }, ?_, ⟨fits.live, fits.inner, fits.agrees, fits.unlimited⟩⟩
  rw [checkCancelled_eq, fits.unlimited]
  rfl

/-! ## Expressions -/

section

variable {before : State → Prop}

theorem applyUnary_safe {op : UnaryOp} {t : Ty} {v : Value} (takes : Typing.Takes (Typing.unaryType op) t)
    (holds : Holds t v) (span : Span) :
    Safe before (applyUnary op v span) (fun r s => Holds (Typing.unaryType op) r ∧ before s) := by
  cases op with
  | negate =>
    obtain ⟨x, rfl⟩ := holds_number (Typing.holds_of_takes takes rfl holds)
    exact safe_pure fun s ready => ⟨trivial, ready⟩
  | not =>
    obtain ⟨b, rfl⟩ := holds_boolean (Typing.holds_of_takes takes rfl holds)
    exact safe_pure fun s ready => ⟨trivial, ready⟩

theorem applyBinary_numbers {op : BinaryOp} (numeric : op ∉ [.equal, .notEqual, .and, .or]) (x y : Float)
    (span : Span) :
    applyBinary op (.number x) (.number y) span =
      match numericResult? op x y with
      | some v => pure v
      | none => fail span .divisionByZero := by
  cases op <;> first
    | rfl
    | simp at numeric

private theorem numeric_safe {op : BinaryOp} (numeric : op ∉ [.equal, .notEqual, .and, .or]) {x y : Float} {t : Ty}
    (span : Span) (typed : ∀ v, numericResult? op x y = some v → Holds t v) :
    Safe before (applyBinary op (.number x) (.number y) span) (fun r s => Holds t r ∧ before s) := by
  rw [applyBinary_numbers numeric]
  cases result : numericResult? op x y with
  | some v => exact safe_pure fun s ready => ⟨typed v result, ready⟩
  | none => exact safe_division span _

/-- An operator other than a logical one, applied to values of types that it takes, gives a value of
its result type or divides by zero. -/
theorem applyBinary_safe {op : BinaryOp} {l r t : Ty} {left right : Value} (operates : Typing.Operates op l r t)
    (plain : op ∉ [.and, .or]) (holdsLeft : Holds l left) (holdsRight : Holds r right) (span : Span) :
    Safe before (applyBinary op left right span) (fun v s => Holds t v ∧ before s) := by
  cases operates with
  | joins text =>
    have joined : joinsText left right = true := by
      rcases text with rfl | rfl
      · obtain ⟨x, rfl⟩ := holds_string holdsLeft
        rfl
      · obtain ⟨y, rfl⟩ := holds_string holdsRight
        cases left <;> rfl
    simp only [applyBinary, joined, if_true]
    refine safe_bind (safe_text (isPrimitive_of_holds holdsLeft)) fun x => ?_
    refine safe_bind (safe_text (isPrimitive_of_holds holdsRight)) fun y => ?_
    exact safe_pure fun s ready => ⟨trivial, ready⟩
  | computes numeric takesLeft takesRight =>
    obtain ⟨x, rfl⟩ := holds_number (Typing.holds_of_takes takesLeft rfl holdsLeft)
    obtain ⟨y, rfl⟩ := holds_number (Typing.holds_of_takes takesRight rfl holdsRight)
    simp only [List.mem_cons, List.not_mem_nil, or_false] at numeric
    rcases numeric with rfl | rfl | rfl | rfl | rfl
    all_goals
      refine numeric_safe (by simp) span fun v result => ?_
      simp only [numericResult?] at result
    · cases result; exact trivial
    · cases result; exact trivial
    · cases result; exact trivial
    · split at result
      · cases result
      · cases result; exact trivial
    · split at result
      · cases result
      · cases result; exact trivial
  | compares order takesLeft takesRight =>
    obtain ⟨x, rfl⟩ := holds_number (Typing.holds_of_takes takesLeft rfl holdsLeft)
    obtain ⟨y, rfl⟩ := holds_number (Typing.holds_of_takes takesRight rfl holdsRight)
    simp only [List.mem_cons, List.not_mem_nil, or_false] at order
    rcases order with rfl | rfl | rfl | rfl
    all_goals
      refine numeric_safe (by simp) span fun v result => ?_
      cases result
      exact trivial
  | equates equality =>
    simp only [List.mem_cons, List.not_mem_nil, or_false] at equality
    rcases equality with rfl | rfl
    all_goals exact safe_bind safe_heap fun h => safe_pure fun s ready => ⟨trivial, ready⟩
  | connects logic => exact absurd logic plain

theorem logicOperand_safe {op : BinaryOp} {t : Ty} {v : Value} (takes : Typing.Takes .boolean t) (holds : Holds t v)
    (e : Expr) : Safe before (logicOperand op e v) (fun _ => before) := by
  obtain ⟨b, rfl⟩ := holds_boolean (Typing.holds_of_takes takes rfl holds)
  exact safe_pure fun s ready => ready

end

/-- What an evaluator promises for the expressions up to a size. -/
def EvaluatesSafely (k : Evaluator) (size : Nat) : Prop :=
  ∀ (e : Expr) (scope : Typing.Scope) (expected : Option Ty) (c : Typing.Context) (t : Ty) (slots : Array Nat)
    (slot : ScopeId) (ids : List Nat), e.size ≤ size → e.isFirstOrder = true → c.registry = [] →
    Typing.Gives (Typing.infer scope expected e) c t →
    Safe (Fits slots slot ids scope.frames) (k.eval e slot)
      (fun v s => Holds t v ∧ Fits slots slot ids scope.frames s)

theorem evalLogic_safe {k : Evaluator} {size : Nat} (evaluates : EvaluatesSafely k size) {op : BinaryOp}
    {left right : Expr} (decisive : Bool) (small : left.size + right.size ≤ size) (leftSimple : left.isFirstOrder = true)
    (rightSimple : right.isFirstOrder = true) {c : Typing.Context} (bare : c.registry = []) {l r : Ty}
    (leftGives : Typing.Gives (Typing.infer scope none left) c l)
    (rightGives : Typing.Gives (Typing.infer scope none right) c r) (takesLeft : Typing.Takes .boolean l)
    (takesRight : Typing.Takes .boolean r) :
    Safe (Fits slots slot ids scope.frames) (evalLogic k op decisive left right slot)
      (fun v s => Holds .boolean v ∧ Fits slots slot ids scope.frames s) := by
  refine safe_bind (evaluates left scope none c l slots slot ids (by omega) leftSimple bare leftGives) fun v => ?_
  refine safe_given fun holdsLeft => safe_bind (logicOperand_safe takesLeft holdsLeft left) fun b => ?_
  split
  · exact safe_pure fun s ready => ⟨trivial, ready⟩
  · refine safe_bind (evaluates right scope none c r slots slot ids (by omega) rightSimple bare rightGives) fun v => ?_
    refine safe_given fun holdsRight => safe_bind (logicOperand_safe takesRight holdsRight right) fun b => ?_
    exact safe_pure fun s ready => ⟨trivial, ready⟩

/-- One step of evaluation is safe if the nested steps are. -/
theorem eval_safe {k : Evaluator} {size : Nat} (evaluates : EvaluatesSafely k size) {e : Expr}
    (small : e.size ≤ size + 1) (simple : e.isFirstOrder = true) {expected : Option Ty} {c : Typing.Context}
    (bare : c.registry = []) {t : Ty} (gives : Typing.Gives (Typing.infer scope expected e) c t) :
    Safe (Fits slots slot ids scope.frames) (eval k e slot)
      (fun v s => Holds t v ∧ Fits slots slot ids scope.frames s) := by
  cases e with
  | name id =>
    obtain ⟨b, known, rfl⟩ := Typing.gives_infer_name bare gives
    refine safe_bind (binding?_safe known) fun found => safe_given fun isFound => ?_
    obtain ⟨v, rfl, holds⟩ := isFound
    exact safe_pure fun s ready => ⟨holds, ready⟩
  | number m digits =>
    unfold Typing.infer at gives
    rw [Typing.gives_pure (Typing.gives_noting gives)]
    exact safe_pure fun s ready => ⟨trivial, ready⟩
  | string q =>
    unfold Typing.infer at gives
    rw [Typing.gives_pure (Typing.gives_noting gives)]
    exact safe_pure fun s ready => ⟨trivial, ready⟩
  | boolean m b =>
    unfold Typing.infer at gives
    rw [Typing.gives_pure (Typing.gives_noting gives)]
    exact safe_pure fun s ready => ⟨trivial, ready⟩
  | null m =>
    unfold Typing.infer at gives
    rw [Typing.gives_pure (Typing.gives_noting gives)]
    exact safe_pure fun s ready => ⟨trivial, ready⟩
  | unary m op operand =>
    obtain ⟨t', inner, takes, rfl⟩ := Typing.gives_infer_unary gives
    simp only [Expr.size] at small
    simp only [Expr.isFirstOrder] at simple
    refine safe_bind (evaluates operand scope none c t' slots slot ids (by omega) simple bare inner) fun v => ?_
    exact safe_given fun holds => applyUnary_safe takes holds m.span
  | binary m op left right =>
    obtain ⟨l, r, leftGives, rightGives, operates⟩ := Typing.gives_infer_binary gives
    simp only [Expr.size] at small
    simp only [Expr.isFirstOrder, Bool.and_eq_true] at simple
    obtain ⟨leftSimple, rightSimple⟩ := simple
    by_cases logical : op ∈ [BinaryOp.and, BinaryOp.or]
    · cases operates with
      | connects _ takesLeft takesRight =>
        simp only [List.mem_cons, List.not_mem_nil, or_false] at logical
        rcases logical with rfl | rfl
        · exact evalLogic_safe evaluates false (by omega) leftSimple rightSimple bare leftGives rightGives takesLeft
            takesRight
        · exact evalLogic_safe evaluates true (by omega) leftSimple rightSimple bare leftGives rightGives takesLeft
            takesRight
      | joins text => simp at logical
      | computes numeric => revert logical numeric; cases op <;> simp
      | compares order => revert logical order; cases op <;> simp
      | equates equality => revert logical equality; cases op <;> simp
    · have both : Safe (Fits slots slot ids scope.frames) (do
          let l ← k.eval left slot
          let r ← k.eval right slot
          applyBinary op l r m.span) (fun v s => Holds t v ∧ Fits slots slot ids scope.frames s) := by
        refine safe_bind (evaluates left scope none c l slots slot ids (by omega) leftSimple bare leftGives) fun v => ?_
        refine safe_given fun holdsLeft => ?_
        refine safe_bind (evaluates right scope none c r slots slot ids (by omega) rightSimple bare rightGives) fun v => ?_
        exact safe_given fun holdsRight => applyBinary_safe operates logical holdsLeft holdsRight m.span
      cases op <;> first
        | exact both
        | simp at logical
  | assign m target value =>
    cases target with
    | name id =>
      obtain ⟨b, got, known, inner, takes, rfl⟩ := Typing.gives_infer_assign gives
      simp only [Expr.size] at small
      simp only [Expr.isFirstOrder] at simple
      refine safe_bind (evaluates value scope _ c got slots slot ids (by omega) simple bare inner) fun v => ?_
      -- the variable has had a value, so its type is not unknown
      refine safe_given fun holds => safe_using (b.type.isVar = false) ?_ fun typed => ?_
      · intro s fits
        obtain ⟨-, -, -, old, -, -, -, holdsOld⟩ := fits_find fits known
        exact Typing.isVar_of_holds holdsOld
      · have fitting := Typing.holds_of_takes takes typed holds
        refine safe_bind (assign_safe known fitting) fun done => safe_given fun isDone => ?_
        subst isDone
        exact safe_pure fun s ready => ⟨fitting, ready⟩
    | _ => simp [Expr.isFirstOrder] at simple
  | _ => simp [Expr.isFirstOrder] at simple

/-! ## Statements -/

/-- What holds once a statement has ended: code that goes on fits the variables known after it, and a
value that is returned is primitive. -/
def Ended (slots : Array Nat) (slot : ScopeId) (ids : List Nat) (frames : List (List Typing.Binding)) :
    Outcome → State → Prop
  | .normal, s => Fits slots slot ids frames s
  | .returned v, _ => v = .void ∨ v.isPrimitive = true

/-- What an evaluator promises for the statements up to a size. -/
def ExecutesSafely (k : Evaluator) (size : Nat) : Prop :=
  ∀ (st : Stmt) (scope after : Typing.Scope) (c : Typing.Context) (slots : Array Nat) (slot : ScopeId) (ids : List Nat),
    st.size ≤ size → st.isFirstOrder = true → c.registry = [] → c.typeParams = [] →
    Typing.Gives (Typing.check scope st) c after →
    Safe (Fits slots slot ids scope.frames) (k.exec st slot) (Ended slots slot ids after.frames)

theorem execAll_safe {k : Evaluator} {size : Nat} (executes : ExecutesSafely k size) {statements : List Stmt}
    {scope after : Typing.Scope} (small : Stmt.sizeAll statements ≤ size) (simple : Stmt.areFirstOrder statements = true)
    {c : Typing.Context} (bare : c.registry = []) (closed : c.typeParams = [])
    (gives : Typing.Gives (Typing.checkAll scope statements) c after) :
    Safe (Fits slots slot ids scope.frames) (execAll k slot statements) (Ended slots slot ids after.frames) := by
  induction statements generalizing scope with
  | nil =>
    unfold Typing.checkAll at gives
    have same := Typing.gives_pure gives
    subst same
    exact safe_pure fun s ready => ready
  | cons st statements ih =>
    obtain ⟨between, first, rest⟩ := Typing.gives_checkAll gives
    simp only [Stmt.sizeAll] at small
    simp only [Stmt.areFirstOrder, Bool.and_eq_true] at simple
    refine safe_bind (executes st scope between c slots slot ids (by omega) simple.1 bare closed first) fun outcome => ?_
    cases outcome with
    | returned v => exact safe_pure fun s ready => ready
    | normal => exact ih (by omega) simple.2 rest

theorem execBlock_run {s : State} {id : Nat} (captured : s.env.capture? slot = some id) (k : Evaluator) (b : Block)
    (w : World) :
    execBlock k b slot w s =
      let ran := execAll k s.env.height b.statements w { s with env := (s.env.pushFrame id).2 }
      (ran.1, { ran.2 with env := ran.2.env.release s.env.height }) := by
  have opened : (do let inner ← openScope slot; execAll k inner b.statements : Run Outcome) w s =
      execAll k s.env.height b.statements w { s with env := (s.env.pushFrame id).2 } := by
    unfold openScope
    rw [bind_run, bind_run, frameOf_run captured]
    rfl
  show restoring (do let inner ← openScope slot; execAll k inner b.statements)
    (fun s' => { s' with env := s'.env.release s.env.height }) w s = _
  unfold restoring
  rw [opened]
  rfl

/-- The statements of a block run in a new frame. When they have ended, its variables are gone and the
others are as typing knows them. -/
theorem execBlock_safe {k : Evaluator} {size : Nat} (executes : ExecutesSafely k size) {b : Block}
    (small : b.size ≤ size) (simple : b.isFirstOrder = true) {c : Typing.Context} (bare : c.registry = [])
    (closed : c.typeParams = []) (gives : Typing.Gives (Typing.checkBlock scope b) c ()) :
    Safe (Fits slots slot ids scope.frames) (execBlock k b slot) (Ended slots slot ids scope.frames) := by
  intro w s fits
  obtain ⟨m, statements⟩ := b
  simp only [Block.size] at small
  simp only [Block.isFirstOrder] at simple
  obtain ⟨inner, all⟩ := Typing.gives_checkBlock gives
  have entered : (scope.enter []).frames = [] :: scope.frames := rfl
  obtain ⟨frame, shape⟩ := Typing.checkAll_outer simple bare closed all entered
  obtain ⟨id, outer, rfl, held⟩ := fits.inner
  have captured : s.env.capture? slot = some id := by rw [Environment.capture?, fits.live, held]
  rw [execBlock_run captured]
  have opened : Fits (slots.push s.env.frames.size) s.env.height (s.env.frames.size :: id :: outer)
      (scope.enter []).frames { s with env := (s.env.pushFrame id).2 } := by
    refine ⟨?_, ⟨_, _, rfl, ?_⟩, agrees_open fits.agrees, fits.unlimited⟩
    · rw [← fits.live]
      rfl
    · rw [Environment.height, fits.live]
      exact Array.getElem?_push_size
  rcases execAll_safe executes (by omega) simple bare closed all w _ opened with
    ⟨outcome, s', ran, ended⟩ | ⟨stop, s', ran, division⟩
  · refine .inl ⟨outcome, { s' with env := s'.env.release s.env.height }, by rw [ran], ?_⟩
    cases outcome with
    | returned v => exact ended
    | normal =>
      have innerFits : Fits (slots.push s.env.frames.size) s.env.height (s.env.frames.size :: id :: outer)
        inner.frames s' := ended
      refine ⟨?_, ⟨id, outer, rfl, held⟩, ?_, innerFits.unlimited⟩
      · have positive : 0 < slots.size := Nat.zero_lt_of_lt (Array.getElem?_eq_some_iff.mp held).1
        have least : max s.env.height 1 = slots.size := by rw [Environment.height, fits.live]; omega
        simp [Environment.release, innerFits.live, least]
      · have agrees := innerFits.agrees
        rw [shape] at agrees
        exact agrees.2.2
  · exact .inr ⟨stop, _, by rw [ran], division⟩

theorem execArms_safe {k : Evaluator} {size : Nat} (evaluates : EvaluatesSafely k size)
    (executes : ExecutesSafely k size) (subject : Value) {t : Ty} {arms : List Arm} (small : Arm.sizeAll arms ≤ size)
    (simple : Arm.areFirstOrder arms = true) {c : Typing.Context} (bare : c.registry = []) (closed : c.typeParams = [])
    (gives : Typing.Gives (Typing.checkArms scope t arms) c ()) :
    Safe (Fits slots slot ids scope.frames) (execArms k subject slot arms)
      (fun outcome? s => Ended slots slot ids scope.frames (outcome?.getD .normal) s) := by
  induction arms with
  | nil => exact safe_pure fun s ready => ready
  | cons arm arms ih =>
    obtain ⟨⟨t', valueGives⟩, bodyGives, rest⟩ := Typing.gives_checkArms gives
    obtain ⟨m, value, body⟩ := arm
    simp only [Arm.sizeAll] at small
    simp only [Arm.areFirstOrder, Bool.and_eq_true] at simple
    obtain ⟨⟨valueSimple, bodySimple⟩, restSimple⟩ := simple
    refine safe_bind (evaluates value scope _ c t' slots slot ids (by omega) valueSimple bare valueGives) fun v => ?_
    refine safe_given fun _ => safe_bind safe_heap fun h => ?_
    split
    · refine safe_bind (execBlock_safe (b := body) executes (by omega) bodySimple bare closed bodyGives) fun outcome => ?_
      exact safe_pure fun s ready => ready
    · exact ih (by omega) restSimple rest

theorem evalCondition_safe {k : Evaluator} {size : Nat} (evaluates : EvaluatesSafely k size) {e : Expr}
    (small : e.size ≤ size) (simple : e.isFirstOrder = true) {c : Typing.Context} (bare : c.registry = []) {t : Ty}
    {expected : Option Ty} (gives : Typing.Gives (Typing.infer scope expected e) c t)
    (takes : Typing.Takes .boolean t) :
    Safe (Fits slots slot ids scope.frames) (evalCondition k e slot) (fun _ => Fits slots slot ids scope.frames) := by
  refine safe_bind (evaluates e scope expected c t slots slot ids small simple bare gives) fun v => ?_
  refine safe_given fun holds => ?_
  obtain ⟨b, rfl⟩ := holds_boolean (Typing.holds_of_takes takes rfl holds)
  exact safe_pure fun s ready => ready

section Statements

variable {k : Evaluator} {size : Nat} (evaluates : EvaluatesSafely k size) (executes : ExecutesSafely k size)
  {c : Typing.Context} (bare : c.registry = []) (closed : c.typeParams = []) {after : Typing.Scope} {m : Mark}
include evaluates bare

include closed in
/-- A binding holds what its type says from then on. -/
theorem binds_safe {name : Name} {type : Option TypeExpr} {value : Option Expr}
    (small : (.binds m name type value : Stmt).size ≤ size + 1)
    (simple : (.binds m name type value : Stmt).isFirstOrder = true)
    (gives : Typing.Gives (Typing.check scope (.binds m name type value)) c after) :
    Safe (Fits slots slot ids scope.frames) (exec k (.binds m name type value) slot)
      (Ended slots slot ids after.frames) := by
  refine safe_bind (checkCancelled_safe _) fun _ => ?_
  cases value with
  | none => cases type <;> simp [Stmt.isFirstOrder] at simple
  | some e =>
    have parts : e.isFirstOrder = true ∧ ∀ written ∈ type, written.isFirstOrder = true := by
      cases type with
      | none => exact ⟨simple, by simp⟩
      | some type =>
        simp only [Stmt.isFirstOrder, Bool.and_eq_true] at simple
        refine ⟨simple.2, ?_⟩
        intro written member
        cases member
        exact simple.1
    obtain ⟨got, bound, wanted, inner, rfl, keeps⟩ := Typing.gives_check_binds bare closed parts.2 gives
    simp only [Stmt.size] at small
    refine safe_bind (evaluates e _ wanted c got slots slot ids (by omega) parts.1 bare inner) fun v => ?_
    refine safe_given fun holds => ?_
    have defined : Safe (Fits slots slot ids scope.frames) (define slot name.text (coerce type v))
        (fun _ => Fits slots slot ids (scope.define ⟨name.text, bound, false⟩).frames) :=
      define_safe (b := ⟨name.text, bound, false⟩) (keeps v holds)
    rw [pure_bind]
    exact safe_bind defined fun _ => safe_pure fun s ready => ready

include executes closed in
/-- An alternative binds nothing in the scope around it, so both ways end in the same scope. -/
theorem branch_safe {condition : Expr} {yes : Block} {no : Option Stmt}
    (small : (.branch m condition yes no : Stmt).size ≤ size + 1)
    (simple : (.branch m condition yes no : Stmt).isFirstOrder = true)
    (gives : Typing.Gives (Typing.check scope (.branch m condition yes no)) c after) :
    Safe (Fits slots slot ids scope.frames) (exec k (.branch m condition yes no) slot)
      (Ended slots slot ids after.frames) := by
  refine safe_bind (checkCancelled_safe _) fun _ => ?_
  obtain ⟨rfl, ⟨t, conditionGives, takes⟩, yesGives, noGives⟩ := Typing.gives_check_branch gives
  have parts : condition.isFirstOrder = true ∧ yes.isFirstOrder = true ∧ condition.size + yes.size ≤ size ∧
      ∀ s ∈ no, s.isAlternative = true ∧ s.isFirstOrder = true ∧ s.size ≤ size := by
    cases no with
    | none =>
      simp only [Stmt.isFirstOrder, Bool.and_eq_true] at simple
      simp only [Stmt.size] at small
      exact ⟨simple.1, simple.2, by omega, by simp⟩
    | some s =>
      simp only [Stmt.isFirstOrder, Bool.and_eq_true] at simple
      simp only [Stmt.size] at small
      refine ⟨simple.1.1.1, simple.1.1.2, by omega, ?_⟩
      intro s' member
      cases member
      exact ⟨simple.1.2, simple.2, by omega⟩
  obtain ⟨conditionSimple, yesSimple, smaller, alternative⟩ := parts
  refine safe_bind (evalCondition_safe evaluates (by omega) conditionSimple bare conditionGives takes) fun b => ?_
  cases b with
  | true => exact execBlock_safe executes (by omega) yesSimple bare closed yesGives
  | false =>
    cases no with
    | none => exact safe_pure fun s ready => ready
    | some s =>
      obtain ⟨isAlternative, noSimple, noSmall⟩ := alternative s rfl
      obtain ⟨inner, innerGives⟩ := noGives s rfl
      have unchanged : inner = after := by
        cases s with
        | block b => exact (Typing.gives_check_block innerGives).1
        | branch m condition yes no => exact (Typing.gives_check_branch innerGives).1
        | _ => simp [Stmt.isAlternative] at isAlternative
      subst unchanged
      exact executes s _ _ c slots slot ids noSmall noSimple bare closed innerGives

include executes closed in
/-- An arm is executed as a block, and so is what stands for the arms if none fits. -/
theorem select_safe {subject : Expr} {arms : List Arm} {fallback : Option Block}
    (small : (.select m subject arms fallback : Stmt).size ≤ size + 1)
    (simple : (.select m subject arms fallback : Stmt).isFirstOrder = true)
    (gives : Typing.Gives (Typing.check scope (.select m subject arms fallback)) c after) :
    Safe (Fits slots slot ids scope.frames) (exec k (.select m subject arms fallback) slot)
      (Ended slots slot ids after.frames) := by
  refine safe_bind (checkCancelled_safe _) fun _ => ?_
  obtain ⟨rfl, ⟨t, subjectGives, armsGive⟩, fallbackGives⟩ := Typing.gives_check_select gives
  have parts : subject.isFirstOrder = true ∧ Arm.areFirstOrder arms = true ∧
      subject.size + Arm.sizeAll arms ≤ size ∧ ∀ b ∈ fallback, b.isFirstOrder = true ∧ b.size ≤ size := by
    cases fallback with
    | none =>
      simp only [Stmt.isFirstOrder, Bool.and_eq_true] at simple
      simp only [Stmt.size] at small
      exact ⟨simple.1, simple.2, by omega, by simp⟩
    | some b =>
      simp only [Stmt.isFirstOrder, Bool.and_eq_true] at simple
      simp only [Stmt.size] at small
      refine ⟨simple.1.1, simple.1.2, by omega, ?_⟩
      intro b' member
      cases member
      exact ⟨simple.2, by omega⟩
  obtain ⟨subjectSimple, armsSimple, smaller, otherwise⟩ := parts
  refine safe_bind (evaluates subject _ none c t slots slot ids (by omega) subjectSimple bare subjectGives) fun v => ?_
  refine safe_given fun _ => ?_
  refine safe_bind (execArms_safe evaluates executes v (by omega) armsSimple bare closed armsGive) fun outcome? => ?_
  cases outcome? with
  | some outcome => exact safe_pure fun s ready => ready
  | none =>
    cases fallback with
    | none => exact safe_pure fun s ready => ready
    | some b =>
      obtain ⟨fallbackSimple, fallbackSmall⟩ := otherwise b rfl
      exact execBlock_safe executes fallbackSmall fallbackSimple bare closed (fallbackGives b rfl)

end Statements

/-- One step of execution is safe if the nested steps are. -/
theorem exec_safe {k : Evaluator} {size : Nat} (evaluates : EvaluatesSafely k size) (executes : ExecutesSafely k size)
    {st : Stmt} (small : st.size ≤ size + 1) (simple : st.isFirstOrder = true) {c : Typing.Context}
    (bare : c.registry = []) (closed : c.typeParams = []) {after : Typing.Scope}
    (gives : Typing.Gives (Typing.check scope st) c after) :
    Safe (Fits slots slot ids scope.frames) (exec k st slot) (Ended slots slot ids after.frames) := by
  cases st with
  | does m e =>
    obtain ⟨rfl, t, inner⟩ := Typing.gives_check_does gives
    simp only [Stmt.size] at small
    refine safe_bind (checkCancelled_safe _) fun _ => ?_
    refine safe_bind (evaluates e _ none c t slots slot ids (by omega) simple bare inner) fun v => ?_
    exact safe_given fun _ => safe_pure fun s ready => ready
  | binds m name type value => exact binds_safe evaluates bare closed small simple gives
  | block b =>
    obtain ⟨rfl, inner⟩ := Typing.gives_check_block gives
    simp only [Stmt.size] at small
    simp only [Stmt.isFirstOrder] at simple
    exact safe_bind (checkCancelled_safe _) fun _ => execBlock_safe executes (by omega) simple bare closed inner
  | branch m condition yes no => exact branch_safe evaluates executes bare closed small simple gives
  | select m subject arms fallback => exact select_safe evaluates executes bare closed small simple gives
  | returns m value =>
    obtain ⟨rfl, valueGives⟩ := Typing.gives_check_returns gives
    refine safe_bind (checkCancelled_safe _) fun _ => ?_
    cases value with
    | none => exact safe_pure fun s ready => .inl rfl
    | some e =>
      obtain ⟨want, t, inner⟩ := valueGives e rfl
      simp only [Stmt.size] at small
      refine safe_bind (evaluates e _ want c t slots slot ids (by omega) simple bare inner) fun v => ?_
      exact safe_given fun holds => safe_pure fun s ready => .inr (isPrimitive_of_holds holds)
  | each m item iterable body => simp [Stmt.isFirstOrder] at simple
  | declares d => simp [Stmt.isFirstOrder] at simple
  | uses m names path => simp [Stmt.isFirstOrder] at simple

/-! ## Whole programs -/

/-- Evaluation with enough nested steps for the size of what is evaluated is safe. -/
theorem evaluator_safe (size : Nat) :
    EvaluatesSafely (evaluator size) size ∧ ExecutesSafely (evaluator size) size := by
  induction size with
  | zero =>
    constructor
    · intro e _ _ _ _ _ _ _ small
      exact absurd e.size_pos (by omega)
    · intro st _ _ _ _ _ _ small
      exact absurd st.size_pos (by omega)
  | succ size ih =>
    obtain ⟨evaluates, executes⟩ := ih
    constructor
    · intro e scope expected c t slots slot ids small simple bare gives
      exact eval_safe evaluates small simple bare gives
    · intro st scope after c slots slot ids small simple bare closed gives
      exact exec_safe evaluates executes small simple bare closed gives

/-- Top-level statements run safely in the global scope. -/
theorem runAll_safe {k : Evaluator} {size : Nat} (executes : ExecutesSafely k size) {actions : List Placed}
    (fitting : ∀ a ∈ actions, a.statement.isFirstOrder = true ∧ a.statement.size ≤ size) {c : Typing.Context}
    (bare : c.registry = []) (closed : c.typeParams = []) {scope after : Typing.Scope}
    (gives : Typing.Gives (actions.foldlM (fun scope a => Typing.inFile a.file (Typing.check scope a.statement)) scope)
      c after) :
    Safe (Fits slots Environment.global ids scope.frames) (runAll k actions)
      (fun v _ => v = .void ∨ v.isPrimitive = true) := by
  induction actions generalizing scope with
  | nil => exact safe_pure fun s ready => .inl rfl
  | cons a actions ih =>
    rw [List.foldlM_cons] at gives
    obtain ⟨between, first, rest⟩ := Typing.gives_bind gives
    obtain ⟨simple, small⟩ := fitting a (by simp)
    have placed : Safe (Fits slots Environment.global ids scope.frames)
        (modify fun s => { s with file := a.file } : Run PUnit) (fun _ => Fits slots Environment.global ids scope.frames) :=
      fun w s fits => .inl ⟨(), { s with file := a.file }, rfl, fits.live, fits.inner, fits.agrees, fits.unlimited⟩
    refine safe_bind placed fun _ => ?_
    refine safe_bind (executes a.statement scope between { c with file := a.file } slots Environment.global ids small
      simple bare closed first) fun outcome => ?_
    cases outcome with
    | returned v => exact safe_pure fun s ready => ready
    | normal => exact ih (fun b member => fitting b (by simp [member])) rest

end Evaluation

open Evaluation Typing

private theorem declarations_firstOrder {p : LinkedProgram} (simple : p.isFirstOrder = true) : p.declarations = [] := by
  rw [LinkedProgram.declarations, List.filterMap_eq_nil_iff]
  intro placed member
  have first := List.all_eq_true.mp simple placed member
  cases st : placed.statement with
  | declares d => simp [st, Stmt.isFirstOrder] at first
  | _ => rfl

/-- Checking an accepted first-order program types its statements without any declarations. -/
theorem gives_actions {p : LinkedProgram} {checked : Checked} (simple : p.isFirstOrder = true)
    (accepted : p.check = .ok checked) :
    ∃ c after, c.registry = [] ∧ c.typeParams = [] ∧
      Gives (p.actions.foldlM (fun scope a => inFile a.file (check scope a.statement)) .global) c after := by
  unfold LinkedProgram.check at accepted
  split at accepted
  · cases accepted
  · next registry progress ran =>
    have whole : Gives (checkProgram p) ⟨[], p.file, [], .void⟩ registry := ⟨_, _, ran⟩
    have none : declare p = pure [] := by
      unfold declare
      rw [declarations_firstOrder simple]
      rfl
    unfold checkProgram at whole
    rw [none, pure_bind] at whole
    obtain ⟨_, inner, -⟩ := gives_bind whole
    have known : Gives (do
        let globals ← checkActions p
        (List.filter (·.nominal.isInterface) ([] : Registry)).forM (checkDecl globals)
        (List.filter (fun d => !d.nominal.isInterface) ([] : Registry)).forM (checkDecl globals))
        ⟨[], p.file, [], .void⟩ _ := inner
    obtain ⟨after, actions, -⟩ := gives_bind known
    obtain ⟨result, -, actions⟩ := gives_bind actions
    exact ⟨⟨[], p.file, [], result⟩, after, rfl, rfl, actions⟩

/-- An accepted program without declarations, calls and iteration ends with a value or divides by zero:
no name is undefined, no operator is applied to wrong operands, and every condition is a truth value. -/
theorem accepted_program_does_not_go_wrong (p : LinkedProgram) (i : Interpreter) (checked : Checked)
    (simple : p.isFirstOrder = true) (accepted : p.check = .ok checked) (unwatched : i.limit = none)
    (unlimited : i.state.allowance = none) :
    (∃ v, (i.run p).1 = .ok v ∧ (v = .void ∨ v.isPrimitive = true)) ∨
      ∃ d, (i.run p).1 = .error (.failed d) ∧ d.kind = .execution ∧ d.code = "R001" ∧
        d.message = "division by zero" := by
  obtain ⟨c, after, bare, closed, gives⟩ := gives_actions simple accepted
  have fitting : ∀ a ∈ p.actions, a.statement.isFirstOrder = true ∧ a.statement.size ≤ maxSteps p := by
    intro a member
    have inProgram : a ∈ p.statements := (List.mem_filter.mp member).1
    have smaller : a.statement.size ≤ p.size := Stmt.size_le_sizeAll (List.mem_map_of_mem inProgram)
    exact ⟨List.all_eq_true.mp simple a inProgram, by unfold maxSteps; omega⟩
  have started : Fits #[0] Environment.global [0] Scope.global.frames (i.load p).state := by
    refine ⟨rfl, ⟨0, [], rfl, rfl⟩, ⟨⟨⟨[], none⟩, rfl, rfl, matches_nil none⟩, by simp, trivial⟩, unlimited⟩
  have safe := runAll_safe (evaluator_safe (maxSteps p)).2 fitting bare closed gives (.ofProgram p i.clock) _ started
  have ran : (i.run p).1 =
      ((runAll (evaluator (maxSteps p)) p.actions (.ofProgram p i.clock) (i.load p).state).1).mapError
        (·.reported (runAll (evaluator (maxSteps p)) p.actions (.ofProgram p i.clock) (i.load p).state).2.file) := by
    have same : (i.load p).watch = i.load p := by
      have still : (i.load p).limit = none := unwatched
      unfold Interpreter.watch
      rw [still]
    unfold Interpreter.run
    rw [same]
    rfl
  rw [ran]
  rcases safe with ⟨v, s', ended, value⟩ | ⟨stop, s', ended, d, rfl, division⟩
  · rw [ended]
    exact .inl ⟨v, rfl, value⟩
  · rw [ended]
    exact .inr ⟨d, rfl, division⟩

/-- A variable that starts as null is given a number in a branch, and is compared in a selection. -/
def countingProgram : LinkedProgram :=
  let x : Name := ⟨"x", default⟩
  let assigned : Stmt := .does default (.assign default (.name x) (.number default "1"))
  let arm : Arm := ⟨default, .number default "1", ⟨default, [.returns default (some (.name x))]⟩⟩
  ⟨"", [
    ⟨"", .binds default x none (some (.null default))⟩,
    ⟨"", .branch default (.binary default .equal (.name x) (.null default)) ⟨default, [assigned]⟩ none⟩,
    ⟨"", .select default (.name x) [arm] none⟩], default⟩

theorem countingProgram_does_not_go_wrong :
    (∃ v, ((Interpreter.new 0 none).run countingProgram).1 = .ok v ∧ (v = .void ∨ v.isPrimitive = true)) ∨
      ∃ d, ((Interpreter.new 0 none).run countingProgram).1 = .error (.failed d) ∧ d.kind = .execution ∧
        d.code = "R001" ∧ d.message = "division by zero" :=
  accepted_program_does_not_go_wrong countingProgram (Interpreter.new 0 none) _ (by decide) rfl rfl rfl

end ClassScript
