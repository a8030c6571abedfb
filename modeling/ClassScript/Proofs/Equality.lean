import Mathlib
import ClassScript.Proofs.Samples
import ClassScript.Proofs.Steady

/-!
Equality of values. Numbers, strings and truth values are compared by what they are, objects by themselves or by the
host thing behind them, and all other values by themselves. So equality is an equivalence but for the number that is
none, and a variable that holds any other value equals itself (`equality_is_an_equivalence`). A class does not equal
itself: each use of its name makes a new value (`class_differs_from_itself`).
-/

namespace ClassScript

namespace Value

/-- Whether a value is the number that is none. -/
def isNaN : Value → Bool
  | number x => x.isNaN
  | _ => false

/-- Whether no other value can be equal to a value. -/
def isUnique : Value → Bool
  | number _ | object _ | classRef .. => false
  | _ => true

end Value

namespace Heap

variable {h : Heap} {u v w : Value}

theorem equal_iff_eq (unique : v.isUnique = true) : h.equal v w = true ↔ w = v := by
  cases v <;> cases unique <;> cases w <;> grind [equal]

theorem equal_number_iff {x : Float} : h.equal (.number x) v = true ↔ ∃ y, v = .number y ∧ (x == y) = true := by
  cases v <;> simp [equal]

theorem equal_object_iff {a : Nat} : h.equal (.object a) v = true ↔
    ∃ b, v = .object b ∧ (a = b ∨ ∃ x, (h.object a).host = some x ∧ (h.object b).host = some x) := by
  cases v with
  | object b =>
    simp only [equal, Bool.or_eq_true, beq_iff_eq, Value.object.injEq, exists_eq_left']
    refine or_congr_right ?_
    cases (h.object a).host <;> cases (h.object b).host <;> simp
    exact eq_comm
  | _ => simp [equal]

theorem equal_classRef_iff {c id : Nat} : h.equal (.classRef c id) v = true ↔ ∃ d, v = .classRef d id := by
  cases v <;> grind [equal]

theorem equal_self_iff : h.equal v v = true ↔ v.isNaN = false := by
  cases v with
  | number x => simp [equal, Value.isNaN]
  | object a => exact iff_of_true (equal_object_iff.2 ⟨a, rfl, .inl rfl⟩) rfl
  | classRef c id => exact iff_of_true (equal_classRef_iff.2 ⟨c, rfl⟩) rfl
  | _ => exact iff_of_true ((equal_iff_eq rfl).2 rfl) rfl

theorem equal_symm (same : h.equal v w = true) : h.equal w v = true := by
  cases v with
  | number x =>
    obtain ⟨y, rfl, same⟩ := equal_number_iff.1 same
    exact equal_number_iff.2 ⟨x, rfl, BEq.symm same⟩
  | object a =>
    obtain ⟨b, rfl, alike⟩ := equal_object_iff.1 same
    exact equal_object_iff.2 ⟨a, rfl, alike.imp Eq.symm fun ⟨x, left, right⟩ => ⟨x, right, left⟩⟩
  | classRef c id =>
    obtain ⟨d, rfl⟩ := equal_classRef_iff.1 same
    exact equal_classRef_iff.2 ⟨c, rfl⟩
  | _ =>
    obtain rfl := (equal_iff_eq rfl).1 same
    exact same

theorem equal_trans (first : h.equal u v = true) (second : h.equal v w = true) : h.equal u w = true := by
  cases u with
  | number x =>
    obtain ⟨y, rfl, same⟩ := equal_number_iff.1 first
    obtain ⟨z, rfl, same'⟩ := equal_number_iff.1 second
    exact equal_number_iff.2 ⟨z, rfl, BEq.trans same same'⟩
  | object a =>
    obtain ⟨b, rfl, same⟩ := equal_object_iff.1 first
    obtain ⟨c, rfl, same'⟩ := equal_object_iff.1 second
    refine equal_object_iff.2 ⟨c, rfl, ?_⟩
    rcases same with rfl | ⟨x, left, middle⟩
    · exact same'
    · rcases same' with rfl | ⟨y, middle', right⟩
      · exact .inr ⟨x, left, middle⟩
      · cases middle.symm.trans middle'
        exact .inr ⟨x, left, right⟩
  | classRef c id =>
    obtain ⟨d, rfl⟩ := equal_classRef_iff.1 first
    obtain ⟨e, rfl⟩ := equal_classRef_iff.1 second
    exact equal_classRef_iff.2 ⟨e, rfl⟩
  | _ =>
    obtain rfl := (equal_iff_eq rfl).1 first
    exact second

end Heap

namespace Evaluation

variable {w : World} {s : State} {scope : ScopeId} {id : Name} {v : Value}

/-! ## Variables -/

theorem binding?_of_get? {name : String} (bound : s.env.get? scope name = some v) (w : World) :
    binding? scope name w s = (.ok (some v), s) := by
  obtain ⟨found, seen, rfl⟩ := Option.map_eq_some_iff.1 bound
  obtain ⟨frame, held, seen⟩ := Option.bind_eq_some_iff.1 seen
  rw [binding?, bind_run, frameOf_eq, held]
  show ((.ok ((s.env.seenFrom frame name).map (·.2)) : Except Stop (Option Value)), s) = _
  rw [seen]
  rfl

/-- A variable gives the value that it holds, and stays as it is. -/
theorem evalWithin_variable (bound : s.env.get? scope id.text = some v) (w : World) (n : Nat) :
    evalWithin (n + 1) (.name id) scope w s = (.ok v, s) := by
  show evalName _ id scope w s = _
  rw [evalName, bind_run, binding?_of_get? bound]
  rfl

theorem applyBinary_equal (left right : Value) (span : Span) (w : World) (s : State) :
    applyBinary .equal left right span w s = (.ok (.boolean (s.heap.equal left right)), s) := rfl

theorem evalWithin_equal {left right : Name} {v' : Value} (first : s.env.get? scope left.text = some v)
    (second : s.env.get? scope right.text = some v') (m : Mark) (w : World) (n : Nat) :
    evalWithin (n + 2) (.binary m .equal (.name left) (.name right)) scope w s =
      (.ok (.boolean (s.heap.equal v v')), s) := by
  show (evalWithin (n + 1) (.name left) scope >>= fun l =>
    evalWithin (n + 1) (.name right) scope >>= fun r => applyBinary .equal l r m.span) w s = _
  rw [bind_run, evalWithin_variable first]
  dsimp only
  rw [bind_run, evalWithin_variable second]
  exact applyBinary_equal v v' m.span w s

/-! ## Selections -/

/-- The first arm is executed if it equals the subject. -/
theorem execArms_equal {k : Evaluator} {subject : Value} {a : Arm} {arms : List Arm}
    (evaluated : k.eval a.value scope w s = (.ok v, s)) (same : s.heap.equal subject v = true) :
    execArms k subject scope (a :: arms) w s =
      (execBlock k a.body scope >>= fun outcome => pure (some outcome)) w s := by
  rw [execArms, bind_run, evaluated]
  show (if s.heap.equal subject v then _ else _ : Run (Option Outcome)) w s = _
  rw [if_pos same]

/-- A statement starts by asking whether the run is cancelled, which leaves variables and values alone. -/
theorem checkCancelled_bind {α : Type} {f g : Unit → Run α} (span : Span)
    (same : ∀ t : State, t.env = s.env → t.heap = s.heap → f () w t = g () w t) :
    (checkCancelled span >>= f) w s = (checkCancelled span >>= g) w s := by
  rw [bind_run, bind_run, checkCancelled_eq]
  rcases s.allowance with _ | _ | left
  · exact same _ rfl rfl
  · rfl
  · exact same _ rfl rfl

theorem execWithin_select_variable {left right : Name} {v' : Value} (first : s.env.get? scope left.text = some v)
    (second : s.env.get? scope right.text = some v') (same : s.heap.equal v v' = true) (m a : Mark) (body : Block)
    (arms : List Arm) (fallback : Option Block) (w : World) (n : Nat) :
    execWithin (n + 2) (.select m (.name left) (⟨a, .name right, body⟩ :: arms) fallback) scope w s =
      (checkCancelled m.span >>= fun _ => execBlock (evaluator (n + 1)) body scope) w s := by
  refine checkCancelled_bind m.span fun t env heap => ?_
  have first : t.env.get? scope left.text = some v := env ▸ first
  have second : evalWithin (n + 1) (.name right) scope w t = (.ok v', t) := evalWithin_variable (env ▸ second) w n
  show (evalWithin (n + 1) (.name left) scope >>= fun subject =>
    execArms (evaluator (n + 1)) subject scope (⟨a, .name right, body⟩ :: arms) >>= _) w t = _
  rw [bind_run, evalWithin_variable first]
  dsimp only
  rw [bind_run, execArms_equal second (heap ▸ same), bind_run]
  rcases execBlock (evaluator (n + 1)) body scope w t with ⟨stop | outcome, u⟩ <;> rfl

end Evaluation

open Evaluation Sample

/-- Equality is symmetric and transitive on all values, and reflexive on all but the number that is none. A variable
that holds any other value equals itself: the comparison is true, and a selection on the variable executes the arm of
the variable. -/
theorem equality_is_an_equivalence (h : Heap) (u v v' : Value) :
    h.equal u v = h.equal v u ∧ (h.equal u v = true → h.equal v v' = true → h.equal u v' = true) ∧
      (h.equal v v = true ↔ v.isNaN = false) ∧
      ∀ (w : World) (s : State) (scope : ScopeId) (left right : Name), left.text = right.text →
        s.env.get? scope left.text = some v → v.isNaN = false → ∀ (n : Nat) (m : Mark),
          evalWithin (n + 2) (.binary m .equal (.name left) (.name right)) scope w s = (.ok (.boolean true), s) ∧
            ∀ (a : Mark) (body : Block) (arms : List Arm) (fallback : Option Block),
              execWithin (n + 2) (.select m (.name left) (⟨a, .name right, body⟩ :: arms) fallback) scope w s =
                (checkCancelled m.span >>= fun _ => execBlock (evaluator (n + 1)) body scope) w s := by
  refine ⟨Bool.eq_iff_iff.2 ⟨Heap.equal_symm, Heap.equal_symm⟩, Heap.equal_trans, Heap.equal_self_iff, ?_⟩
  intro w s scope left right same bound number n m
  have bound' : s.env.get? scope right.text = some v := same ▸ bound
  have reflexive : s.heap.equal v v = true := Heap.equal_self_iff.2 number
  refine ⟨?_, fun a body arms fallback => execWithin_select_variable bound bound' reflexive m a body arms fallback w n⟩
  rw [evalWithin_equal bound bound', reflexive]

/-- A state with one variable `x`, which holds an object of the host. -/
def holdingState : State :=
  { (default : State) with
    env := ⟨#[⟨[("x", .object 0)], none⟩], #[0]⟩
    heap := { Heap.empty with objects := #[⟨0, [], some (.array 0)⟩] } }

theorem variable_equals_itself :
    evalWithin 2 (.binary default .equal (.name (named "x")) (.name (named "x"))) Environment.global default
      holdingState = (.ok (.boolean true), holdingState) :=
  ((equality_is_an_equivalence Heap.empty (.object 0) (.object 0) (.object 0)).2.2.2 default holdingState
    Environment.global (named "x") (named "x") rfl rfl rfl 0 default).1

/-- `class A { }`, `match (A) { A => { return null; } }`, `return A == A;` -/
def comparing : LinkedProgram :=
  let a : Expr := .name (named "A")
  .ofProgram ⟨"main.clasp",
    [.declares (cls "A" none [] []),
      .select default a [⟨default, a, ⟨default, [.returns default (some (.null default))]⟩⟩] none,
      .returns default (some (.binary default .equal a a))],
    default⟩

/-- The truth value that a run ends with. -/
def truth? (r : Except Stop Value × Interpreter) : Option Bool :=
  match r.1 with
  | .ok (.boolean b) => some b
  | _ => none

/-- The program is accepted, but the selection does not execute the arm, and the comparison is false. -/
theorem class_differs_from_itself :
    (∃ c, comparing.check = .ok c) ∧ truth? ((Interpreter.new 0 none).run comparing) = some false := by
  obtain ⟨c, accepted, -⟩ := exists_accepted (p := comparing) (P := fun _ => True) (by decide +kernel)
  exact ⟨⟨c, accepted⟩, by decide +kernel⟩

end ClassScript
