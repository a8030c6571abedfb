import ClassScript.Environment
import ClassScript.Typing.Scope
import ClassScript.Value.Storage

/-!
Variables as typing sees them and as they are at run time. The frames of a scope agree with a chain of
stored frames if both have the same variables, and each value is one of its variable's type
(`Agrees`). Agreement finds each variable in the same place on both sides (`agrees_find`) and is kept
by assignments, by definitions and by opening a scope.
-/

namespace ClassScript

/-- Whether a value is a number, a string, a truth value or null. -/
def Value.isPrimitive : Value → Bool
  | .null | .number _ | .string _ | .boolean _ => true
  | _ => false

/-- A primitive value belongs to a type. Nothing is known of the values of nullable types and of
`mixed`; variables stand for types without values, since they are accepted everywhere. -/
@[grind =]
def Holds : Ty → Value → Prop
  | .number, .number _ => True
  | .string, .string _ => True
  | .boolean, .boolean _ => True
  | .null, .null => True
  | .mixed, v => v.isPrimitive = true
  | .nullable _, v => v.isPrimitive = true
  | _, _ => False

theorem holds_number {v : Value} (holds : Holds .number v) : ∃ x, v = .number x := by
  cases v <;> simp [Holds] at holds ⊢

theorem holds_string {v : Value} (holds : Holds .string v) : ∃ s, v = .string s := by
  cases v <;> simp [Holds] at holds ⊢

theorem holds_boolean {v : Value} (holds : Holds .boolean v) : ∃ b, v = .boolean b := by
  cases v <;> simp [Holds] at holds ⊢

theorem isPrimitive_of_holds {t : Ty} {v : Value} (holds : Holds t v) : v.isPrimitive = true := by
  cases t with
  | mixed => exact holds
  | nullable t => exact holds
  | _ => cases v <;> simp [Holds, Value.isPrimitive] at holds ⊢

/-! ## Frames -/

open Typing (Binding Scope)

/-- A frame of typed variables and a stored frame have the same variables, with values of their types. -/
def Matches (frame : List Binding) (stored : Frame Value) : Prop :=
  ∀ name, Option.Rel (fun b v => Holds b.type v) (frame.find? fun b => b.name == name) (stored.find? name)

theorem matches_nil (parent : Option Nat) : Matches [] ⟨[], parent⟩ := fun _ => .none

theorem matches_define {frame : List Binding} {stored : Frame Value} (agrees : Matches frame stored) {b : Binding}
    {v : Value} (holds : Holds b.type v) : Matches (b :: frame) (stored.set b.name v) := by
  intro name
  rw [Frame.find?_set]
  by_cases same : name = b.name
  · subst same
    simpa using holds
  · have differs : (b.name == name) = false := by simpa using Ne.symm same
    simpa [differs, same] using agrees name

theorem matches_assign {frame : List Binding} {stored : Frame Value} (agrees : Matches frame stored) {name : String}
    {b : Binding} (found : frame.find? (fun b => b.name == name) = some b) {v : Value} (holds : Holds b.type v) :
    Matches frame (stored.set name v) := by
  intro other
  rw [Frame.find?_set]
  by_cases same : other = name
  · subst same
    rw [found]
    simpa using holds
  · simpa [same] using agrees other

/-! ## Chains of frames -/

/-- The frames of a scope agree with stored frames, which lead outwards to ever older ones. -/
def Agrees (store : Array (Frame Value)) : List (List Binding) → List Nat → Prop
  | [], [] => True
  | frame :: frames, id :: ids =>
    (∃ stored, store[id]? = some stored ∧ stored.parent = ids.head? ∧ Matches frame stored) ∧
      (∀ parent ∈ ids.head?, parent < id) ∧ Agrees store frames ids
  | _, _ => False

theorem agrees_older {store : Array (Frame Value)} {frames : List (List Binding)} {id : Nat} {ids : List Nat}
    (agrees : Agrees store frames (id :: ids)) : ∀ outer ∈ ids, outer < id := by
  induction ids generalizing id frames with
  | nil => simp
  | cons next ids ih =>
    cases frames with
    | nil => exact agrees.elim
    | cons frame frames =>
      obtain ⟨-, older, rest⟩ := agrees
      have nextLt : next < id := older next (by simp)
      intro outer member
      rcases List.mem_cons.mp member with same | later
      · exact same ▸ nextLt
      · exact Nat.lt_trans (ih rest outer later) nextLt

/-- Agreement looks at the frames of the chain only. -/
theorem agrees_congr {store store' : Array (Frame Value)} {frames : List (List Binding)} {ids : List Nat}
    (same : ∀ id ∈ ids, store'[id]? = store[id]?) (agrees : Agrees store frames ids) :
    Agrees store' frames ids := by
  induction ids generalizing frames with
  | nil =>
    cases frames with
    | nil => exact trivial
    | cons frame frames => exact agrees.elim
  | cons id ids ih =>
    cases frames with
    | nil => exact agrees.elim
    | cons frame frames =>
      obtain ⟨⟨stored, held, parent, matching⟩, older, rest⟩ := agrees
      refine ⟨⟨stored, ?_, parent, matching⟩, older, ih (fun other member => same other (by simp [member])) rest⟩
      rw [same id (by simp), held]

/-- A variable is found on both sides or on neither, in a frame of the chain and with a value of its
type. -/
theorem agrees_find {e : Environment Value} {frames : List (List Binding)} {id : Nat} {ids : List Nat}
    (agrees : Agrees e.frames frames (id :: ids)) (name : String) {fuel : Nat} (enough : id < fuel) :
    Option.Rel (fun b found => Holds b.type found.2 ∧ found.1 ∈ id :: ids)
      (frames.findSome? fun frame => frame.find? fun b => b.name == name) (e.findFrom name fuel id) := by
  induction frames generalizing id ids fuel with
  | nil => exact agrees.elim
  | cons frame frames ih =>
    obtain ⟨⟨stored, held, parent, matching⟩, older, rest⟩ := agrees
    obtain ⟨fuel, rfl⟩ : ∃ less, fuel = less + 1 := ⟨fuel - 1, by omega⟩
    have here := matching name
    simp only [Environment.findFrom, held, List.findSome?_cons]
    cases known : stored.find? name with
    | some v =>
      rw [known] at here
      cases typed : frame.find? fun b => b.name == name with
      | none => rw [typed] at here; cases here
      | some b =>
        rw [typed] at here
        cases here with
        | some holds => exact .some ⟨holds, by simp⟩
    | none =>
      rw [known] at here
      cases typed : frame.find? fun b => b.name == name with
      | some b => rw [typed] at here; cases here
      | none =>
        cases ids with
        | nil =>
          cases frames with
          | nil => simp [parent]
          | cons other frames => exact rest.elim
        | cons next ids =>
          have nextLt : next < id := older next (by simp)
          have enoughOutside : next < fuel := by omega
          have outside := ih rest enoughOutside
          simp only [parent, List.head?_cons]
          revert outside
          generalize (frames.findSome? fun frame => frame.find? fun b => b.name == name) = typedOutside
          generalize e.findFrom name fuel next = foundOutside
          intro outside
          cases outside with
          | none => exact .none
          | some both => exact .some ⟨both.1, List.mem_cons_of_mem id both.2⟩

private theorem getElem?_modify_ne {store : Array (Frame Value)} {id other : Nat} (f : Frame Value → Frame Value)
    (differs : other ≠ id) : (store.modify id f)[other]? = store[other]? := by
  rw [Array.getElem?_modify, if_neg (Ne.symm differs)]

/-- Giving a variable where it is found a value of its type keeps agreement. -/
theorem agrees_assign {e : Environment Value} {frames : List (List Binding)} {id : Nat} {ids : List Nat}
    (agrees : Agrees e.frames frames (id :: ids)) {name : String} {fuel : Nat} (enough : id < fuel) {b : Binding}
    (typed : (frames.findSome? fun frame => frame.find? fun b => b.name == name) = some b)
    {holder : Nat} {old : Value} (found : e.findFrom name fuel id = some (holder, old)) {v : Value}
    (holds : Holds b.type v) : Agrees (e.setAt holder name v).frames frames (id :: ids) := by
  induction frames generalizing id ids fuel with
  | nil => exact agrees.elim
  | cons frame frames ih =>
    have olderThan := agrees_older agrees
    obtain ⟨⟨stored, held, parent, matching⟩, older, rest⟩ := agrees
    obtain ⟨fuel, rfl⟩ : ∃ less, fuel = less + 1 := ⟨fuel - 1, by omega⟩
    have here := matching name
    simp only [Environment.findFrom, held] at found
    cases known : stored.find? name with
    | some w =>
      -- the variable is in the innermost frame; the frames around it are not touched
      simp only [known, Option.some.injEq, Prod.mk.injEq] at found
      obtain ⟨rfl, -⟩ := found
      cases local_ : frame.find? fun b => b.name == name with
      | none => rw [known, local_] at here; cases here
      | some b' =>
        simp only [List.findSome?_cons, local_, Option.some.injEq] at typed
        subst typed
        refine ⟨⟨stored.set name v, ?_, parent, matches_assign matching local_ holds⟩, older, ?_⟩
        · simp [Environment.setAt, Array.getElem?_modify, held]
        · refine agrees_congr (fun outer member => getElem?_modify_ne _ ?_) rest
          exact Nat.ne_of_lt (olderThan outer member)
    | none =>
      cases local_ : frame.find? fun b => b.name == name with
      | some b' => rw [known, local_] at here; cases here
      | none =>
        simp only [List.findSome?_cons, local_] at typed
        cases ids with
        | nil => simp [known, parent] at found
        | cons next ids =>
          simp only [known, parent, List.head?_cons] at found
          have nextLt : next < id := older next (by simp)
          have enoughOutside : next < fuel := by omega
          have outside := agrees_find rest name enoughOutside
          rw [found, typed] at outside
          have holderIn : holder ∈ next :: ids := by
            cases outside with
            | some both => exact both.2
          refine ⟨⟨stored, ?_, parent, matching⟩, older, ih rest (by omega) typed found⟩
          have differs : id ≠ holder := Nat.ne_of_gt (olderThan holder holderIn)
          rw [Environment.setAt, getElem?_modify_ne _ differs, held]

/-- Defining a variable in the innermost frame keeps agreement. -/
theorem agrees_define {e : Environment Value} {scope : Scope} {id : Nat} {ids : List Nat}
    (agrees : Agrees e.frames scope.frames (id :: ids)) {b : Binding} {v : Value} (holds : Holds b.type v) :
    Agrees (e.setAt id b.name v).frames (scope.define b).frames (id :: ids) := by
  obtain ⟨frames, owner, isStatic, inConstructor⟩ := scope
  cases frames with
  | nil => exact agrees.elim
  | cons frame frames =>
    have olderThan := agrees_older agrees
    obtain ⟨⟨stored, held, parent, matching⟩, older, rest⟩ := agrees
    refine ⟨⟨stored.set b.name v, ?_, parent, matches_define matching holds⟩, older, ?_⟩
    · simp [Environment.setAt, Array.getElem?_modify, held]
    · refine agrees_congr (fun outer member => getElem?_modify_ne _ ?_) rest
      exact Nat.ne_of_lt (olderThan outer member)

/-- A new frame has no variables yet, and is younger than all others. -/
theorem agrees_open {e : Environment Value} {frames : List (List Binding)} {id : Nat} {ids : List Nat}
    (agrees : Agrees e.frames frames (id :: ids)) :
    Agrees (e.pushFrame id).2.frames ([] :: frames) (e.frames.size :: id :: ids) := by
  have present : id < e.frames.size := by
    cases frames with
    | nil => exact agrees.elim
    | cons frame frames =>
      obtain ⟨⟨stored, held, -⟩, -⟩ := agrees
      exact (Array.getElem?_eq_some_iff.mp held).1
  have olderThan := agrees_older agrees
  refine ⟨⟨⟨[], some id⟩, ?_, rfl, matches_nil _⟩, ?_, agrees_congr ?_ agrees⟩
  · simp [Environment.pushFrame]
  · simpa using present
  · intro other member
    have below : other < e.frames.size := by
      rcases List.mem_cons.mp member with same | outer
      · exact same ▸ present
      · exact Nat.lt_trans (olderThan other outer) present
    simp [Environment.pushFrame, Array.getElem?_push, Nat.ne_of_lt below]

end ClassScript
