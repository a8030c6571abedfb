import Mathlib
import ClassScript.Proofs.ExactNumbers
import ClassScript.Proofs.Showing
import ClassScript.Standard.Arrays

/-!
An array is a list. Whatever is done with an array and with the iterators over it, in any order, its methods answer as
those of a list do that grows and shrinks at its end, and whose places are the integers below its length
(`array_is_a_list`). There is one exception: an item written to an index with a fraction is added at the end if the
whole part of the index is the length (`set_adds_at_fraction`).
-/

namespace ClassScript

open Evaluation Standard Number

/-! ## The items of an array -/

namespace Storage

variable {s : Storage} {items : List Value}

theorem write_next (starts : items <+: s.cells.toList) (v : Value) :
    items ++ [v] <+: (s.write items.length v).cells.toList := by
  obtain ⟨rest, whole⟩ := starts
  have size : s.cells.size = items.length + rest.length := by rw [← Array.length_toList, ← whole, List.length_append]
  rw [write]
  cases rest with
  | nil =>
    rw [if_neg (by simp [size]), Array.toList_push, ← whole, List.append_nil]
  | cons c rest =>
    rw [if_pos (by simp [size]), Array.toList_setIfInBounds, ← whole]
    exact ⟨rest, by simp⟩

theorem write_inside (starts : items <+: s.cells.toList) {i : Nat} (inside : i < items.length) (v : Value) :
    items.set i v <+: (s.write i v).cells.toList := by
  obtain ⟨rest, whole⟩ := starts
  have size : s.cells.size = items.length + rest.length := by rw [← Array.length_toList, ← whole, List.length_append]
  rw [write, if_pos (by omega), Array.toList_setIfInBounds, ← whole, List.set_append_left _ _ inside]
  exact List.prefix_append _ rest

theorem moved_next (starts : items <+: s.cells.toList) (v : Value) :
    items ++ [v] <+: (s.moved items.length v).cells.toList := by
  simp [moved, ← List.prefix_iff_eq_take.1 starts]

end Storage

namespace Arrays

/-- The array of that number exists, and these are its items. -/
def Holds (a : Arrays) (id : Nat) (items : List Value) : Prop :=
  ∃ n s, a.refs[id]? = some ⟨n, items.length⟩ ∧ a.storages[n]? = some s ∧ items <+: s.cells.toList

variable {a : Arrays} {id : Nat} {items : List Value}

theorem holds_create (a : Arrays) : (a.create (.fitting [])).2.Holds (a.create (.fitting [])).1 [] :=
  ⟨a.storages.size, .fitting [], by simp [create, Storage.fitting], by simp [create], List.nil_prefix⟩

theorem Holds.items_eq (holds : a.Holds id items) : a.items id = items := by
  obtain ⟨n, s, known, stored, starts⟩ := holds
  simp only [Arrays.items, ref, storage, known, stored, Option.getD_some]
  exact (List.prefix_iff_eq_take.1 starts).symm

theorem Holds.size_eq (holds : a.Holds id items) : a.size id = items.length := by
  obtain ⟨n, s, known, -⟩ := holds
  rw [size, ref, known]
  rfl

theorem Holds.cell_eq (holds : a.Holds id items) {i : Nat} (below : i < items.length) :
    a.cell (a.ref id).storage i = items[i] := by
  obtain ⟨n, s, known, stored, rest, whole⟩ := holds
  simp only [cell, ref, storage, known, stored, Option.getD_some, ← Array.getElem?_toList, ← whole]
  rw [List.getElem?_append_left below, List.getElem?_eq_getElem below, Option.getD_some]

theorem Holds.last_eq (holds : a.Holds id items) : a.last id = items.getLast?.getD .null := by
  have size : (a.ref id).size = items.length := holds.size_eq
  simp only [last, size]
  split
  next empty =>
    obtain rfl : items = [] := by simpa using empty
    rfl
  next nonempty =>
    have below : items.length - 1 < items.length :=
      Nat.sub_lt (by simpa [List.length_pos_iff] using nonempty) Nat.one_pos
    rw [holds.cell_eq below, List.getLast?_eq_getElem?, List.getElem?_eq_getElem below, Option.getD_some]

theorem Holds.dropLast (holds : a.Holds id items) : (a.dropLast id).Holds id items.dropLast := by
  obtain ⟨n, s, known, stored, starts⟩ := holds
  refine ⟨n, s, ?_, stored, (List.dropLast_prefix items).trans starts⟩
  simp [Arrays.dropLast, Array.getElem?_modify, known]

theorem Holds.push (holds : a.Holds id items) (v : Value) : (a.push id v).Holds id (items ++ [v]) := by
  obtain ⟨n, s, known, stored, starts⟩ := holds
  have found : a.ref id = ⟨n, items.length⟩ := by simp [ref, known]
  have held : a.storage n = s := by simp [storage, stored]
  simp only [Arrays.push, found, held]
  split
  · refine ⟨n, s.write items.length v, ?_, ?_, Storage.write_next starts v⟩
    · simp [Array.getElem?_modify, known]
    · simp [Array.getElem?_modify, stored]
  · refine ⟨a.storages.size, s.moved items.length v, ?_, ?_, Storage.moved_next starts v⟩
    · simp [Array.getElem?_modify, known]
    · simp

theorem Holds.put (holds : a.Holds id items) {i : Nat} (within : i ≤ items.length) (v : Value) :
    (a.put id i v).Holds id (items.take i ++ v :: items.drop (i + 1)) := by
  rw [Arrays.put, holds.size_eq]
  split
  next inside =>
    have replaced := List.set_eq_take_append_cons_drop (l := items) (i := i) (a := v)
    rw [if_pos inside] at replaced
    rw [← replaced]
    obtain ⟨n, s, known, stored, starts⟩ := holds
    have found : (a.ref id).storage = n := by simp [ref, known]
    refine ⟨n, s.write i v, ?_, ?_, Storage.write_inside starts inside v⟩
    · simpa using known
    · simp [Array.getElem?_modify, found, stored]
  next outside =>
    obtain rfl : i = items.length := by omega
    rw [List.take_length, List.drop_of_length_le (Nat.le_succ _)]
    exact holds.push v

end Arrays

/-! ## Lists -/

/-- Something that is done with an array. The iterators over it are numbered in the order in which they are made. -/
inductive ArrayOp where
  | push (v : Value)
  | pop
  | get (x : Float)
  | set (x : Float) (v : Value)
  | length
  | indexOf (v : Value)
  | iterator
  | rewind (i : Nat)
  | hasNext (i : Nat)
  | next (i : Nat)
  | current (i : Nat)

/-- The natural number below a bound that is a rational. -/
def place? (q : ℚ) (bound : Nat) : Option Nat := (List.range bound).find? fun i => (i : ℚ) == q

theorem place?_eq_some_iff {q : ℚ} {bound i : Nat} : place? q bound = some i ↔ i < bound ∧ q = i := by
  rw [place?, List.find?_range_eq_some]
  simp only [beq_iff_eq, List.mem_range]
  constructor
  · rintro ⟨same, below, -⟩
    exact ⟨below, same.symm⟩
  · rintro ⟨below, rfl⟩
    exact ⟨rfl, below, fun j before => by simpa using before.ne⟩

theorem place?_eq_none_iff {q : ℚ} {bound : Nat} : place? q bound = none ↔ ∀ i < bound, q ≠ (i : ℚ) := by
  rw [place?, List.find?_eq_none]
  exact ⟨fun apart i below same => apart i (List.mem_range.2 below) (beq_iff_eq.2 same.symm),
    fun apart i inside same => apart i (List.mem_range.1 inside) (beq_iff_eq.1 same).symm⟩

/-- A list, and the positions of the iterators over it. -/
structure ListState where
  items : List Value
  positions : List Nat

namespace ListState

/-- Changes the position of an iterator, if there is one. -/
def move (l : ListState) (i : Nat) (f : Nat → Nat) : Except HostFault Value × ListState :=
  match l.positions[i]? with
  | some position => (.ok .void, { l with positions := l.positions.set i (f position) })
  | none => (.error .badArguments, l)

/-- What is done with an array, done with a list. -/
def perform (equal : Value → Value → Bool) (l : ListState) : ArrayOp → Except HostFault Value × ListState
  | .push v => (.ok .void, { l with items := l.items ++ [v] })
  | .pop => (.ok (l.items.getLast?.getD .null), { l with items := l.items.dropLast })
  | .get x =>
    match place? (value x) l.items.length with
    | some i => (.ok (l.items[i]?.getD .null), l)
    | none => (.error (.array (.outOfRange x l.items.length)), l)
  | .set x v =>
    match place? (value x) (l.items.length + 1) with
    | some i => (.ok .void, { l with items := l.items.take i ++ v :: l.items.drop (i + 1) })
    | none => (.error (.array (.outOfRange x l.items.length)), l)
  | .length => (.ok (.number (ofInteger l.items.length)), l)
  | .indexOf v => (.ok (.number ((l.items.findIdx? (equal · v)).elim (-1) fun i => ofInteger i)), l)
  | .iterator => (.ok .void, { l with positions := l.positions ++ [0] })
  | .rewind i => l.move i fun _ => 0
  | .next i => l.move i (· + 1)
  | .hasNext i =>
    match l.positions[i]? with
    | some position => (.ok (.boolean (position < l.items.length)), l)
    | none => (.error .badArguments, l)
  | .current i =>
    match l.positions[i]? with
    | some position =>
      (match l.items[position]? with
        | some v => .ok v
        | none => .error (.array (.exhausted position)), l)
    | none => (.error .badArguments, l)

/-- The results of what is done one after the other, and the list in the end. -/
def performAll (equal : Value → Value → Bool) : ListState → List ArrayOp → List (Except HostFault Value) × ListState
  | l, [] => ([], l)
  | l, op :: ops =>
    let (r, l) := l.perform equal op
    let (rs, l) := performAll equal l ops
    (r :: rs, l)

end ListState

/-! ## Arrays in a running program -/

namespace ArrayOp

/-- The method of the host that is asked, and its arguments. -/
def asked (array : Nat) (cursors : List Nat) : ArrayOp → Option HostMethod × List HostArg
  | push v => (arrayMethod? array "Push", [.any v])
  | pop => (arrayMethod? array "Pop", [])
  | get x => (arrayMethod? array "Get", [.number x])
  | set x v => (arrayMethod? array "Set", [.number x, .any v])
  | length => (arrayMethod? array "Length", [])
  | indexOf v => (arrayMethod? array "IndexOf", [.any v])
  | iterator => (arrayMethod? array "Iterator", [])
  | rewind i => (cursors[i]?.bind (iteratorMethod? · "Rewind"), [])
  | hasNext i => (cursors[i]?.bind (iteratorMethod? · "HasNext"), [])
  | next i => (cursors[i]?.bind (iteratorMethod? · "Next"), [])
  | current i => (cursors[i]?.bind (iteratorMethod? · "Current"), [])

/-- Does something with an array. What is asked of an iterator that was never made, no method can answer. A new iterator
is kept behind those that were made before. -/
def perform (k : Evaluator) (span : Span) (array : Nat) (cursors : List Nat) (op : ArrayOp) :
    Run (Except HostFault Value × List Nat) := do
  match op.asked array cursors with
  | (none, _) => return (.error .badArguments, cursors)
  | (some m, args) =>
    let r ← m.call k span args
    match op, r with
    | iterator, .ok (.host (.iterator c)) => return (.ok .void, cursors ++ [c])
    | _, r => return (r, cursors)

/-- Does one thing after the other with an array. -/
def performAll (k : Evaluator) (span : Span) (array : Nat) :
    List Nat → List ArrayOp → Run (List (Except HostFault Value))
  | _, [] => return []
  | cursors, op :: ops => do
    let (r, cursors) ← op.perform k span array cursors
    return r :: (← performAll k span array cursors ops)

end ArrayOp

/-- These iterators over an array are at these positions. -/
structure Iterating (made : Array ArrayCursor) (array : Nat) (cursors positions : List Nat) : Prop where
  paired : cursors.length = positions.length
  placed : ∀ i c p : Nat, cursors[i]? = some c → positions[i]? = some p → made[c]? = some ⟨array, p⟩
  distinct : cursors.Nodup

/-- An array and the iterators over it are as a list and the positions in it. -/
structure Represents (h : Heap) (array : Nat) (cursors : List Nat) (l : ListState) : Prop where
  holds : h.arrays.Holds array l.items
  iterating : Iterating h.cursors array cursors l.positions

variable {w : World} {s : State} {k : Evaluator} {span : Span} {array : Nat} {cursors : List Nat} {l : ListState}

/-! ### Indices -/

theorem wholePart_natCast {x : Float} (moderate : IsModerate x) {i : Nat} (same : value x = i) : wholePart x = i := by
  rw [wholePart_eq moderate, same]
  exact truncated_intCast i

theorem index_eq {a : Arrays} {x : Float} (moderate : IsModerate x) : a.index array x =
    match place? (value x) (a.size array) with
    | some i => .ok i
    | none => .error (.outOfRange x (a.size array)) := by
  rw [Arrays.index]
  cases found : place? (value x) (a.size array) with
  | some i =>
    obtain ⟨below, same⟩ := place?_eq_some_iff.1 found
    have whole := wholePart_natCast moderate same
    have exact_ : (ofInteger (i : Int) == x) = true := by
      rw [← whole, ofInteger_wholePart_beq_iff moderate, whole, same, Int.cast_natCast]
    simp [whole, exact_, below]
  | none =>
    refine if_neg fun accepted => ?_
    simp only [Bool.and_eq_true, decide_eq_true_eq] at accepted
    obtain ⟨⟨exact_, nonneg⟩, below⟩ := accepted
    obtain ⟨i, whole⟩ := Int.eq_ofNat_of_zero_le nonneg
    rw [ofInteger_wholePart_beq_iff moderate, whole, Int.cast_natCast] at exact_
    exact place?_eq_none_iff.1 found i (by omega) exact_

/-- Where an item is written, unless a fraction is cut off and leaves the length. -/
theorem target_eq {a : Arrays} {x : Float} (moderate : IsModerate x)
    (regular : truncated (value x) = a.size array → value x = a.size array) : a.target array x =
      match place? (value x) (a.size array + 1) with
      | some i => .ok i
      | none => .error (.outOfRange x (a.size array)) := by
  rw [Arrays.target, index_eq moderate]
  cases found : place? (value x) (a.size array + 1) with
  | some i =>
    obtain ⟨within, same⟩ := place?_eq_some_iff.1 found
    rw [wholePart_natCast moderate same]
    by_cases last : i = a.size array
    · simp [last]
    · rw [if_neg (by simpa using last), place?_eq_some_iff.2 ⟨by omega, same⟩]
  | none =>
    have apart := place?_eq_none_iff.1 found
    have other : ¬ (wholePart x == (a.size array : Int)) = true := by
      intro last
      rw [beq_iff_eq, wholePart_eq moderate] at last
      exact apart _ (Nat.lt_succ_self _) (regular last)
    rw [if_neg other, place?_eq_none_iff.2 fun i below => apart i (by omega)]

/-! ### Iterators -/

section

variable {made : Array ArrayCursor} {positions : List Nat}

theorem Iterating.exists_position (iterating : Iterating made array cursors positions) {i c : Nat}
    (found : cursors[i]? = some c) : ∃ p, positions[i]? = some p := by
  obtain ⟨below, -⟩ := List.getElem?_eq_some_iff.1 found
  exact ⟨_, List.getElem?_eq_getElem (iterating.paired ▸ below)⟩

theorem Iterating.lt_size (iterating : Iterating made array cursors positions) {c : Nat} (member : c ∈ cursors) :
    c < made.size := by
  obtain ⟨i, found⟩ := List.mem_iff_getElem?.1 member
  obtain ⟨p, position⟩ := iterating.exists_position found
  obtain ⟨below, -⟩ := Array.getElem?_eq_some_iff.1 (iterating.placed i c p found position)
  exact below

theorem Iterating.create (iterating : Iterating made array cursors positions) :
    Iterating (made.push ⟨array, 0⟩) array (cursors ++ [made.size]) (positions ++ [0]) := by
  refine ⟨by simp [iterating.paired], fun i c p found position => ?_, ?_⟩
  · rcases Nat.lt_or_ge i cursors.length with old | new
    · rw [List.getElem?_append_left old] at found
      rw [List.getElem?_append_left (iterating.paired ▸ old)] at position
      have placed := iterating.placed i c p found position
      rwa [Array.getElem?_push, if_neg (iterating.lt_size (List.mem_of_getElem? found)).ne]
    · rw [List.getElem?_append_right new, List.getElem?_singleton] at found
      rw [List.getElem?_append_right (iterating.paired ▸ new), List.getElem?_singleton] at position
      rw [← Option.some.inj (Option.ite_none_right_eq_some.1 found).2,
        ← Option.some.inj (Option.ite_none_right_eq_some.1 position).2]
      exact Array.getElem?_push_size
  · refine List.nodup_append.2 ⟨iterating.distinct, List.nodup_singleton _, fun c old d new => ?_⟩
    rw [List.mem_singleton.1 new]
    exact (iterating.lt_size old).ne

theorem Iterating.move (iterating : Iterating made array cursors positions) {i c p : Nat} (found : cursors[i]? = some c)
    (position : positions[i]? = some p) (f : Nat → Nat) :
    Iterating (made.modify c fun c => { c with position := f c.position }) array cursors (positions.set i (f p)) := by
  refine ⟨by rw [iterating.paired, List.length_set], fun j d q found' position' => ?_, iterating.distinct⟩
  rw [Array.getElem?_modify]
  by_cases same : i = j
  · subst same
    obtain rfl : c = d := Option.some.inj (found.symm.trans found')
    obtain ⟨below, -⟩ := List.getElem?_eq_some_iff.1 position
    rw [List.getElem?_set_self below] at position'
    rw [if_pos rfl, iterating.placed i c p found position, ← Option.some.inj position']
    rfl
  · have apart : c ≠ d := by
      rintro rfl
      obtain ⟨below, -⟩ := List.getElem?_eq_some_iff.1 found
      exact same ((List.getElem?_inj below iterating.distinct).1 (found.trans found'.symm))
    rw [List.getElem?_set_ne same] at position'
    rw [if_neg apart, iterating.placed j d q found' position']

end

/-! ### Steps -/

/-- What may happen to a list that an array is to follow: indices are of moderate size, and an item is not written to
an index with a fraction whose whole part is the length. -/
def ArrayOp.IsRegular (length : Nat) : ArrayOp → Prop
  | get x => IsModerate x
  | set x _ => IsModerate x ∧ (truncated (value x) = length → value x = length)
  | _ => True

theorem itemPlace_eq (h : Heap) (v : Value) (place : Nat) (items : List Value) :
    itemPlace h v place items = (items.findIdx? (h.equal · v)).map (· + place) := by
  induction items generalizing place with
  | nil => rfl
  | cons w items ih =>
    rw [itemPlace, List.findIdx?_cons, ih]
    split
    · simp
    · simp [Function.comp_def, Nat.add_assoc, Nat.add_comm 1]

/-- Equality looks at objects only. -/
theorem equal_congr {h h' : Heap} (same : h'.objects = h.objects) : h'.equal = h.equal := by
  funext v w
  cases v <;> cases w <;> simp only [Heap.equal, Heap.object, same]

/-- What is done with an array follows the list: the result is the same, and so are the contents afterwards. -/
def Imitates (k : Evaluator) (span : Span) (array : Nat) (cursors : List Nat) (l : ListState) (op : ArrayOp) (w : World)
    (s : State) : Prop :=
  ∃ cursors' s', op.perform k span array cursors w s = (.ok ((l.perform s.heap.equal op).1, cursors'), s') ∧
    s'.heap.objects = s.heap.objects ∧ Represents s'.heap array cursors' (l.perform s.heap.equal op).2

theorem imitates_of_change {op : ArrayOp} {r : Except HostFault Value} {s' : State} {l' : ListState}
    (ran : op.perform k span array cursors w s = (.ok (r, cursors), s')) (objects : s'.heap.objects = s.heap.objects)
    (answer : l.perform s.heap.equal op = (r, l')) (represents : Represents s'.heap array cursors l') :
    Imitates k span array cursors l op w s :=
  ⟨cursors, s', by rw [ran, answer], objects, by rwa [answer]⟩

/-- Something that only answers follows the list. -/
theorem imitates_of_answer {op : ArrayOp} {r : Except HostFault Value} (represents : Represents s.heap array cursors l)
    (ran : op.perform k span array cursors w s = (.ok (r, cursors), s))
    (answer : l.perform s.heap.equal op = (r, l)) : Imitates k span array cursors l op w s :=
  imitates_of_change ran rfl answer represents

theorem get_imitates (represents : Represents s.heap array cursors l) {x : Float} (moderate : IsModerate x) :
    Imitates k span array cursors l (.get x) w s := by
  have ran : (ArrayOp.get x).perform k span array cursors w s =
    (.ok ((s.heap.arrays.get array x).mapError .array, cursors), s) := rfl
  refine imitates_of_answer represents ran ?_
  rw [Arrays.get, index_eq moderate, represents.holds.size_eq, ListState.perform]
  cases found : place? (value x) l.items.length with
  | none => rfl
  | some i =>
    obtain ⟨below, -⟩ := place?_eq_some_iff.1 found
    dsimp only
    rw [List.getElem?_eq_getElem below, Option.getD_some, ← represents.holds.cell_eq below]
    rfl

theorem set_run (k : Evaluator) (span : Span) (array : Nat) (cursors : List Nat) (x : Float) (v : Value) (w : World)
    (s : State) : (ArrayOp.set x v).perform k span array cursors w s =
    match s.heap.arrays.target array x with
    | .error fault => (.ok (.error (.array fault), cursors), s)
    | .ok i =>
      (.ok (.ok .void, cursors), { s with heap := { s.heap with arrays := s.heap.arrays.put array i v } }) := by
  show ((match s.heap.arrays.target array x with
      | .error fault => refuse (.array fault)
      | .ok i => do
        modifyArrays fun a => a.put array i v
        give .void : HostRun) >>= fun r => pure (r, cursors)) w s = _
  cases s.heap.arrays.target array x <;> rfl

theorem set_imitates (represents : Represents s.heap array cursors l) {x : Float} {v : Value} (moderate : IsModerate x)
    (regular : truncated (value x) = l.items.length → value x = l.items.length) :
    Imitates k span array cursors l (.set x v) w s := by
  have ran := set_run k span array cursors x v w s
  rw [target_eq moderate (by rwa [represents.holds.size_eq]), represents.holds.size_eq] at ran
  cases found : place? (value x) (l.items.length + 1) with
  | none =>
    rw [found] at ran
    exact imitates_of_answer represents ran (by rw [ListState.perform, found])
  | some i =>
    rw [found] at ran
    obtain ⟨within, -⟩ := place?_eq_some_iff.1 found
    have put := represents.holds.put (Nat.le_of_lt_succ within) v
    have answer : l.perform s.heap.equal (.set x v) =
      (.ok .void, { l with items := l.items.take i ++ v :: l.items.drop (i + 1) }) := by rw [ListState.perform, found]
    exact imitates_of_change ran rfl answer ⟨put, represents.iterating⟩

theorem indexOf_imitates (represents : Represents s.heap array cursors l) (v : Value) :
    Imitates k span array cursors l (.indexOf v) w s := by
  have ran : (ArrayOp.indexOf v).perform k span array cursors w s =
      ((match itemPlace s.heap v 0 (s.heap.arrays.items array) with
        | some i => give (.number (ofInteger i))
        | none => give (.number (-1)) : HostRun) >>= fun r => pure (r, cursors)) w s := rfl
  rw [itemPlace_eq, represents.holds.items_eq] at ran
  cases found : l.items.findIdx? (s.heap.equal · v) with
  | none =>
    rw [found] at ran
    exact imitates_of_answer represents ran (by rw [ListState.perform, found]; rfl)
  | some i =>
    rw [found] at ran
    exact imitates_of_answer represents ran (by rw [ListState.perform, found]; rfl)

/-- An iterator that was made has a position, and one that was not made has none. -/
theorem position_cases (represents : Represents s.heap array cursors l) (i : Nat) :
    (cursors[i]? = none ∧ l.positions[i]? = none) ∨
      ∃ c p, cursors[i]? = some c ∧ l.positions[i]? = some p ∧ s.heap.cursor c = ⟨array, p⟩ := by
  cases found : cursors[i]? with
  | none =>
    rw [List.getElem?_eq_none_iff, represents.iterating.paired] at found
    exact .inl ⟨rfl, List.getElem?_eq_none_iff.2 found⟩
  | some c =>
    obtain ⟨p, position⟩ := represents.iterating.exists_position found
    refine .inr ⟨c, p, rfl, position, ?_⟩
    rw [Heap.cursor, represents.iterating.placed i c p found position]
    rfl

theorem hasNext_imitates (represents : Represents s.heap array cursors l) (i : Nat) :
    Imitates k span array cursors l (.hasNext i) w s := by
  rcases position_cases represents i with ⟨found, position⟩ | ⟨c, p, found, position, cursor⟩
  · refine imitates_of_answer represents ?_ (by rw [ListState.perform, position])
    rw [ArrayOp.perform, ArrayOp.asked, found]
    rfl
  · refine imitates_of_answer (r := .ok (.boolean ((s.heap.cursor c).hasNext s.heap.arrays))) represents ?_ ?_
    · rw [ArrayOp.perform, ArrayOp.asked, found]
      rfl
    · rw [ListState.perform, position, cursor, ArrayCursor.hasNext, represents.holds.size_eq]

theorem current_imitates (represents : Represents s.heap array cursors l) (i : Nat) :
    Imitates k span array cursors l (.current i) w s := by
  rcases position_cases represents i with ⟨found, position⟩ | ⟨c, p, found, position, cursor⟩
  · refine imitates_of_answer represents ?_ (by rw [ListState.perform, position])
    rw [ArrayOp.perform, ArrayOp.asked, found]
    rfl
  · refine imitates_of_answer (r := ((s.heap.cursor c).current s.heap.arrays).mapError .array) represents ?_ ?_
    · rw [ArrayOp.perform, ArrayOp.asked, found]
      rfl
    · rw [ListState.perform, position, cursor, ArrayCursor.current, ArrayCursor.hasNext, represents.holds.size_eq]
      dsimp only
      rcases Nat.lt_or_ge p l.items.length with below | beyond
      · rw [if_pos (decide_eq_true below), represents.holds.cell_eq below, List.getElem?_eq_getElem below]
        rfl
      · rw [if_neg (by simpa using beyond), List.getElem?_eq_none beyond]
        rfl

/-- An iterator that moves follows its position. -/
theorem move_imitates (represents : Represents s.heap array cursors l) {op : ArrayOp} {i : Nat} {f : Nat → Nat}
    (moves : ∀ equal, l.perform equal op = l.move i f)
    (absent : cursors[i]? = none → op.perform k span array cursors w s = (.ok (.error .badArguments, cursors), s))
    (present : ∀ c, cursors[i]? = some c → op.perform k span array cursors w s =
      (.ok (.ok .void, cursors), { s with heap := { s.heap with
        cursors := s.heap.cursors.modify c fun c => { c with position := f c.position } } })) :
    Imitates k span array cursors l op w s := by
  rcases position_cases represents i with ⟨found, position⟩ | ⟨c, p, found, position, cursor⟩
  · exact imitates_of_answer represents (absent found) (by rw [moves, ListState.move, position])
  · have answer : l.perform s.heap.equal op = (.ok .void, { l with positions := l.positions.set i (f p) }) := by
      rw [moves, ListState.move, position]
    exact imitates_of_change (present c found) rfl answer
      ⟨represents.holds, represents.iterating.move found position f⟩

/-- What is done with an array is done with the list. -/
theorem perform_imitates (represents : Represents s.heap array cursors l) {op : ArrayOp}
    (regular : op.IsRegular l.items.length) : Imitates k span array cursors l op w s := by
  obtain ⟨holds, iterating⟩ := represents
  cases op with
  | push v => exact imitates_of_change rfl rfl rfl ⟨holds.push v, iterating⟩
  | pop =>
    have ran : ArrayOp.pop.perform k span array cursors w s = (.ok (.ok (s.heap.arrays.last array), cursors),
      { s with heap := { s.heap with arrays := s.heap.arrays.dropLast array } }) := rfl
    rw [holds.last_eq] at ran
    exact imitates_of_change ran rfl rfl ⟨holds.dropLast, iterating⟩
  | get x => exact get_imitates ⟨holds, iterating⟩ regular
  | set x v => exact set_imitates ⟨holds, iterating⟩ regular.1 regular.2
  | length =>
    have ran : ArrayOp.length.perform k span array cursors w s =
      (.ok (.ok (.number (ofInteger (s.heap.arrays.size array))), cursors), s) := rfl
    rw [holds.size_eq] at ran
    exact imitates_of_answer ⟨holds, iterating⟩ ran rfl
  | indexOf v => exact indexOf_imitates ⟨holds, iterating⟩ v
  | iterator => exact ⟨cursors ++ [s.heap.cursors.size], _, rfl, rfl, holds, iterating.create⟩
  | rewind i =>
    refine move_imitates ⟨holds, iterating⟩ (fun _ => rfl) (fun found => ?_) fun c found => ?_ <;>
      rw [ArrayOp.perform, ArrayOp.asked, found] <;> rfl
  | hasNext i => exact hasNext_imitates ⟨holds, iterating⟩ i
  | next i =>
    refine move_imitates ⟨holds, iterating⟩ (fun _ => rfl) (fun found => ?_) fun c found => ?_ <;>
      rw [ArrayOp.perform, ArrayOp.asked, found] <;> rfl
  | current i => exact current_imitates ⟨holds, iterating⟩ i

/-! ### Runs -/

/-- Whether all that is done one after the other is regular. -/
def ListState.IsRegular (equal : Value → Value → Bool) : ListState → List ArrayOp → Prop
  | _, [] => True
  | l, op :: ops => op.IsRegular l.items.length ∧ IsRegular equal (l.perform equal op).2 ops

/-- What is done one after the other with an array is done with the list. -/
theorem performAll_imitates (represents : Represents s.heap array cursors l) {ops : List ArrayOp}
    (regular : l.IsRegular s.heap.equal ops) : ∃ s',
      ArrayOp.performAll k span array cursors ops w s = (.ok (l.performAll s.heap.equal ops).1, s') ∧
        s'.heap.arrays.items array = (l.performAll s.heap.equal ops).2.items := by
  induction ops generalizing s cursors l with
  | nil => exact ⟨s, rfl, represents.holds.items_eq⟩
  | cons op ops ih =>
    obtain ⟨cursors', t, ran, objects, represents'⟩ := perform_imitates (k := k) (w := w) represents regular.1
    have same : t.heap.equal = s.heap.equal := equal_congr objects
    obtain ⟨s', rest, items⟩ := ih represents' (same ▸ regular.2)
    rw [same] at rest items
    refine ⟨s', ?_, items⟩
    rw [ArrayOp.performAll, bind_run, ran]
    dsimp only
    rw [bind_run, rest]
    rfl

/-! ### What the list does -/

theorem ListState.perform_error {equal : Value → Value → Bool} {op : ArrayOp} {fault : HostFault}
    (failed : (l.perform equal op).1 = .error fault) : (l.perform equal op).2 = l := by
  cases op <;> simp only [ListState.perform, ListState.move] at failed ⊢ <;> grind

theorem ListState.current_of_hasNext {equal : Value → Value → Bool} {i : Nat}
    (more : (l.perform equal (.hasNext i)).1 = .ok (.boolean true)) :
    ∃ (p : Nat) (v : Value), l.positions[i]? = some p ∧ l.items[p]? = some v ∧
      l.perform equal (.current i) = (.ok v, l) := by
  rw [ListState.perform] at more
  simp only [ListState.perform]
  cases position : l.positions[i]? with
  | none =>
    rw [position] at more
    cases more
  | some p =>
    rw [position] at more
    have below : p < l.items.length := by simpa using more
    have found := List.getElem?_eq_getElem below
    refine ⟨p, _, rfl, found, ?_⟩
    dsimp only
    rw [found]

/-- An array that starts empty is a list: its methods and those of the iterators over it give the results of a list, in
whatever order they are called, and it has the items of the list in the end. In the list, reading succeeds at the
integers below the length and writing at those up to the length, what fails changes nothing, and an iterator that has a
next item gives the item at its position. This is so as long as no item is written to an index with a fraction whose
whole part is the length at that time. -/
theorem array_is_a_list (k : Evaluator) (span : Span) (w : World) (s : State) (ops : List ArrayOp)
    (regular : ListState.IsRegular s.heap.equal ⟨[], []⟩ ops) :
    (∃ array t s', newArray (.fitting []) w s = (.ok (.array array), t) ∧
      ArrayOp.performAll k span array [] ops w t = (.ok (ListState.performAll s.heap.equal ⟨[], []⟩ ops).1, s') ∧
      s'.heap.arrays.items array = (ListState.performAll s.heap.equal ⟨[], []⟩ ops).2.items) ∧
      (∀ (x : Float) (bound i : Nat), place? (value x) bound = some i ↔ i < bound ∧ value x = i) ∧
      (∀ (equal : Value → Value → Bool) (l : ListState) (op : ArrayOp) (fault : HostFault),
        (l.perform equal op).1 = .error fault → (l.perform equal op).2 = l) ∧
      ∀ (equal : Value → Value → Bool) (l : ListState) (i : Nat),
        (l.perform equal (.hasNext i)).1 = .ok (.boolean true) →
          ∃ (p : Nat) (v : Value), l.positions[i]? = some p ∧ l.items[p]? = some v ∧
            l.perform equal (.current i) = (.ok v, l) := by
  let t : State := { s with heap := { s.heap with arrays := (s.heap.arrays.create (.fitting [])).2 } }
  have empty : Represents t.heap (s.heap.arrays.create (.fitting [])).1 [] ⟨[], []⟩ :=
    ⟨Arrays.holds_create s.heap.arrays, rfl, (fun _ _ _ none => nomatch none), List.nodup_nil⟩
  obtain ⟨s', ran, items⟩ := performAll_imitates (k := k) (w := w) empty regular
  exact ⟨⟨_, t, s', rfl, ran, items⟩, fun x bound i => place?_eq_some_iff,
    fun equal l op fault => ListState.perform_error, fun equal l i => ListState.current_of_hasNext⟩

/-- A push, a write at the end, a read, and a walk with an iterator. -/
def someOps : List ArrayOp :=
  [.push .null, .set (ofInteger 1) (.boolean true), .get (ofInteger 0), .iterator, .next 0, .hasNext 0, .current 0,
    .pop]

theorem some_array_is_a_list : ∃ array t s',
    newArray (.fitting []) default (default : State) = (.ok (.array array), t) ∧
      ArrayOp.performAll (evaluator 0) default array [] someOps default t =
        (.ok (ListState.performAll (default : State).heap.equal ⟨[], []⟩ someOps).1, s') ∧
      s'.heap.arrays.items array = (ListState.performAll (default : State).heap.equal ⟨[], []⟩ someOps).2.items := by
  have moderate {i : Int} (small : i.natAbs < 2 ^ 53) : IsModerate (ofInteger i) := by
    rw [IsModerate, (value_ofInteger small).2]
    have bounded : |i| < 2 ^ 53 := by rw [Int.abs_eq_natAbs]; omega
    exact_mod_cast bounded
  refine (array_is_a_list (evaluator 0) default default default someOps ?_).1
  refine ⟨trivial, ⟨moderate (by decide), fun _ => ?_⟩, moderate (by decide), trivial, trivial, trivial, trivial,
    trivial, trivial⟩
  exact (value_ofInteger (by decide)).2

/-- In an empty array an item is written to the index 0.5. -/
theorem set_adds_at_fraction : value 0.5 = 1 / 2 ∧ ∃ array t s',
    newArray (.fitting []) default (default : State) = (.ok (.array array), t) ∧
      (ArrayOp.set 0.5 .null).perform (evaluator 0) default array [] default t = (.ok (.ok .void, []), s') ∧
      s'.heap.arrays.items array = [.null] := by
  have decoded : decode 0.5 = ⟨2 ^ 52, -53⟩ := by decide +kernel
  have positive : isNegative 0.5 = false := by decide +kernel
  have number : value 0.5 = 1 / 2 := by
    rw [value, positive, if_neg (by decide), magnitude, decoded, Dyadic.value]
    norm_num
  let made := ((default : State).heap.arrays.create (.fitting [])).2
  have target : made.target 0 0.5 = .ok 0 := if_pos (by decide +kernel)
  have put := ((Arrays.holds_create (default : State).heap.arrays).put (Nat.le_refl 0) .null).items_eq
  let t : State := { (default : State) with heap := { (default : State).heap with arrays := made } }
  have ran : (ArrayOp.set 0.5 .null).perform (evaluator 0) default 0 [] default t =
      (.ok (.ok .void, []), { t with heap := { t.heap with arrays := made.put 0 0 .null } }) := by
    rw [set_run, target]
  exact ⟨number, 0, t, _, rfl, ran, put⟩

end ClassScript
