import ClassScript.Number.Layout
import ClassScript.Number.Arithmetic
import ClassScript.Text.Glyph

/-!
Values of running programs, and arrays of them. Objects, closures and host things live in a heap and
are known by their numbers; a class used as a value and a method read as a value are new values each
time. An array is the first part of a storage that may have room for more. A push into a full
storage moves the array to a larger one; whoever still reads the old storage sees it as it was.
-/

namespace ClassScript

/-- Something that the host keeps for a program. -/
inductive Host where
  | array (id : Nat)
  | iterator (id : Nat)
  | node (id : Nat)
  deriving DecidableEq, Inhabited, Repr

/-- Values. -/
inductive Value where
  | null
  /-- The result of a call that returns nothing. -/
  | void
  | number (x : Float)
  | string (s : Bytes)
  | boolean (b : Bool)
  | object (id : Nat)
  | classRef (cls : Nat) (id : Nat)
  | lambda (id : Nat)
  | method (id : Nat)
  | host (h : Host)
  deriving Inhabited

namespace Value

/-- Whether a value is null. -/
def isNull : Value → Bool
  | null => true
  | _ => false

/-- Whether a value is the result of a call that returns nothing. -/
def isVoid : Value → Bool
  | void => true
  | _ => false

end Value

/-! ## Arrays -/

/-- Cells for values: those in use, how many there can be, and whether any were ever asked for. -/
structure Storage where
  cells : Array Value
  capacity : Nat
  isAllocated : Bool
  deriving Inhabited

/-- An array: its storage, and how many of its cells belong to it. -/
structure ArrayRef where
  storage : Nat
  size : Nat
  deriving Inhabited

/-- Arrays and their storages. -/
structure Arrays where
  storages : Array Storage
  refs : Array ArrayRef
  deriving Inhabited

/-- Why an operation on an array fails. -/
inductive ArrayFault where
  | outOfRange (index : Float) (size : Nat)
  | exhausted (position : Nat)

/-- The wording of a fault. -/
def ArrayFault.message : ArrayFault → String
  | .outOfRange index size =>
    "index " ++ Number.write Number.Layout.plain index ++ s!" out of range for array of length {size}"
  | .exhausted position => s!"iterator exhausted at position {position}"

namespace Storage

/-- Sizes of storages above sixteen cells, up to the size from which whole pages are used. Of those
above thirty-two cells a part of one cell is taken by their own description. -/
def sizes : List Nat :=
  [18, 20, 22, 24, 26, 28, 30, 32, 35, 39, 43, 47, 55, 63, 71, 79, 87, 95, 111, 127, 143, 167, 191,
    199, 215, 255, 303, 319, 335, 383, 407, 423, 431, 511, 591, 607, 639, 679, 767, 847, 895, 1023,
    1151, 1191, 1279, 1359, 1535, 1703, 1791, 2047]

/-- The cells of one page. -/
def page : Nat := 512

/-- The least size of a storage with at least `n` cells. -/
def rounded (n : Nat) : Nat :=
  if n ≤ 16 then n else (sizes.find? fun s => n ≤ s).getD ((n + page - 1) / page * page)

/-- The cells wanted when a storage of `capacity` cells is full: twice as many, or, for large
storages, a quarter more. -/
def grown (capacity : Nat) : Nat :=
  if capacity == 0 then 1
  else if capacity < 256 then 2 * capacity
  else capacity + (capacity + 768) / 4

/-- A storage that is filled by the items. -/
def exact (items : List Value) : Storage := ⟨items.toArray, items.length, true⟩

/-- A storage of some usual size for the items. -/
def fitting (items : List Value) : Storage :=
  ⟨items.toArray, rounded items.length, !items.isEmpty⟩

/-- Writes a cell: one that is in use, or the next one. -/
def write (s : Storage) (i : Nat) (v : Value) : Storage :=
  if i < s.cells.size then { s with cells := s.cells.setIfInBounds i v }
  else { s with cells := s.cells.push v }

/-- A larger storage with the first `size` cells and one more value. -/
def moved (s : Storage) (size : Nat) (v : Value) : Storage :=
  ⟨(s.cells.extract 0 size).push v, rounded (grown s.capacity), true⟩

end Storage

namespace Arrays

def empty : Arrays := ⟨#[], #[]⟩

/-- The array of that number. -/
def ref (a : Arrays) (id : Nat) : ArrayRef := a.refs[id]?.getD default

/-- The storage of that number. -/
def storage (a : Arrays) (id : Nat) : Storage := a.storages[id]?.getD default

/-- The length of an array. -/
def size (a : Arrays) (id : Nat) : Nat := (a.ref id).size

/-- The item of a storage at a place. -/
def cell (a : Arrays) (storage i : Nat) : Value := ((a.storage storage).cells[i]?).getD .null

/-- The items of an array. -/
def items (a : Arrays) (id : Nat) : List Value :=
  let r := a.ref id
  (a.storage r.storage).cells.toList.take r.size

/-- A new array in a storage of its own. -/
def create (a : Arrays) (s : Storage) : Nat × Arrays :=
  let id := a.refs.size
  let r : ArrayRef := ⟨a.storages.size, s.cells.size⟩
  (id, ⟨a.storages.push s, a.refs.push r⟩)

/-- Adds an item at the end. -/
def push (a : Arrays) (id : Nat) (v : Value) : Arrays :=
  let r := a.ref id
  if r.size < (a.storage r.storage).capacity then
    ⟨a.storages.modify r.storage fun s => s.write r.size v,
      a.refs.modify id fun r => { r with size := r.size + 1 }⟩
  else
    let next := a.storages.size
    ⟨a.storages.push ((a.storage r.storage).moved r.size v),
      a.refs.modify id fun r => ⟨next, r.size + 1⟩⟩

/-- The last item; an empty array gives null. -/
def last (a : Arrays) (id : Nat) : Value :=
  let r := a.ref id
  if r.size == 0 then .null else a.cell r.storage (r.size - 1)

/-- Removes the last item, if there is one. -/
def dropLast (a : Arrays) (id : Nat) : Arrays :=
  { a with refs := a.refs.modify id fun r => { r with size := r.size - 1 } }

/-- The place that a number means in an array: a whole number below its length. -/
def index (a : Arrays) (id : Nat) (x : Float) : Except ArrayFault Nat :=
  let i := Number.wholePart x
  let n := a.size id
  if Number.ofInteger i == x && 0 ≤ i && i < n then .ok i.toNat else .error (.outOfRange x n)

/-- The item at an index. -/
def get (a : Arrays) (id : Nat) (x : Float) : Except ArrayFault Value := do
  let i ← a.index id x
  return a.cell (a.ref id).storage i

/-- The place to which an item with that index is written: the end of the array if it is the whole
part of the index, else the place of an item. -/
def target (a : Arrays) (id : Nat) (x : Float) : Except ArrayFault Nat :=
  if Number.wholePart x == a.size id then .ok (a.size id) else a.index id x

/-- Replaces the item at a place, or adds one at the end. -/
def put (a : Arrays) (id : Nat) (i : Nat) (v : Value) : Arrays :=
  if i < a.size id then
    let storage := (a.ref id).storage
    { a with storages := a.storages.modify storage fun s => s.write i v }
  else a.push id v

/-- Replaces the item at an index, or adds one at the end. -/
def set (a : Arrays) (id : Nat) (x : Float) (v : Value) : Except ArrayFault Arrays := do
  let i ← a.target id x
  return a.put id i v

/-- Whether an array has a storage that was asked for. -/
def isAllocated (a : Arrays) (id : Nat) : Bool := (a.storage (a.ref id).storage).isAllocated

end Arrays

/-- An iterator over an array. -/
structure ArrayCursor where
  array : Nat
  position : Nat
  deriving Inhabited

namespace ArrayCursor

/-- Whether there is an item at the position. -/
def hasNext (c : ArrayCursor) (a : Arrays) : Bool := c.position < a.size c.array

/-- The item at the position. -/
def current (c : ArrayCursor) (a : Arrays) : Except ArrayFault Value :=
  if c.hasNext a then .ok (a.cell (a.ref c.array).storage c.position)
  else .error (.exhausted c.position)

end ArrayCursor

end ClassScript
