import ClassScript.Evaluation.HostMethod

/-!
Methods of arrays and of iterators over them. A traversal with a callback stays on the storage and
the length that the array had when it began.
-/

namespace ClassScript.Standard

open Evaluation

/-- The place of the first item equal to a value. -/
def itemPlace (h : Heap) (v : Value) (place : Nat) : List Value → Option Nat
  | [] => none
  | w :: rest => if h.equal w v then some place else itemPlace h v (place + 1) rest

/-- The texts of the items of an array, with a separator between them. -/
def joined (id : Nat) (separator : Bytes) : HostRun := do
  let parts ← ((← heap).arrays.items id).mapM text
  give (.string (separator.intercalate parts))

/-- Calls a function with the items of a storage from a place on; the results, each with its item,
are collected until one fails. -/
def traverse (callback : Value → HostRun) (storage : Nat) (place : Nat) :
    Nat → Run (Except HostFault (List (Value × Value)))
  | 0 => return .ok []
  | count + 1 => do
    let item := (← heap).arrays.cell storage place
    match ← callback item with
    | .error fault => return .error fault
    | .ok v =>
      match ← traverse callback storage (place + 1) count with
      | .error fault => return .error fault
      | .ok rest => return .ok ((item, v) :: rest)

/-- Calls a function with the items of an array. -/
def traverseArray (id : Nat) (callback : Value → HostRun) :
    Run (Except HostFault (List (Value × Value))) := do
  let r := (← heap).arrays.ref id
  traverse callback r.storage 0 r.size

/-- Whether a value is true. -/
def isTrue : Value → Bool
  | .boolean b => b
  | _ => false

/-- A new array to which the items were added one by one. -/
def collected (items : List Value) : HostRun := do
  match ← newArray (.fitting []) with
  | .array id =>
    modifyArrays fun a => items.foldl (fun a v => a.push id v) a
    give (.host (.array id))
  | h => give (.host h)

/-- The method of that name of an array. -/
def arrayMethod? (id : Nat) : String → Option HostMethod
  | "Push" => some (.ofAny fun v => do
      modifyArrays fun a => a.push id v
      give .void)
  | "Pop" => some (.nullary do
      let v := (← heap).arrays.last id
      modifyArrays fun a => a.dropLast id
      give v)
  | "Get" => some (.ofNumber fun x => return ((← heap).arrays.get id x).mapError .array)
  | "Set" => some (.ofNumberAny fun x v => do
      match (← heap).arrays.target id x with
      | .error fault => refuse (.array fault)
      | .ok i =>
        modifyArrays fun a => a.put id i v
        give .void)
  | "Length" => some (.nullary do give (.number (Number.ofInteger ((← heap).arrays.size id))))
  | "Iterator" => some (.nullary do give (.host (← newCursor id)))
  | "IndexOf" => some (.ofAny fun v => do
      let h ← heap
      match itemPlace h v 0 (h.arrays.items id) with
      | some i => give (.number (Number.ofInteger i))
      | none => give (.number (-1)))
  | "Contains" => some (.ofAny fun v => do
      let h ← heap
      give (.boolean (itemPlace h v 0 (h.arrays.items id)).isSome))
  | "Join" => some (.ofText fun separator => joined id separator)
  | "Map" => some (.ofFunction fun callback => do
      match ← traverseArray id callback with
      | .error fault => refuse fault
      | .ok results => give (.host (← newArray (.exact (results.map (·.2))))))
  | "Filter" => some (.ofFunction fun callback => do
      match ← traverseArray id callback with
      | .error fault => refuse fault
      | .ok results => collected ((results.filter fun r => isTrue r.2).map (·.1)))
  | "ForEach" => some (.ofFunction fun callback => do
      match ← traverseArray id callback with
      | .error fault => refuse fault
      | .ok _ => give .void)
  | "Items" => some (.nullary do
      if (← heap).arrays.isAllocated id then refuse (.badResult "[]interface \x7b\x7d")
      else give .null)
  | "String" => some (.nullary do give (.string (← text (.host (.array id)))))
  | _ => none

/-- Changes an iterator. -/
def modifyCursor (id : Nat) (f : ArrayCursor → ArrayCursor) : Run Unit :=
  modifyHeap fun h => { h with cursors := h.cursors.modify id f }

/-- The method of that name of an iterator. -/
def iteratorMethod? (id : Nat) : String → Option HostMethod
  | "Rewind" => some (.nullary do
      modifyCursor id fun c => { c with position := 0 }
      give .void)
  | "HasNext" => some (.nullary do
      let h ← heap
      give (.boolean ((h.cursor id).hasNext h.arrays)))
  | "Next" => some (.nullary do
      modifyCursor id fun c => { c with position := c.position + 1 }
      give .void)
  | "Current" => some (.nullary do
      let h ← heap
      return ((h.cursor id).current h.arrays).mapError .array)
  | _ => none

end ClassScript.Standard
