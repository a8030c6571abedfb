/-!
Variables at run time. Scopes are opened and released like a stack of slots; a frame of variables
lives on after its slot is released, for the closures that hold on to it.
-/

namespace ClassScript

/-- The variables of one scope, and the frame around it. -/
structure Frame (α : Type) where
  vars : List (String × α)
  parent : Option Nat
  deriving Inhabited

namespace Frame

/-- The value of a variable of the frame itself. -/
def find? {α : Type} (f : Frame α) (name : String) : Option α := f.vars.lookup name

/-- Gives a variable of the frame a value. -/
def set {α : Type} (f : Frame α) (name : String) (v : α) : Frame α :=
  { f with vars := (name, v) :: f.vars.filter fun p => p.1 != name }

end Frame

/-- All frames that were opened, and which of them the live slots hold. -/
structure Environment (α : Type) where
  frames : Array (Frame α)
  slots : Array Nat

namespace Environment

variable {α : Type}

/-- An environment with the global scope alone. -/
def empty : Environment α := ⟨#[⟨[], none⟩], #[0]⟩

instance : Inhabited (Environment α) := ⟨empty⟩

/-- The slot of the global scope. -/
def global : Nat := 0

/-- The number of live slots. -/
def height (e : Environment α) : Nat := e.slots.size

/-- The frame in a live slot, which stays valid after its release. -/
def capture? (e : Environment α) (slot : Nat) : Option Nat := e.slots[slot]?

/-- Opens a scope inside a frame. -/
def pushFrame (e : Environment α) (parent : Nat) : Nat × Environment α :=
  let slot := e.slots.size
  let frame := e.frames.size
  (slot, ⟨e.frames.push ⟨[], some parent⟩, e.slots.push frame⟩)

/-- Opens a scope inside a live slot. -/
def push? (e : Environment α) (slot : Nat) : Option (Nat × Environment α) :=
  (e.capture? slot).map e.pushFrame

/-- Releases the slots from a height on; the global scope is never released. -/
def release (e : Environment α) (height : Nat) : Environment α :=
  { e with slots := e.slots.shrink (max height 1) }

/-- The nearest frame that has the variable, from a frame outwards, and the value there. A frame is
opened after the one around it, so the walk ends. -/
def findFrom (e : Environment α) (name : String) : Nat → Nat → Option (Nat × α)
  | 0, _ => none
  | fuel + 1, id =>
    match e.frames[id]? with
    | none => none
    | some f =>
      match f.find? name with
      | some v => some (id, v)
      | none =>
        match f.parent with
        | none => none
        | some p => findFrom e name fuel p

/-- The nearest frame that has the variable, seen from a frame, and the value there. -/
def seenFrom (e : Environment α) (id : Nat) (name : String) : Option (Nat × α) :=
  findFrom e name (id + 1) id

/-- The nearest frame that has the variable, seen from a slot, and the value there. -/
def find? (e : Environment α) (slot : Nat) (name : String) : Option (Nat × α) :=
  (e.capture? slot).bind fun id => e.seenFrom id name

/-- The value of a variable seen from a slot. -/
def get? (e : Environment α) (slot : Nat) (name : String) : Option α :=
  (e.find? slot name).map (·.2)

/-- Gives a variable of a frame a value. -/
def setAt (e : Environment α) (id : Nat) (name : String) (v : α) : Environment α :=
  { e with frames := e.frames.modify id fun f => f.set name v }

/-- Defines a variable in a live slot. -/
def set? (e : Environment α) (slot : Nat) (name : String) (v : α) : Option (Environment α) :=
  (e.capture? slot).map fun id => e.setAt id name v

/-- Assigns to the nearest variable of that name. -/
def update? (e : Environment α) (slot : Nat) (name : String) (v : α) : Option (Environment α) :=
  (e.find? slot name).map fun found => e.setAt found.1 name v

end Environment

/-! ## What is found -/

variable {α β : Type} [BEq α] [LawfulBEq α] {key other : α}

/-- The entries of one key can be removed without changing those of others. -/
theorem lookup_filter_ne (differs : other ≠ key) (entries : List (α × β)) :
    (entries.filter fun e => e.1 != key).lookup other = entries.lookup other := by
  induction entries with
  | nil => rfl
  | cons e rest ih =>
    rw [List.filter_cons, List.lookup_cons]
    by_cases removed : e.1 = key
    · rw [if_neg (by simpa using removed), ih, beq_eq_false_iff_ne.2 (removed ▸ differs)]
    · rw [if_pos (by simpa using removed), List.lookup_cons, ih]

/-- Nothing is found of a key whose entries have been removed. -/
theorem lookup_filter_self (key : α) (entries : List (α × β)) :
    (entries.filter fun e => e.1 != key).lookup key = none := by
  refine List.lookup_eq_none_iff.2 fun e member => ?_
  have kept : e.1 ≠ key := by simpa using (List.mem_filter.1 member).2
  simpa using Ne.symm kept

/-- A frame holds the value that a variable has been given last. -/
theorem Frame.find?_set {α : Type} (f : Frame α) (name : String) (v : α) (x : String) :
    (f.set name v).find? x = if x = name then some v else f.find? x := by
  unfold Frame.set Frame.find?
  rw [List.lookup_cons]
  by_cases same : x = name
  · rw [if_pos same, beq_iff_eq.2 same]
  · rw [if_neg same, beq_eq_false_iff_ne.2 same]
    exact lookup_filter_ne same f.vars

end ClassScript
