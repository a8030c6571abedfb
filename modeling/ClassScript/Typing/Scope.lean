import ClassScript.Types.Basic

/-!
Variables in scope while expressions are typed. A scope is a list of frames, innermost first, with
what encloses them: the class or interface, and whether its members run without an instance.
-/

namespace ClassScript.Typing

/-- A variable with its type. -/
structure Binding where
  name : String
  type : Ty
  isSelf : Bool
  deriving Inhabited

/-- The variables in scope. -/
structure Scope where
  /-- Frames of variables, innermost first; in a frame the newest variable comes first. -/
  frames : List (List Binding)
  /-- The class or interface whose members are typed. -/
  owner : Option Nominal
  isStatic : Bool
  /-- Whether the enclosing method is a constructor. -/
  inConstructor : Bool
  deriving Inhabited

namespace Scope

/-- The scope of top-level statements, with no variables yet. -/
def global : Scope := ⟨[[]], none, false, false⟩

/-- The variable of that name in the nearest frame that has one. -/
def find? (s : Scope) (name : String) : Option Binding :=
  s.frames.findSome? fun frame => frame.find? fun b => b.name == name

/-- Whether the innermost frame has a variable of that name. -/
def isLocal (s : Scope) (name : String) : Bool :=
  match s.frames with
  | frame :: _ => frame.any fun b => b.name == name
  | [] => false

/-- Adds a variable to the innermost frame. -/
def define (s : Scope) (b : Binding) : Scope :=
  match s.frames with
  | frame :: rest => { s with frames := (b :: frame) :: rest }
  | [] => { s with frames := [[b]] }

/-- Opens a frame with these variables, of which later ones hide earlier ones. -/
def enter (s : Scope) (bindings : List Binding) : Scope :=
  { s with frames := bindings.reverse :: s.frames }

/-- Opens the scope of the members of a class or interface; instances are bound to `this`. -/
def ofOwner (s : Scope) (owner : Nominal) (self : Ty) (self_name : String) (isStatic : Bool) : Scope :=
  let bound := if isStatic then [] else [⟨self_name, self, true⟩]
  { s.enter bound with owner := some owner, isStatic }

/-- The names in scope: frame by frame from the inside, sorted in each frame, each name once. -/
def names (s : Scope) : List String :=
  s.frames.foldl
    (fun seen frame =>
      seen ++ ((frame.map (·.name)).filter fun n => !seen.contains n).eraseDups.mergeSort (· ≤ ·))
    []

end Scope

end ClassScript.Typing
