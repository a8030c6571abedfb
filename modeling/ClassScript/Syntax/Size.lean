import ClassScript.Syntax.Tree

/-!
The number of constructs in a tree. Without calls, running a tree nests no deeper than that.
-/

namespace ClassScript

mutual

/-- The constructs of an expression. -/
def Expr.size : Expr → Nat
  | .name _ | .number .. | .string _ | .boolean .. | .null _ | .self _ | .parent _ => 1
  | .binary _ _ l r => l.size + r.size + 1
  | .unary _ _ e => e.size + 1
  | .assign _ t v => t.size + v.size + 1
  | .member _ o _ => o.size + 1
  | .index _ o i => o.size + i.size + 1
  | .call _ c args => c.size + Expr.sizeAll args + 1
  | .create _ _ args => Expr.sizeAll args + 1
  | .array _ items => Expr.sizeAll items + 1
  | .lambda _ params _ (.block b) => Param.sizeAll params + b.size + 1
  | .lambda _ params _ (.value e) => Param.sizeAll params + e.size + 1
  | .markup e => e.size + 1

/-- The constructs of expressions. -/
def Expr.sizeAll : List Expr → Nat
  | [] => 0
  | e :: es => e.size + Expr.sizeAll es

/-- The constructs of default values. -/
def Param.sizeAll : List Param → Nat
  | [] => 0
  | ⟨_, _, _, none⟩ :: ps => Param.sizeAll ps
  | ⟨_, _, _, some e⟩ :: ps => e.size + Param.sizeAll ps

/-- The constructs of an element. -/
def Element.size : Element → Nat
  | ⟨_, _, attributes, children, _⟩ => Attribute.sizeAll attributes + Child.sizeAll children + 1

/-- The constructs of attributes. -/
def Attribute.sizeAll : List Attribute → Nat
  | [] => 0
  | ⟨_, _, e⟩ :: as => e.size + Attribute.sizeAll as

/-- The constructs between tags. -/
def Child.sizeAll : List Child → Nat
  | [] => 0
  | .element e :: cs => e.size + Child.sizeAll cs
  | .text .. :: cs => Child.sizeAll cs
  | .hole _ e :: cs => e.size + Child.sizeAll cs

/-- The constructs of a block. -/
def Block.size : Block → Nat
  | ⟨_, statements⟩ => Stmt.sizeAll statements + 1

/-- The constructs of statements. -/
def Stmt.sizeAll : List Stmt → Nat
  | [] => 0
  | s :: ss => s.size + Stmt.sizeAll ss

/-- The constructs of the arms of a selection. -/
def Arm.sizeAll : List Arm → Nat
  | [] => 0
  | ⟨_, e, b⟩ :: as => e.size + b.size + Arm.sizeAll as

/-- The constructs of a statement. -/
def Stmt.size : Stmt → Nat
  | .uses .. | .binds _ _ _ none | .returns _ none => 1
  | .binds _ _ _ (some e) | .returns _ (some e) | .does _ e => e.size + 1
  | .block b => b.size + 1
  | .branch _ c yes none => c.size + yes.size + 1
  | .branch _ c yes (some no) => c.size + yes.size + no.size + 1
  | .select _ s arms none => s.size + Arm.sizeAll arms + 1
  | .select _ s arms (some b) => s.size + Arm.sizeAll arms + b.size + 1
  | .each _ _ e b => e.size + b.size + 1
  | .declares ⟨_, _, _, _, _, fields, methods⟩ => Field.sizeAll fields + Method.sizeAll methods + 1

/-- The constructs of initial values. -/
def Field.sizeAll : List Field → Nat
  | [] => 0
  | ⟨_, _, _, _, _, none⟩ :: fs => Field.sizeAll fs
  | ⟨_, _, _, _, _, some e⟩ :: fs => e.size + Field.sizeAll fs

/-- The constructs of methods. -/
def Method.sizeAll : List Method → Nat
  | [] => 0
  | ⟨_, _, _, _, _, _, params, _, none⟩ :: ms => Param.sizeAll params + Method.sizeAll ms
  | ⟨_, _, _, _, _, _, params, _, some b⟩ :: ms =>
    Param.sizeAll params + b.size + Method.sizeAll ms

end

/-- The constructs of a linked program. -/
def LinkedProgram.size (p : LinkedProgram) : Nat := Stmt.sizeAll (p.statements.map (·.statement))

/-! ### Every tree is a construct, and holds its parts -/

theorem Block.size_pos (b : Block) : 0 < b.size := by
  obtain ⟨mark, statements⟩ := b
  rw [Block.size]
  omega

theorem Expr.size_pos (e : Expr) : 0 < e.size := by
  cases e with
  | lambda m params result body => cases body <;> rw [Expr.size] <;> omega
  | _ => rw [Expr.size]; omega

theorem Stmt.size_pos (s : Stmt) : 0 < s.size := by
  cases s with
  | binds m name type value => cases value <;> rw [Stmt.size] <;> omega
  | branch m condition yes no => cases no <;> rw [Stmt.size] <;> omega
  | select m subject arms fallback => cases fallback <;> rw [Stmt.size] <;> omega
  | returns m value => cases value <;> rw [Stmt.size] <;> omega
  | declares d =>
    obtain ⟨mark, annotations, heading, name, typeParams, fields, methods⟩ := d
    rw [Stmt.size]
    omega
  | _ => rw [Stmt.size]; omega

theorem Stmt.size_le_sizeAll {s : Stmt} {statements : List Stmt} (member : s ∈ statements) :
    s.size ≤ Stmt.sizeAll statements := by
  induction statements with
  | nil => exact absurd member List.not_mem_nil
  | cons t statements ih =>
    rw [Stmt.sizeAll]
    rcases List.mem_cons.1 member with rfl | later
    · omega
    · have rest := ih later
      omega

end ClassScript
