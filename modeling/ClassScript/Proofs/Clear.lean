import ClassScript.Proofs.Shapes

/-!
# Programs that are clear in their layout

The text in markup is laid out as it is, so it can mean something else there. `isClear` says that it
does not: no text directly behind a tag starts with an equals sign, which would join the angle bracket
of the tag, and where the reader looks ahead for a closing parenthesis, those of every text on the way
are balanced (`Expr.isSheltered`). Plain programs are clear (`Program.clear_of_plain`).
-/

namespace ClassScript

open Layout (strength exprStrength)

/-- Whether an operand can be told apart from the parameters of a lambda: if the layout puts it in
parentheses, those of its own tokens are balanced. -/
def Expr.isSheltered (context : Nat) (e : Expr) : Bool :=
  decide (exprStrength e < context → Balanced e.shapes)

/-- Whether the first child is a text. -/
def Child.startsText : List Child → Bool
  | .text .. :: _ => true
  | _ => false

/-- Whether the first child is a text that starts with an equals sign. -/
def Child.startsEqual : List Child → Bool
  | .text _ t :: _ => t.head?.any (Glyph.is '=')
  | _ => false

/-! ## Clear trees -/

mutual

/-- Whether an expression is clear. -/
def Expr.isClear : Expr → Bool
  | .name _ | .number .. | .string _ | .boolean .. | .null _ | .self _ | .parent _ => true
  | .binary _ op left right =>
    left.isClear && right.isClear && left.isSheltered (strength op) && right.isSheltered (strength op + 1)
  | .unary _ _ operand => operand.isClear && operand.isSheltered 8
  | .assign _ target value => target.isClear && value.isClear && value.isSheltered 1
  | .member _ object _ => object.isClear && object.isSheltered 9
  | .index _ object i => object.isClear && i.isClear && object.isSheltered 9
  | .call _ callee args => callee.isClear && Expr.areClear args && callee.isSheltered 9
  | .create _ type args => type.isPlain && Expr.areClear args
  | .array _ elements => Expr.areClear elements
  | .lambda _ params result body =>
    Param.areClear params && result.all TypeExpr.isPlain && body.isClear &&
      decide (Balanced (commas (Param.shapesAll params)))
  | .markup e => e.isClear

/-- Whether all expressions are clear. -/
def Expr.areClear : List Expr → Bool
  | [] => true
  | e :: es => e.isClear && Expr.areClear es

/-- Whether the expression, if there is one, is clear. -/
def Expr.isClearOption : Option Expr → Bool
  | none => true
  | some e => e.isClear

/-- Whether the type and the default value of a parameter are clear. -/
def Param.isClear : Param → Bool
  | ⟨_, _, type, fallback⟩ => type.all TypeExpr.isPlain && Expr.isClearOption fallback

/-- Whether all parameters are clear. -/
def Param.areClear : List Param → Bool
  | [] => true
  | p :: ps => p.isClear && Param.areClear ps

/-- Whether the body of a lambda is clear. -/
def LambdaBody.isClear : LambdaBody → Bool
  | .block b => b.isClear
  | .value e => e.isClear

/-- Whether an element is clear. -/
def Element.isClear : Element → Bool
  | ⟨_, _, attributes, children, _⟩ =>
    Attribute.areClear attributes && Child.areClear children && !Child.startsEqual children

/-- Whether the values of attributes are clear. -/
def Attribute.areClear : List Attribute → Bool
  | [] => true
  | ⟨_, _, value⟩ :: rest => value.isClear && Attribute.areClear rest

/-- Whether children are clear. -/
def Child.areClear : List Child → Bool
  | [] => true
  | .element e :: rest =>
    e.isClear && Child.areClear rest && (e.selfClosing || !Child.startsEqual rest)
  | .text .. :: rest => Child.areClear rest
  | .hole _ e :: rest => e.isClear && Child.areClear rest

/-- Whether the statements of a block are clear. -/
def Block.isClear : Block → Bool
  | ⟨_, statements⟩ => Stmt.areClear statements

/-- Whether the block, if there is one, is clear. -/
def Block.isClearOption : Option Block → Bool
  | none => true
  | some b => b.isClear

/-- Whether an arm is clear. -/
def Arm.isClear : Arm → Bool
  | ⟨_, value, body⟩ => value.isClear && body.isClear

/-- Whether all arms are clear. -/
def Arm.areClear : List Arm → Bool
  | [] => true
  | a :: rest => a.isClear && Arm.areClear rest

/-- Whether a statement is clear. -/
def Stmt.isClear : Stmt → Bool
  | .uses .. => true
  | .binds _ _ type value => type.all TypeExpr.isPlain && Expr.isClearOption value
  | .block b => b.isClear
  | .branch _ condition yes no => condition.isClear && yes.isClear && Stmt.isClearOption no
  | .select _ subject arms fallback =>
    subject.isClear && Arm.areClear arms && Block.isClearOption fallback
  | .each _ _ iterable body => iterable.isClear && body.isClear
  | .returns _ value => Expr.isClearOption value
  | .does _ e => e.isClear
  | .declares d => d.isClear

/-- Whether the statement, if there is one, is clear. -/
def Stmt.isClearOption : Option Stmt → Bool
  | none => true
  | some s => s.isClear

/-- Whether all statements are clear. -/
def Stmt.areClear : List Stmt → Bool
  | [] => true
  | s :: ss => s.isClear && Stmt.areClear ss

/-- Whether the type and the initial value of a field are clear. -/
def Field.isClear : Field → Bool
  | ⟨_, _, _, _, type, init⟩ => type.all TypeExpr.isPlain && Expr.isClearOption init

/-- Whether all fields are clear. -/
def Field.areClear : List Field → Bool
  | [] => true
  | f :: fs => f.isClear && Field.areClear fs

/-- Whether the parameters, the result type and the body of a method are clear. -/
def Method.isClear : Method → Bool
  | ⟨_, _, _, _, _, _, params, result, body⟩ =>
    Param.areClear params && result.all TypeExpr.isPlain && Block.isClearOption body

/-- Whether all methods are clear. -/
def Method.areClear : List Method → Bool
  | [] => true
  | m :: ms => m.isClear && Method.areClear ms

/-- Whether the heading and the members of a declaration are clear. -/
def Declaration.isClear : Declaration → Bool
  | ⟨_, _, heading, _, _, fields, methods⟩ =>
    heading.isPlain && Field.areClear fields && Method.areClear methods

end

/-- Whether a program has no nullable function type and all its markup is clear. -/
def Program.isClear (p : Program) : Bool := Stmt.areClear p.statements

/-! ## Plain trees are clear -/

theorem Expr.sheltered_iff {e : Expr} {context : Nat} :
    e.isSheltered context = true ↔ (exprStrength e < context → Balanced e.shapes) := decide_eq_true_iff

/-- An operand of a plain tree can be told apart, since its parentheses are balanced. -/
theorem Expr.sheltered_of_plain {e : Expr} (plain : e.isPlain = true) (context : Nat) :
    e.isSheltered context = true := sheltered_iff.2 fun _ => e.balanced plain

mutual

theorem Expr.clear_of_plain : ∀ e : Expr, e.isPlain = true → e.isClear = true
  | .name _, _ | .number .., _ | .string _, _ | .boolean .., _ | .null _, _ | .self _, _
  | .parent _, _ => rfl
  | .binary _ op left right, plain => by
    rw [Expr.isPlain, Bool.and_eq_true] at plain
    simp only [Expr.isClear, Expr.clear_of_plain left plain.1, Expr.clear_of_plain right plain.2,
      Expr.sheltered_of_plain plain.1, Expr.sheltered_of_plain plain.2, Bool.and_self]
  | .unary _ _ operand, plain => by
    rw [Expr.isPlain] at plain
    simp only [Expr.isClear, Expr.clear_of_plain operand plain, Expr.sheltered_of_plain plain, Bool.and_self]
  | .assign _ target value, plain => by
    rw [Expr.isPlain, Bool.and_eq_true] at plain
    simp only [Expr.isClear, Expr.clear_of_plain target plain.1, Expr.clear_of_plain value plain.2,
      Expr.sheltered_of_plain plain.2, Bool.and_self]
  | .member _ object _, plain => by
    rw [Expr.isPlain] at plain
    simp only [Expr.isClear, Expr.clear_of_plain object plain, Expr.sheltered_of_plain plain, Bool.and_self]
  | .index _ object i, plain => by
    rw [Expr.isPlain, Bool.and_eq_true] at plain
    simp only [Expr.isClear, Expr.clear_of_plain object plain.1, Expr.clear_of_plain i plain.2,
      Expr.sheltered_of_plain plain.1, Bool.and_self]
  | .call _ callee args, plain => by
    rw [Expr.isPlain, Bool.and_eq_true] at plain
    simp only [Expr.isClear, Expr.clear_of_plain callee plain.1, Expr.clear_of_plain_all args plain.2,
      Expr.sheltered_of_plain plain.1, Bool.and_self]
  | .create _ type args, plain => by
    rw [Expr.isPlain, Bool.and_eq_true] at plain
    simp only [Expr.isClear, plain.1, Expr.clear_of_plain_all args plain.2, Bool.and_self]
  | .array _ elements, plain => Expr.clear_of_plain_all elements plain
  | .lambda _ params result body, plain => by
    rw [Expr.isPlain, Bool.and_eq_true, Bool.and_eq_true] at plain
    have balanced : Balanced (commas (Param.shapesAll params)) :=
      balanced_commas (Param.balancedAll params plain.1.1)
    simp only [Expr.isClear, Param.clear_of_plain_all params plain.1.1, plain.1.2,
      LambdaBody.clear_of_plain body plain.2, balanced, decide_true, Bool.and_self]

theorem Expr.clear_of_plain_all : ∀ es : List Expr, Expr.arePlain es = true → Expr.areClear es = true
  | [], _ => rfl
  | e :: es, plain => by
    rw [Expr.arePlain, Bool.and_eq_true] at plain
    rw [Expr.areClear, e.clear_of_plain plain.1, Expr.clear_of_plain_all es plain.2, Bool.and_self]

theorem Expr.clear_of_plain_option : ∀ e : Option Expr, Expr.isPlainOption e = true →
    Expr.isClearOption e = true
  | none, _ => rfl
  | some e, plain => e.clear_of_plain plain

theorem Param.clear_of_plain_all : ∀ ps : List Param, Param.arePlain ps = true → Param.areClear ps = true
  | [], _ => rfl
  | ⟨_, _, type, fallback⟩ :: ps, plain => by
    rw [Param.arePlain, Param.isPlain, Bool.and_eq_true, Bool.and_eq_true] at plain
    rw [Param.areClear, Param.isClear, plain.1.1, Expr.clear_of_plain_option fallback plain.1.2,
      Param.clear_of_plain_all ps plain.2, Bool.and_self, Bool.and_self]

theorem LambdaBody.clear_of_plain : ∀ b : LambdaBody, b.isPlain = true → b.isClear = true
  | .block b, plain => b.clear_of_plain plain
  | .value e, plain => e.clear_of_plain plain

theorem Block.clear_of_plain : ∀ b : Block, b.isPlain = true → b.isClear = true
  | ⟨_, statements⟩, plain => Stmt.clear_of_plain_all statements plain

theorem Block.clear_of_plain_option : ∀ b : Option Block, Block.isPlainOption b = true →
    Block.isClearOption b = true
  | none, _ => rfl
  | some b, plain => b.clear_of_plain plain

theorem Arm.clear_of_plain_all : ∀ as : List Arm, Arm.arePlain as = true → Arm.areClear as = true
  | [], _ => rfl
  | ⟨_, value, body⟩ :: rest, plain => by
    rw [Arm.arePlain, Arm.isPlain, Bool.and_eq_true, Bool.and_eq_true] at plain
    rw [Arm.areClear, Arm.isClear, value.clear_of_plain plain.1.1, body.clear_of_plain plain.1.2,
      Arm.clear_of_plain_all rest plain.2, Bool.and_self, Bool.and_self]

theorem Stmt.clear_of_plain : ∀ s : Stmt, s.isPlain = true → s.isClear = true
  | .uses .., _ => rfl
  | .binds _ _ type value, plain => by
    rw [Stmt.isPlain, Bool.and_eq_true] at plain
    rw [Stmt.isClear, plain.1, Expr.clear_of_plain_option value plain.2, Bool.and_self]
  | .block b, plain => b.clear_of_plain plain
  | .branch _ condition yes no, plain => by
    rw [Stmt.isPlain, Bool.and_eq_true, Bool.and_eq_true] at plain
    rw [Stmt.isClear, condition.clear_of_plain plain.1.1, yes.clear_of_plain plain.1.2,
      Stmt.clear_of_plain_option no plain.2, Bool.and_self, Bool.and_self]
  | .select _ subject arms fallback, plain => by
    rw [Stmt.isPlain, Bool.and_eq_true, Bool.and_eq_true] at plain
    rw [Stmt.isClear, subject.clear_of_plain plain.1.1, Arm.clear_of_plain_all arms plain.1.2,
      Block.clear_of_plain_option fallback plain.2, Bool.and_self, Bool.and_self]
  | .each _ _ iterable body, plain => by
    rw [Stmt.isPlain, Bool.and_eq_true] at plain
    rw [Stmt.isClear, iterable.clear_of_plain plain.1, body.clear_of_plain plain.2, Bool.and_self]
  | .returns _ value, plain => Expr.clear_of_plain_option value plain
  | .does _ e, plain => e.clear_of_plain plain
  | .declares d, plain => d.clear_of_plain plain

theorem Stmt.clear_of_plain_option : ∀ s : Option Stmt, Stmt.isPlainOption s = true →
    Stmt.isClearOption s = true
  | none, _ => rfl
  | some s, plain => s.clear_of_plain plain

theorem Stmt.clear_of_plain_all : ∀ ss : List Stmt, Stmt.arePlain ss = true → Stmt.areClear ss = true
  | [], _ => rfl
  | s :: ss, plain => by
    rw [Stmt.arePlain, Bool.and_eq_true] at plain
    rw [Stmt.areClear, s.clear_of_plain plain.1, Stmt.clear_of_plain_all ss plain.2, Bool.and_self]

theorem Field.clear_of_plain_all : ∀ fs : List Field, Field.arePlain fs = true → Field.areClear fs = true
  | [], _ => rfl
  | ⟨_, _, _, _, type, init⟩ :: rest, plain => by
    rw [Field.arePlain, Field.isPlain, Bool.and_eq_true, Bool.and_eq_true] at plain
    rw [Field.areClear, Field.isClear, plain.1.1, Expr.clear_of_plain_option init plain.1.2,
      Field.clear_of_plain_all rest plain.2, Bool.and_self, Bool.and_self]

theorem Method.clear_of_plain_all : ∀ ms : List Method, Method.arePlain ms = true →
    Method.areClear ms = true
  | [], _ => rfl
  | ⟨_, _, _, _, _, _, params, result, body⟩ :: rest, plain => by
    rw [Method.arePlain, Method.isPlain, Bool.and_eq_true, Bool.and_eq_true, Bool.and_eq_true] at plain
    rw [Method.areClear, Method.isClear, Param.clear_of_plain_all params plain.1.1.1, plain.1.1.2,
      Block.clear_of_plain_option body plain.1.2, Method.clear_of_plain_all rest plain.2, Bool.and_self,
      Bool.and_self, Bool.and_self]

theorem Declaration.clear_of_plain : ∀ d : Declaration, d.isPlain = true → d.isClear = true
  | ⟨_, _, heading, _, _, fields, methods⟩, plain => by
    rw [Declaration.isPlain, Bool.and_eq_true, Bool.and_eq_true] at plain
    rw [Declaration.isClear, plain.1.1, Field.clear_of_plain_all fields plain.1.2,
      Method.clear_of_plain_all methods plain.2, Bool.and_self, Bool.and_self]

end

/-- A program without markup and nullable function types is clear. -/
theorem Program.clear_of_plain {p : Program} (plain : p.isPlain = true) : p.isClear = true :=
  Stmt.clear_of_plain_all p.statements plain

end ClassScript
