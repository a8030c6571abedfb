import ClassScript.Evaluation.Calls
import ClassScript.Proofs.Agreement
import ClassScript.Proofs.Gives
import ClassScript.Typing.Program

/-!
Programs without declarations, calls and iteration, and what it means that typing accepts them. Each
construct of the fragment has one lemma that says what must hold if it is accepted
(`gives_infer_binary`, `gives_check_binds` and so on), so that no later proof opens the typing rules.
-/

namespace ClassScript

/-! ## The fragment -/

/-- Whether an expression is built from literals, names, operators and assignments to names. -/
def Expr.isFirstOrder : Expr → Bool
  | .name _ | .number .. | .string _ | .boolean .. | .null _ => true
  | .unary _ _ operand => operand.isFirstOrder
  | .binary _ _ left right => left.isFirstOrder && right.isFirstOrder
  | .assign _ (.name _) value => value.isFirstOrder
  | _ => false

/-- Whether a type is a primitive type or `mixed`, possibly nullable. -/
def TypeExpr.isFirstOrder : TypeExpr → Bool
  | .simple _ name _ => ["number", "string", "boolean", "mixed"].contains name
  | _ => false

/-- Whether a statement can follow `else`. -/
def Stmt.isAlternative : Stmt → Bool
  | .block _ | .branch .. => true
  | _ => false

mutual

/-- Whether a statement is a binding with an initial value, an expression, a block, a branch, a
selection or a return, all from first-order expressions. -/
def Stmt.isFirstOrder : Stmt → Bool
  | .does _ e => e.isFirstOrder
  | .binds _ _ none (some e) => e.isFirstOrder
  | .binds _ _ (some t) (some e) => t.isFirstOrder && e.isFirstOrder
  | .block b => b.isFirstOrder
  | .branch _ condition yes none => condition.isFirstOrder && yes.isFirstOrder
  | .branch _ condition yes (some no) =>
    condition.isFirstOrder && yes.isFirstOrder && no.isAlternative && no.isFirstOrder
  | .select _ subject arms none => subject.isFirstOrder && Arm.areFirstOrder arms
  | .select _ subject arms (some b) => subject.isFirstOrder && Arm.areFirstOrder arms && b.isFirstOrder
  | .returns _ none => true
  | .returns _ (some e) => e.isFirstOrder
  | _ => false

/-- Whether the statements of a block are first-order. -/
def Block.isFirstOrder : Block → Bool
  | ⟨_, statements⟩ => Stmt.areFirstOrder statements

/-- Whether statements are first-order. -/
def Stmt.areFirstOrder : List Stmt → Bool
  | [] => true
  | s :: ss => s.isFirstOrder && Stmt.areFirstOrder ss

/-- Whether the values and bodies of arms are first-order. -/
def Arm.areFirstOrder : List Arm → Bool
  | [] => true
  | ⟨_, value, body⟩ :: as => value.isFirstOrder && body.isFirstOrder && Arm.areFirstOrder as

end

/-- Whether the statements of a program are first-order; it then has no declarations and no imports. -/
def LinkedProgram.isFirstOrder (p : LinkedProgram) : Bool := p.statements.all fun s => s.statement.isFirstOrder

/-! ## What typing finds -/

namespace Typing

variable {α β : Type} {c : Context}

theorem gives_accepts {slot value : Ty} {b : Bool} (gives : Gives (accepts slot value) c b) :
    ∃ table fuel, TypeTable.accepts? table fuel slot value = some b := by
  obtain ⟨c', read', gives⟩ := gives_bind gives
  split at gives
  · next answer found => exact ⟨_, _, gives_pure gives ▸ found⟩
  · obtain ⟨p, p', ran⟩ := gives
    cases ran

/-- A slot takes values of a type, by some declarations. -/
def Takes (slot value : Ty) : Prop := ∃ table fuel, TypeTable.accepts? table fuel slot value = some true

theorem gives_requireAccepts {slot value : Ty} {span : Span} {fault : TypeFault} {u : Unit}
    (gives : Gives (requireAccepts slot value span fault) c u) : Takes slot value := by
  obtain ⟨b, asked, required⟩ := gives_bind gives
  have yes := gives_require required
  subst yes
  exact gives_accepts asked

/-- A value of a type that a slot takes is a value of the slot's type, unless that is unknown. -/
theorem holds_of_takes {slot t : Ty} {v : Value} (takes : Takes slot t) (known : slot.isVar = false)
    (holds : Holds t v) : Holds slot v := by
  obtain ⟨table, fuel, found⟩ := takes
  have primitive := isPrimitive_of_holds holds
  cases fuel with
  | zero => cases found
  | succ fuel =>
    cases slot with
    | mixed => exact primitive
    | nullable inner => exact primitive
    | var x => simp [Ty.isVar] at known
    | _ =>
      cases t <;> first
        | exact holds
        | exact False.elim holds
        | simp [TypeTable.accepts?] at found

theorem isVar_of_holds {t : Ty} {v : Value} (holds : Holds t v) : t.isVar = false := by
  cases t with
  | var x => exact False.elim holds
  | _ => rfl

variable {scope : Scope} {expected : Option Ty} {t : Ty}

theorem gives_nameType {id : Name} (bare : c.registry = []) (gives : Gives (nameType scope id) c t) :
    ∃ b, scope.find? id.text = some b ∧ t = b.type := by
  unfold nameType at gives
  split at gives
  · next b found => exact ⟨b, found, gives_pure gives⟩
  · obtain ⟨c', readGives, gives⟩ := gives_bind gives
    have same := gives_read readGives
    subst same
    simp only [bare, Registry.find?, List.find?_nil] at gives
    exact absurd gives not_gives_reject

theorem gives_infer_name {id : Name} (bare : c.registry = []) (gives : Gives (infer scope expected (.name id)) c t) :
    ∃ b, scope.find? id.text = some b ∧ t = b.type := by
  unfold infer at gives
  exact gives_nameType bare (gives_noting gives)

theorem gives_infer_unary {m : Mark} {op : UnaryOp} {operand : Expr}
    (gives : Gives (infer scope expected (.unary m op operand)) c t) :
    ∃ t', Gives (infer scope none operand) c t' ∧ Takes (unaryType op) t' ∧ t = unaryType op := by
  unfold infer at gives
  obtain ⟨t', inner, gives⟩ := gives_bind (gives_noting gives)
  obtain ⟨_, required, gives⟩ := gives_bind gives
  exact ⟨t', inner, gives_requireAccepts required, gives_pure gives⟩

theorem gives_infer_assign {m : Mark} {id : Name} {value : Expr}
    (gives : Gives (infer scope expected (.assign m (.name id) value)) c t) :
    ∃ b got, scope.find? id.text = some b ∧ Gives (infer scope (some b.type) value) c got ∧ Takes b.type got ∧
      t = b.type := by
  unfold infer at gives
  obtain ⟨want, target, gives⟩ := gives_bind (gives_noting gives)
  obtain ⟨got, inner, gives⟩ := gives_bind gives
  obtain ⟨_, required, gives⟩ := gives_bind gives
  unfold assignedName at target
  split at target
  · next b found =>
    obtain ⟨_, -, target⟩ := gives_bind target
    obtain ⟨_, -, target⟩ := gives_bind target
    have same := gives_pure target
    subst same
    exact ⟨b, got, found, inner, gives_requireAccepts required, gives_pure gives⟩
  · obtain ⟨_, -, target⟩ := gives_bind target
    exact absurd target not_gives_reject

/-- What an operator asks of its operands, and the type of its result. -/
inductive Operates : BinaryOp → Ty → Ty → Ty → Prop where
  | joins {l r : Ty} (text : l = .string ∨ r = .string) : Operates .add l r .string
  | computes {op : BinaryOp} {l r : Ty} (numeric : op ∈ [.add, .sub, .mul, .div, .rem]) (left : Takes .number l)
      (right : Takes .number r) : Operates op l r .number
  | compares {op : BinaryOp} {l r : Ty} (order : op ∈ [.less, .greater, .lessEq, .greaterEq])
      (left : Takes .number l) (right : Takes .number r) : Operates op l r .boolean
  | equates {op : BinaryOp} {l r : Ty} (equality : op ∈ [.equal, .notEqual]) : Operates op l r .boolean
  | connects {op : BinaryOp} {l r : Ty} (logic : op ∈ [.and, .or]) (left : Takes .boolean l)
      (right : Takes .boolean r) : Operates op l r .boolean

private theorem gives_both {want l r result : Ty} {t? : Option Ty}
    (gives : Gives (bind (do return (← accepts want l) && (← accepts want r)) fun ok =>
      pure (if ok then some result else none)) c t?) (found : t? = some t) :
    t = result ∧ Takes want l ∧ Takes want r := by
  obtain ⟨ok, both, gives⟩ := gives_bind gives
  obtain ⟨a, left, both⟩ := gives_bind both
  obtain ⟨b, right, both⟩ := gives_bind both
  have isBoth := gives_pure both
  have same := gives_pure gives
  subst isBoth
  rw [found] at same
  cases a with
  | false => simp at same
  | true =>
    cases b with
    | false => simp at same
    | true => exact ⟨by simpa using same, gives_accepts left, gives_accepts right⟩

/-- An operation that is accepted asks of its operands what the operator needs. -/
theorem gives_binaryType {span : Span} {op : BinaryOp} {l r : Ty} (gives : Gives (binaryType span op l r) c t) :
    Operates op l r t := by
  obtain ⟨t?, gives, final⟩ := gives_bind gives
  cases t? with
  | none => exact absurd final not_gives_reject
  | some t' =>
    have same := gives_pure final
    subst same
    cases op with
    | add =>
      simp only [binaryType?] at gives
      split at gives
      · have same := Option.some.inj (gives_pure gives)
        subst same
        exact .joins (.inl rfl)
      · have same := Option.some.inj (gives_pure gives)
        subst same
        exact .joins (.inr rfl)
      · obtain ⟨rfl, left, right⟩ := gives_both gives rfl
        exact .computes (by simp) left right
    | sub =>
      obtain ⟨rfl, left, right⟩ := gives_both gives rfl
      exact .computes (by simp) left right
    | mul =>
      obtain ⟨rfl, left, right⟩ := gives_both gives rfl
      exact .computes (by simp) left right
    | div =>
      obtain ⟨rfl, left, right⟩ := gives_both gives rfl
      exact .computes (by simp) left right
    | rem =>
      obtain ⟨rfl, left, right⟩ := gives_both gives rfl
      exact .computes (by simp) left right
    | less =>
      obtain ⟨rfl, left, right⟩ := gives_both gives rfl
      exact .compares (by simp) left right
    | greater =>
      obtain ⟨rfl, left, right⟩ := gives_both gives rfl
      exact .compares (by simp) left right
    | lessEq =>
      obtain ⟨rfl, left, right⟩ := gives_both gives rfl
      exact .compares (by simp) left right
    | greaterEq =>
      obtain ⟨rfl, left, right⟩ := gives_both gives rfl
      exact .compares (by simp) left right
    | and =>
      obtain ⟨rfl, left, right⟩ := gives_both gives rfl
      exact .connects (by simp) left right
    | or =>
      obtain ⟨rfl, left, right⟩ := gives_both gives rfl
      exact .connects (by simp) left right
    | equal | notEqual =>
      obtain ⟨b, -, gives⟩ := gives_bind gives
      have same := gives_pure gives
      cases b with
      | false => simp at same
      | true =>
        have isBoolean : t = .boolean := by simpa using same
        subst isBoolean
        exact .equates (by simp)

theorem gives_infer_binary {m : Mark} {op : BinaryOp} {left right : Expr}
    (gives : Gives (infer scope expected (.binary m op left right)) c t) :
    ∃ l r, Gives (infer scope none left) c l ∧ Gives (infer scope none right) c r ∧ Operates op l r t := by
  unfold infer at gives
  obtain ⟨l, leftGives, gives⟩ := gives_bind (gives_noting gives)
  obtain ⟨r, rightGives, gives⟩ := gives_bind gives
  exact ⟨l, r, leftGives, rightGives, gives_binaryType gives⟩

/-! ## What checking statements finds -/

variable {after : Scope}

theorem gives_check_does {m : Mark} {e : Expr} (gives : Gives (check scope (.does m e)) c after) :
    after = scope ∧ ∃ t, Gives (infer scope none e) c t := by
  unfold check at gives
  obtain ⟨t, inner, gives⟩ := gives_bind gives
  exact ⟨gives_pure gives, t, inner⟩

/-- Converting a primitive value gives a primitive value. -/
theorem isPrimitive_coerce (type : Option TypeExpr) {v : Value} (primitive : v.isPrimitive = true) :
    (Evaluation.coerce type v).isPrimitive = true := by
  unfold Evaluation.coerce
  split
  · next s _ => cases Number.read s.shown <;> rfl
  · rfl
  · rfl
  · next s _ => cases Number.readTruth s.shown <;> rfl
  · exact primitive

/-- A first-order type that is written is known, and converting to it keeps the values of the type. -/
theorem gives_written {type : TypeExpr} (bare : c.registry = []) (closed : c.typeParams = [])
    (simple : type.isFirstOrder = true) (gives : Gives (written type) c t) :
    t.isVar = false ∧ ∀ v, Holds t v → Holds t (Evaluation.coerce (some type) v) := by
  cases type with
  | simple m name nullable =>
    unfold written at gives
    obtain ⟨t', namedGives, final⟩ := gives_bind gives
    obtain ⟨c', readGives, namedGives⟩ := gives_bind namedGives
    have sameContext := gives_read readGives
    subst sameContext
    simp only [bare, closed, List.lookup_nil, Registry.find?, List.find?_nil] at namedGives
    have known : ∃ base, primitive? name = some base ∧ base.isVar = false ∧
        (∀ v, Holds base v → Holds base (Evaluation.coerce (some (.simple m name nullable)) v)) ∧
        (base.orNull = .mixed ∨ base.orNull = .nullable base) := by
      simp only [TypeExpr.isFirstOrder, List.contains_eq_mem, List.mem_cons, List.not_mem_nil, or_false,
        decide_eq_true_eq] at simple
      rcases simple with rfl | rfl | rfl | rfl
      · refine ⟨.number, rfl, rfl, fun v holds => ?_, .inr rfl⟩
        obtain ⟨x, rfl⟩ := holds_number holds
        exact trivial
      · refine ⟨.string, rfl, rfl, fun v holds => ?_, .inr rfl⟩
        obtain ⟨x, rfl⟩ := holds_string holds
        exact trivial
      · refine ⟨.boolean, rfl, rfl, fun v holds => ?_, .inr rfl⟩
        obtain ⟨x, rfl⟩ := holds_boolean holds
        exact trivial
      · exact ⟨.mixed, rfl, rfl, fun v holds => isPrimitive_coerce _ holds, .inl rfl⟩
    obtain ⟨base, isPrimitive, notVar, keeps, withNull⟩ := known
    simp only [isPrimitive] at namedGives
    obtain ⟨_, -, namedGives⟩ := gives_bind namedGives
    rw [gives_pure final, gives_pure namedGives]
    unfold marked
    split
    · rcases withNull with isMixed | isNullable
      · rw [isMixed]
        exact ⟨rfl, fun v holds => isPrimitive_coerce _ holds⟩
      · rw [isNullable]
        exact ⟨rfl, fun v holds => isPrimitive_coerce _ holds⟩
    · exact ⟨notVar, keeps⟩
  | generic m name args nullable => simp [TypeExpr.isFirstOrder] at simple
  | function m params result nullable => simp [TypeExpr.isFirstOrder] at simple

/-- A binding that is accepted gives its variable a type that holds every value of its initial value's
type, converted as the type written says. -/
theorem gives_check_binds {m : Mark} {name : Name} {type : Option TypeExpr} {e : Expr} (bare : c.registry = [])
    (closed : c.typeParams = []) (simple : ∀ written ∈ type, written.isFirstOrder = true)
    (gives : Gives (check scope (.binds m name type (some e))) c after) :
    ∃ got bound wanted, Gives (infer scope wanted e) c got ∧ after = scope.define ⟨name.text, bound, false⟩ ∧
      ∀ v, Holds got v → Holds bound (Evaluation.coerce type v) := by
  unfold check at gives
  obtain ⟨_, -, gives⟩ := gives_bind gives
  cases type with
  | none =>
    obtain ⟨declared, isNone, gives⟩ := gives_bind gives
    obtain ⟨got, inner, gives⟩ := gives_bind gives
    obtain ⟨value, isSome, gives⟩ := gives_bind gives
    obtain ⟨bound, boundGives, final⟩ := gives_bind gives
    have noType := gives_pure isNone
    have someValue := gives_pure isSome
    subst noType someValue
    refine ⟨got, bound, none, inner, gives_pure final, ?_⟩
    unfold boundType at boundGives
    obtain ⟨_, -, boundGives⟩ := gives_bind boundGives
    dsimp only at boundGives
    split at boundGives
    · obtain ⟨x, freshGives, boundGives⟩ := gives_bind boundGives
      obtain ⟨y, -, varGives⟩ := gives_bind freshGives
      have isFresh := gives_pure varGives
      have isNullable := gives_pure boundGives
      subst isFresh isNullable
      intro v holds
      exact isPrimitive_coerce none (isPrimitive_of_holds holds)
    · have same := gives_pure boundGives
      subst same
      exact fun v holds => holds
  | some type =>
    obtain ⟨declared, mapped, gives⟩ := gives_bind gives
    obtain ⟨got, inner, gives⟩ := gives_bind gives
    obtain ⟨value, isSome, gives⟩ := gives_bind gives
    obtain ⟨bound, boundGives, final⟩ := gives_bind gives
    have someValue := gives_pure isSome
    subst someValue
    refine ⟨got, bound, declared, inner, gives_pure final, ?_⟩
    rw [map_eq_pure_bind] at mapped
    obtain ⟨want, writtenGives, mapped⟩ := gives_bind mapped
    have isWant := gives_pure mapped
    subst isWant
    obtain ⟨known, keeps⟩ := gives_written bare closed (simple type rfl) writtenGives
    unfold boundType at boundGives
    obtain ⟨_, -, boundGives⟩ := gives_bind boundGives
    obtain ⟨_, required, boundGives⟩ := gives_bind boundGives
    have same := gives_pure boundGives
    subst same
    exact fun v holds => keeps v (holds_of_takes (gives_requireAccepts required) known holds)

theorem gives_checkBlock {b : Block} {u : Unit} (gives : Gives (checkBlock scope b) c u) :
    ∃ inner, Gives (checkAll (scope.enter []) b.statements) c inner := by
  obtain ⟨m, statements⟩ := b
  unfold checkBlock at gives
  obtain ⟨inner, all, -⟩ := gives_bind gives
  exact ⟨inner, all⟩

theorem gives_checkAll {s : Stmt} {ss : List Stmt} (gives : Gives (checkAll scope (s :: ss)) c after) :
    ∃ between, Gives (check scope s) c between ∧ Gives (checkAll between ss) c after := by
  unfold checkAll at gives
  exact gives_bind gives

theorem gives_check_block {b : Block} (gives : Gives (check scope (.block b)) c after) :
    after = scope ∧ Gives (checkBlock scope b) c () := by
  unfold check at gives
  obtain ⟨_, inner, gives⟩ := gives_bind gives
  exact ⟨gives_pure gives, inner⟩

theorem gives_check_branch {m : Mark} {condition : Expr} {yes : Block} {no : Option Stmt}
    (gives : Gives (check scope (.branch m condition yes no)) c after) :
    after = scope ∧ (∃ t, Gives (infer scope (some .boolean) condition) c t ∧ Takes .boolean t) ∧
      Gives (checkBlock scope yes) c () ∧ ∀ s ∈ no, ∃ inner, Gives (check scope s) c inner := by
  unfold check at gives
  obtain ⟨t, conditionGives, gives⟩ := gives_bind gives
  obtain ⟨_, required, gives⟩ := gives_bind gives
  obtain ⟨_, yesGives, gives⟩ := gives_bind gives
  cases no with
  | none => exact ⟨gives_pure gives, ⟨t, conditionGives, gives_requireAccepts required⟩, yesGives, by simp⟩
  | some s =>
    obtain ⟨inner, noGives, gives⟩ := gives_bind gives
    refine ⟨gives_pure gives, ⟨t, conditionGives, gives_requireAccepts required⟩, yesGives, ?_⟩
    intro s' member
    cases member
    exact ⟨inner, noGives⟩

theorem gives_checkArms {subject : Ty} {arm : Arm} {arms : List Arm} {u : Unit}
    (gives : Gives (checkArms scope subject (arm :: arms)) c u) :
    (∃ t, Gives (infer scope (some subject) arm.value) c t) ∧ Gives (checkBlock scope arm.body) c () ∧
      Gives (checkArms scope subject arms) c () := by
  obtain ⟨m, value, body⟩ := arm
  unfold checkArms at gives
  obtain ⟨t, valueGives, gives⟩ := gives_bind gives
  obtain ⟨_, -, gives⟩ := gives_bind gives
  obtain ⟨_, bodyGives, gives⟩ := gives_bind gives
  exact ⟨⟨t, valueGives⟩, bodyGives, gives⟩

theorem gives_check_select {m : Mark} {subject : Expr} {arms : List Arm} {fallback : Option Block}
    (gives : Gives (check scope (.select m subject arms fallback)) c after) :
    after = scope ∧ (∃ t, Gives (infer scope none subject) c t ∧ Gives (checkArms scope t arms) c ()) ∧
      ∀ b ∈ fallback, Gives (checkBlock scope b) c () := by
  unfold check at gives
  obtain ⟨t, subjectGives, gives⟩ := gives_bind gives
  obtain ⟨_, armsGive, gives⟩ := gives_bind gives
  cases fallback with
  | none => exact ⟨gives_pure gives, ⟨t, subjectGives, armsGive⟩, by simp⟩
  | some b =>
    obtain ⟨_, fallbackGives, gives⟩ := gives_bind gives
    refine ⟨gives_pure gives, ⟨t, subjectGives, armsGive⟩, ?_⟩
    intro b' member
    cases member
    exact fallbackGives

theorem gives_check_returns {m : Mark} {value : Option Expr} (gives : Gives (check scope (.returns m value)) c after) :
    after = scope ∧ ∀ e ∈ value, ∃ want t, Gives (infer scope want e) c t := by
  unfold check at gives
  obtain ⟨c', -, gives⟩ := gives_bind gives
  cases value with
  | none =>
    obtain ⟨_, -, gives⟩ := gives_bind gives
    exact ⟨gives_pure gives, by simp⟩
  | some e =>
    obtain ⟨_, -, gives⟩ := gives_bind gives
    obtain ⟨t, inner, gives⟩ := gives_bind gives
    obtain ⟨_, -, gives⟩ := gives_bind gives
    refine ⟨gives_pure gives, ?_⟩
    intro e' member
    cases member
    exact ⟨_, t, inner⟩

/-- A first-order statement adds at most one variable to the scope. -/
theorem check_adds {st : Stmt} (simple : st.isFirstOrder = true) (bare : c.registry = []) (closed : c.typeParams = [])
    (gives : Gives (check scope st) c after) : after = scope ∨ ∃ b, after = scope.define b := by
  cases st with
  | does m e => exact .inl (gives_check_does gives).1
  | binds m name type value =>
    cases value with
    | none => cases type <;> simp [Stmt.isFirstOrder] at simple
    | some e =>
      have typeSimple : ∀ written ∈ type, written.isFirstOrder = true := by
        intro written member
        cases member
        simp only [Stmt.isFirstOrder, Bool.and_eq_true] at simple
        exact simple.1
      obtain ⟨got, bound, wanted, -, defined, -⟩ := gives_check_binds bare closed typeSimple gives
      exact .inr ⟨_, defined⟩
  | block b => exact .inl (gives_check_block gives).1
  | branch m condition yes no => exact .inl (gives_check_branch gives).1
  | select m subject arms fallback => exact .inl (gives_check_select gives).1
  | returns m value => exact .inl (gives_check_returns gives).1
  | each m item iterable body => simp [Stmt.isFirstOrder] at simple
  | declares d => simp [Stmt.isFirstOrder] at simple
  | uses m names path => simp [Stmt.isFirstOrder] at simple

/-- Statements leave the frames around the innermost one alone. -/
theorem checkAll_outer {statements : List Stmt} (simple : Stmt.areFirstOrder statements = true)
    (bare : c.registry = []) (closed : c.typeParams = []) (gives : Gives (checkAll scope statements) c after)
    {frame : List Binding} {outer : List (List Binding)} (entered : scope.frames = frame :: outer) :
    ∃ frame', after.frames = frame' :: outer := by
  induction statements generalizing scope frame with
  | nil =>
    unfold checkAll at gives
    exact ⟨frame, by rw [gives_pure gives, entered]⟩
  | cons st statements ih =>
    obtain ⟨between, first, rest⟩ := gives_checkAll gives
    simp only [Stmt.areFirstOrder, Bool.and_eq_true] at simple
    rcases check_adds simple.1 bare closed first with rfl | ⟨b, rfl⟩
    · exact ih simple.2 rest entered
    · have defined : (scope.define b).frames = (b :: frame) :: outer := by simp [Scope.define, entered]
      exact ih simple.2 rest defined

end Typing

end ClassScript
