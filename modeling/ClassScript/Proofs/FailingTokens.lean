import ClassScript.Proofs.ExpressionSpans
import ClassScript.Proofs.TokenPlaces

/-!
Where reading fails. Readers know no other tokens than those of their input, so that what they blame is one of them:
whatever a reader does among some tokens it does with them (`Reader.Heeds`). There is one rule for each way to put
readers together, and one lemma for each reader of the grammar, first relative to the readers of the constructs that
nest (`Grammar.Heedful`). So every failure of a source has the place of a token, or of what is no token
(`Program.fails_at_text`).
-/

namespace ClassScript

/-- The token taken last and those ahead are among these tokens. -/
structure Cursor.Among (tokens : List Token) (c : Cursor) : Prop where
  last : c.last ∈ tokens
  ahead : ∀ t ∈ c.ahead, t ∈ tokens

theorem Cursor.Among.head {tokens : List Token} {c : Cursor} (among : c.Among tokens) : c.ahead.headD c.last ∈ tokens := by
  obtain ⟨last, ahead⟩ := c
  cases ahead with
  | nil => exact among.last
  | cons t rest => exact among.ahead t List.mem_cons_self

namespace Reader

variable {α β : Type} {tokens : List Token}

/-- Among these tokens the reader goes on among them, with a result that has the property, or it fails at one of them. -/
def Heeds (tokens : List Token) (x : Reader α) (P : α → Prop) : Prop :=
  ∀ c : Cursor, c.Among tokens → (∀ a c', x c = .ok (a, c') → c'.Among tokens ∧ P a) ∧
    ∀ fault span, x c = .error (fault, span) → ∃ t ∈ tokens, span = t.span

/-! ## Rules -/

theorem heeds_pure {P : α → Prop} {a : α} (holds : P a) : Heeds tokens (pure a) P := by
  refine fun c among => ⟨fun a' c' run => ?_, fun _ _ failed => by cases failed⟩
  cases run
  exact ⟨among, holds⟩

theorem heeds_bind {x : Reader α} {f : α → Reader β} {P : α → Prop} {Q : β → Prop} (first : Heeds tokens x P)
    (rest : ∀ a, P a → Heeds tokens (f a) Q) : Heeds tokens (x >>= f) Q := by
  intro c among
  obtain ⟨goes, fails⟩ := first c among
  have unfolded : (x >>= f) c = (x c >>= fun r => f r.1 r.2) := rfl
  rw [unfolded]
  rcases ran : x c with ⟨fault, span⟩ | ⟨a, mid⟩
  · refine ⟨nofun, fun fault' span' failed => ?_⟩
    cases failed
    exact fails fault span ran
  · obtain ⟨amongMid, holds⟩ := goes a mid ran
    exact rest a holds mid amongMid

/-- A sequence whose second part asks nothing of the result of the first. -/
theorem heeds_then {x : Reader α} {f : α → Reader β} {P : α → Prop} {Q : β → Prop} (first : Heeds tokens x P)
    (rest : ∀ a, Heeds tokens (f a) Q) : Heeds tokens (x >>= f) Q := heeds_bind first fun a _ => rest a

theorem heeds_map {x : Reader α} {f : α → β} {P : α → Prop} (first : Heeds tokens x P) :
    Heeds tokens (do return f (← x)) fun _ => True := heeds_then first fun _ => heeds_pure trivial

theorem heeds_ite {x y : Reader α} {P : α → Prop} {condition : Prop} [Decidable condition] (yes : Heeds tokens x P)
    (no : Heeds tokens y P) : Heeds tokens (if condition then x else y) P := by
  split
  · exact yes
  · exact no

theorem heeds_get : Heeds tokens get (Cursor.Among tokens) := by
  refine fun c among => ⟨fun c' c'' run => ?_, fun _ _ failed => by cases failed⟩
  cases run
  exact ⟨among, among⟩

theorem heeds_peek : Heeds tokens peek (· ∈ tokens) := by
  refine fun c among => ⟨fun t c' run => ?_, fun _ _ failed => by cases failed⟩
  cases run
  exact ⟨among, among.head⟩

theorem heeds_next : Heeds tokens next (· ∈ tokens) := by
  rintro ⟨last, ahead⟩ among
  match ahead with
  | [] =>
    refine ⟨fun t c' run => ?_, fun _ _ failed => by cases failed⟩
    cases run
    exact ⟨among, among.last⟩
  | [t] =>
    refine ⟨fun t c' run => ?_, fun _ _ failed => by cases failed⟩
    cases run
    exact ⟨⟨among.ahead t List.mem_cons_self, among.ahead⟩, among.ahead t List.mem_cons_self⟩
  | t :: u :: rest =>
    refine ⟨fun t c' run => ?_, fun _ _ failed => by cases failed⟩
    cases run
    exact ⟨⟨among.ahead t List.mem_cons_self, fun u later => among.ahead u (List.mem_cons_of_mem t later)⟩,
      among.ahead t List.mem_cons_self⟩

theorem heeds_failAt {P : α → Prop} (fault : SyntaxFault) {t : Token} (found : t ∈ tokens) :
    Heeds tokens (failAt fault t : Reader α) P := by
  refine fun c _ => ⟨nofun, fun fault' span failed => ?_⟩
  cases failed
  exact ⟨t, found, rfl⟩

theorem heeds_unexpected {P : α → Prop} (what : String) {t : Token} (found : t ∈ tokens) :
    Heeds tokens (unexpected what t : Reader α) P := heeds_failAt _ found

theorem heeds_pure_bind {a : α} {f : α → Reader β} {Q : β → Prop} (rest : Heeds tokens (f a) Q) :
    Heeds tokens (pure a >>= f) Q := rest

/-- Nothing comes behind a failure. -/
theorem heeds_failing {x : Reader α} {f : α → Reader β} {Q : β → Prop} (fails : Heeds tokens x fun _ => False) :
    Heeds tokens (x >>= f) Q := heeds_bind fails fun _ impossible => impossible.elim

theorem heeds_exhausted {P : α → Prop} : Heeds tokens (do failAt .exhausted (← peek) : Reader α) P :=
  heeds_bind heeds_peek fun _ found => heeds_failAt _ found

theorem heeds_peekIs (k : TokenKind) : Heeds tokens (peekIs k) fun _ => True := heeds_map heeds_peek

theorem heeds_expect (k : TokenKind) : Heeds tokens (expect k) (· ∈ tokens) :=
  heeds_bind heeds_peek fun _ found => heeds_ite heeds_next (heeds_unexpected _ found)

theorem heeds_accept (k : TokenKind) : Heeds tokens (accept k) fun _ => True :=
  heeds_then (heeds_peekIs k) fun _ =>
    heeds_ite (heeds_then heeds_next fun _ => heeds_pure trivial) (heeds_pure trivial)

theorem heeds_spanFrom (start : Token) : Heeds tokens (spanFrom start) fun _ => True := heeds_map heeds_get

theorem heeds_markFrom (head start : Token) : Heeds tokens (markFrom head start) fun m => m.head = head :=
  heeds_then (heeds_spanFrom start) fun _ => heeds_pure rfl

section Lists

variable {p : Reader α} (item : Heeds tokens p fun _ => True)
include item

theorem heeds_commaRest (fuel : Nat) : Heeds tokens (commaRest p fuel) fun _ => True := by
  induction fuel with
  | zero => exact heeds_pure trivial
  | succ fuel ih =>
    exact heeds_then (heeds_accept _) fun _ =>
      heeds_ite (heeds_then item fun _ => heeds_map ih) (heeds_pure trivial)

theorem heeds_commaList : Heeds tokens (commaList p) fun _ => True :=
  heeds_then item fun _ => heeds_then heeds_get fun _ => heeds_map (heeds_commaRest item _)

theorem heeds_untilRest (stop : TokenKind) (fuel : Nat) : Heeds tokens (untilRest stop p fuel) fun _ => True := by
  induction fuel with
  | zero => exact heeds_exhausted
  | succ fuel ih =>
    exact heeds_bind heeds_peek fun _ found => heeds_ite (heeds_pure trivial)
      (heeds_ite (heeds_unexpected _ found) (heeds_then item fun _ => heeds_map ih))

theorem heeds_untilToken (stop : TokenKind) : Heeds tokens (untilToken stop p) fun _ => True :=
  heeds_then heeds_get fun _ => heeds_then (heeds_untilRest item stop _) fun _ =>
    heeds_then heeds_next fun _ => heeds_pure trivial

end Lists

end Reader

namespace Grammar

open Reader

variable {tokens : List Token} {g : Grammar} {depth : Nat}

/-- The readers of the constructs that nest fail at tokens. -/
structure Heedful (tokens : List Token) (g : Grammar) : Prop where
  statement : ∀ depth, Heeds tokens (g.statement depth) fun _ => True
  expression : ∀ depth precedence, Heeds tokens (g.expression depth precedence) fun _ => True
  type : ∀ depth, Heeds tokens (g.type depth) fun _ => True
  element : ∀ depth, Heeds tokens (g.element depth) fun _ => True

theorem heeds_enter (depth : Nat) : Heeds tokens (enter depth) fun _ => True :=
  heeds_ite (heeds_bind heeds_peek fun _ found => heeds_failAt _ found) (heeds_pure trivial)

theorem heeds_name : Heeds tokens name fun _ => True := heeds_map (heeds_expect _)

theorem heeds_typeParameters : Heeds tokens typeParameters fun _ => True :=
  heeds_then (heeds_accept _) fun _ =>
    heeds_ite (heeds_then (heeds_commaList heeds_name) fun _ => heeds_then (heeds_expect _) fun _ => heeds_pure trivial)
      (heeds_pure trivial)

theorem heeds_annotationsUpTo (fuel : Nat) : Heeds tokens (annotationsUpTo fuel) fun _ => True := by
  induction fuel with
  | zero => exact heeds_pure trivial
  | succ fuel ih =>
    exact heeds_then (heeds_peekIs _) fun _ =>
      heeds_ite (heeds_then heeds_next fun _ => heeds_map ih) (heeds_pure trivial)

theorem heeds_annotations : Heeds tokens annotations fun _ => True :=
  heeds_then heeds_get fun _ => heeds_annotationsUpTo _

theorem heeds_importNames : Heeds tokens importNames fun _ => True :=
  heeds_then (heeds_accept _) fun _ =>
    heeds_ite
      (heeds_then (heeds_commaList heeds_name) fun _ => heeds_then (heeds_expect _) fun _ =>
        heeds_then (heeds_expect _) fun _ => heeds_pure trivial)
      (heeds_pure trivial)

theorem heeds_importing : Heeds tokens importing fun _ => True :=
  heeds_then heeds_next fun _ => heeds_then heeds_importNames fun _ => heeds_then (heeds_expect _) fun _ =>
    heeds_then (heeds_expect _) fun _ => heeds_map (heeds_markFrom _ _)

theorem heeds_parent : Heeds tokens parent fun _ => True := by
  unfold parent
  refine heeds_then heeds_next fun _ => heeds_bind heeds_peek fun _ found => ?_
  exact heeds_ite (heeds_failing (heeds_unexpected _ found)) (heeds_pure trivial)

theorem heeds_modifiersFrom (m : Modifiers) (fuel : Nat) : Heeds tokens (modifiersFrom m fuel) fun _ => True := by
  induction fuel generalizing m with
  | zero => exact heeds_pure trivial
  | succ fuel ih =>
    refine heeds_bind heeds_peek fun _ found => ?_
    split
    · refine heeds_ite ?_ (heeds_ite (heeds_failAt _ found) (heeds_pure trivial))
      split
      · exact heeds_failAt _ found
      · exact heeds_then heeds_next fun _ => ih _
    · exact heeds_ite (heeds_failAt _ found) (heeds_pure trivial)

theorem heeds_modifiers : Heeds tokens modifiers fun _ => True := heeds_then heeds_get fun _ => heeds_modifiersFrom _ _

section Parts

variable (heedful : g.Heedful tokens)
include heedful

/-! ## Types, parameters and blocks -/

theorem heeds_types : Heeds tokens (g.types depth) fun _ => True := heeds_commaList (heedful.type depth)

theorem heeds_typed : Heeds tokens (g.typeAnnotation depth) fun _ => True :=
  heeds_then (heeds_accept _) fun _ => heeds_ite (heeds_map (heedful.type depth)) (heeds_pure trivial)

theorem heeds_initialiser : Heeds tokens (g.initialiser depth) fun _ => True :=
  heeds_then (heeds_accept _) fun _ => heeds_ite (heeds_map (heedful.expression depth 0)) (heeds_pure trivial)

theorem heeds_block : Heeds tokens (g.block depth) fun _ => True :=
  heeds_then (heeds_expect _) fun _ => heeds_then (heeds_untilToken (heedful.statement depth) _) fun _ =>
    heeds_map (heeds_markFrom _ _)

theorem heeds_parameter : Heeds tokens (g.parameter depth) fun _ => True :=
  heeds_then (heeds_expect _) fun _ => heeds_then (heeds_typed heedful) fun _ =>
    heeds_then (heeds_initialiser heedful) fun _ => heeds_map (heeds_markFrom _ _)

theorem heeds_parameters : Heeds tokens (g.parameters depth) fun _ => True :=
  heeds_then (heeds_accept _) fun _ => heeds_ite (heeds_pure trivial)
    (heeds_then (heeds_commaList (heeds_parameter heedful)) fun _ => heeds_then (heeds_expect _) fun _ => heeds_pure trivial)

theorem heeds_functionTypeParams : Heeds tokens (g.functionTypeParams depth) fun _ => True :=
  heeds_then (heeds_accept _) fun _ => heeds_ite (heeds_pure trivial)
    (heeds_then (heeds_types heedful) fun _ => heeds_then (heeds_expect _) fun _ => heeds_pure trivial)

theorem heeds_functionType : Heeds tokens (g.functionType depth) fun _ => True :=
  heeds_then heeds_next fun _ => heeds_then (heeds_functionTypeParams heedful) fun _ => heeds_then (heeds_expect _) fun _ =>
    heeds_then (heedful.type depth) fun _ => heeds_map (heeds_markFrom _ _)

theorem heeds_namedType : Heeds tokens (g.namedType depth) fun _ => True :=
  heeds_then heeds_next fun _ => heeds_then (heeds_accept _) fun _ =>
    heeds_ite
      (heeds_then (heeds_types heedful) fun _ => heeds_then (heeds_expect _) fun _ => heeds_map (heeds_markFrom _ _))
      (heeds_pure trivial)

theorem heeds_typeStep : Heeds tokens (g.typeStep depth) fun _ => True := by
  unfold typeStep
  refine heeds_then (heeds_enter depth) fun depth => heeds_bind heeds_peek fun start found => ?_
  have marked (t : TypeExpr) : Heeds tokens (do
      if ← accept (.symbol .question) then return t.asNullable (← spanFrom start) else return t) fun _ => True :=
    heeds_then (heeds_accept _) fun _ => heeds_ite (heeds_map (heeds_spanFrom _)) (heeds_pure trivial)
  dsimp only
  split
  · exact heeds_then (heeds_functionType heedful) marked
  · exact heeds_then (heeds_namedType heedful) marked
  · exact heeds_failing (heeds_unexpected _ found)

/-! ## Members -/

theorem heeds_method (start nameToken : Token) (as : List Annotation) (mods : Modifiers) :
    Heeds tokens (g.method depth start nameToken as mods) fun m => m.mark.head = nameToken := by
  unfold method
  refine heeds_then heeds_typeParameters fun _ => heeds_then (heeds_expect _) fun _ =>
    heeds_then (heeds_parameters heedful) fun _ => heeds_then (heeds_typed heedful) fun _ =>
      heeds_then (heeds_peekIs _) fun _ => ?_
  have named {f : Mark → Method} (keeps : ∀ mark, (f mark).mark = mark) :
      Heeds tokens (do return f (← markFrom nameToken start)) fun m => m.mark.head = nameToken :=
    heeds_bind (heeds_markFrom _ _) fun mark head => heeds_pure (by rw [keeps, head])
  refine heeds_ite (heeds_then (heeds_block heedful) fun _ => heeds_pure_bind (named fun _ => rfl)) ?_
  exact heeds_then (heeds_expect _) fun _ => heeds_pure_bind (named fun _ => rfl)

theorem heeds_field (start nameToken : Token) (as : List Annotation) (mods : Modifiers) :
    Heeds tokens (g.field depth start nameToken as mods) fun f => f.mark.head = nameToken := by
  unfold field
  refine heeds_then (heeds_typed heedful) fun _ => heeds_then (heeds_initialiser heedful) fun _ =>
    heeds_then (heeds_expect _) fun _ => ?_
  exact heeds_bind (heeds_markFrom _ _) fun mark head => heeds_pure head

theorem heeds_member : Heeds tokens (g.member depth) fun m => m.nameToken ∈ tokens := by
  unfold member
  refine heeds_then heeds_peek fun start => heeds_then heeds_annotations fun as => heeds_then heeds_modifiers fun mods =>
    heeds_bind heeds_peek fun t found => ?_
  refine heeds_ite (heeds_failing (heeds_unexpected _ found)) ?_
  refine heeds_bind heeds_next fun nameToken named => heeds_bind heeds_peek fun ahead found' => ?_
  refine heeds_ite (heeds_bind (heeds_method heedful start nameToken as mods) fun m head => heeds_pure ?_) ?_
  · exact (congrArg (· ∈ tokens) head).mpr named
  · refine heeds_ite (heeds_failing (heeds_unexpected _ found')) ?_
    refine heeds_bind (heeds_field heedful start nameToken as mods) fun f head => heeds_pure ?_
    exact (congrArg (· ∈ tokens) head).mpr named

theorem heeds_membersUpTo (owner : String) (taken : List String) (fuel : Nat) :
    Heeds tokens (g.membersUpTo depth owner taken fuel) fun ms => ∀ m ∈ ms, m.nameToken ∈ tokens := by
  induction fuel generalizing taken with
  | zero => exact heeds_exhausted
  | succ fuel ih =>
    refine heeds_bind heeds_peek fun t found => heeds_ite (heeds_pure nofun) (heeds_ite (heeds_unexpected _ found) ?_)
    refine heeds_bind (heeds_member heedful) fun m named => heeds_ite (heeds_failing (heeds_failAt _ named)) ?_
    exact heeds_bind (ih _) fun ms others => heeds_pure (List.forall_mem_cons.2 ⟨named, others⟩)

theorem heeds_members (owner : String) :
    Heeds tokens (g.members depth owner) fun ms => ∀ m ∈ ms.2, m.mark.head ∈ tokens := by
  unfold members
  refine heeds_then (heeds_expect _) fun _ => heeds_then heeds_get fun _ =>
    heeds_bind (heeds_membersUpTo heedful owner [] _) fun all named => heeds_then heeds_next fun _ => heeds_pure ?_
  intro m isMethod
  obtain ⟨m', member, same⟩ := List.mem_filterMap.1 isMethod
  cases m' with
  | field f => cases same
  | method m' =>
    cases same
    exact named _ member

theorem heeds_classDeclaration (start head : Token) (as : List Annotation) (isOpen : Bool) :
    Heeds tokens (g.classDeclaration depth start head as isOpen) fun _ => True := by
  unfold classDeclaration
  refine heeds_then heeds_name fun name => heeds_then heeds_typeParameters fun _ => heeds_then (heeds_accept _) fun _ => ?_
  have closing {f : List Field × List Method → Mark → Declaration} :
      Heeds tokens (do return f (← g.members depth name.text) (← markFrom head start)) fun _ => True :=
    heeds_then (heeds_members heedful _) fun _ => heeds_map (heeds_markFrom _ _)
  refine heeds_ite (heeds_then (heedful.type depth) fun _ => heeds_pure_bind ?_) (heeds_pure_bind ?_)
  all_goals
    exact heeds_then (heeds_accept _) fun _ =>
      heeds_ite (heeds_then (heeds_types heedful) fun _ => closing) (heeds_pure_bind closing)

theorem heeds_interfaceDeclaration (start head : Token) (as : List Annotation) :
    Heeds tokens (g.interfaceDeclaration depth start head as) fun _ => True := by
  unfold interfaceDeclaration
  refine heeds_then heeds_name fun name => heeds_then heeds_typeParameters fun _ => heeds_then (heeds_accept _) fun _ => ?_
  have closing {f : List Field × List Method → Reader Declaration}
      (each : ∀ ms, (∀ m ∈ ms.2, m.mark.head ∈ tokens) → Heeds tokens (f ms) fun _ => True) :
      Heeds tokens (g.members depth name.text >>= f) fun _ => True := heeds_bind (heeds_members heedful _) each
  refine heeds_ite (heeds_then (heeds_types heedful) fun _ => ?_) (heeds_pure_bind ?_)
  all_goals
    refine closing fun ms named => ?_
    dsimp only
    split
    · next m isConstructor => exact heeds_failAt _ (named m (List.mem_of_find?_eq_some isConstructor))
    · exact heeds_map (heeds_markFrom _ _)

theorem heeds_declaration : Heeds tokens (g.declaration depth) fun _ => True := by
  unfold declaration
  refine heeds_then heeds_peek fun start => heeds_then heeds_annotations fun as => heeds_bind heeds_peek fun t found => ?_
  split
  · exact heeds_then heeds_next fun _ => heeds_then (heeds_expect _) fun head =>
      heeds_classDeclaration heedful start head as true
  · exact heeds_then heeds_next fun head => heeds_classDeclaration heedful start head as false
  · exact heeds_then heeds_next fun head => heeds_interfaceDeclaration heedful start head as
  · exact heeds_unexpected _ found

/-! ## Statements -/

theorem heeds_binding : Heeds tokens (g.binding depth) fun _ => True :=
  heeds_then heeds_next fun _ => heeds_then heeds_name fun _ => heeds_then (heeds_typed heedful) fun _ =>
    heeds_then (heeds_initialiser heedful) fun _ => heeds_then (heeds_expect _) fun _ => heeds_map (heeds_markFrom _ _)

theorem heeds_returning : Heeds tokens (g.returning depth) fun _ => True := by
  unfold returning
  refine heeds_then heeds_next fun start => heeds_then (heeds_peekIs _) fun _ => ?_
  have closing {f : Mark → Stmt} : Heeds tokens (do
      let _ ← expect (.symbol .semicolon)
      return f (← markFrom start start)) fun _ => True :=
    heeds_then (heeds_expect _) fun _ => heeds_map (heeds_markFrom _ _)
  exact heeds_ite (heeds_pure_bind closing) (heeds_then (heedful.expression depth 0) fun _ => heeds_pure_bind closing)

theorem heeds_parenthesised : Heeds tokens (g.parenthesised depth) fun _ => True :=
  heeds_then (heeds_expect _) fun _ => heeds_then (heedful.expression depth 0) fun _ =>
    heeds_then (heeds_expect _) fun _ => heeds_pure trivial

theorem heeds_branching : Heeds tokens (g.branching depth) fun _ => True := by
  unfold branching
  refine heeds_then heeds_next fun start => heeds_then (heeds_parenthesised heedful) fun _ =>
    heeds_then (heeds_block heedful) fun _ => heeds_then (heeds_accept _) fun _ => ?_
  have closing {f : Mark → Stmt} : Heeds tokens (do return f (← markFrom start start)) fun _ => True :=
    heeds_map (heeds_markFrom _ _)
  refine heeds_ite (heeds_then (heeds_peekIs _) fun _ => ?_) (heeds_pure_bind closing)
  exact heeds_ite (heeds_then (heedful.statement depth) fun _ => heeds_pure_bind closing)
    (heeds_then (heeds_block heedful) fun _ => heeds_pure_bind closing)

theorem heeds_armsUpTo (fallback : Option Block) (fuel : Nat) :
    Heeds tokens (g.armsUpTo depth fallback fuel) fun _ => True := by
  induction fuel generalizing fallback with
  | zero => exact heeds_exhausted
  | succ fuel ih =>
    refine heeds_bind heeds_peek fun t found => heeds_ite (heeds_pure trivial) (heeds_ite (heeds_unexpected _ found) ?_)
    refine heeds_ite (heeds_bind heeds_next fun t found => ?_) ?_
    · exact heeds_ite (heeds_failing (heeds_failAt _ found)) (heeds_then (heeds_expect _) fun _ =>
        heeds_then (heeds_block heedful) fun _ => ih _)
    · refine heeds_then (heedful.expression depth 0) fun _ => heeds_then (heeds_expect _) fun _ =>
        heeds_then (heeds_block heedful) fun _ => heeds_then (heeds_markFrom _ _) fun _ => ?_
      exact heeds_map (ih _)

theorem heeds_selecting : Heeds tokens (g.selecting depth) fun _ => True :=
  heeds_then heeds_next fun _ => heeds_then (heeds_parenthesised heedful) fun _ => heeds_then (heeds_expect _) fun _ =>
    heeds_then heeds_get fun _ => heeds_then (heeds_armsUpTo heedful none _) fun _ => heeds_then heeds_next fun _ =>
      heeds_map (heeds_markFrom _ _)

theorem heeds_looping : Heeds tokens (g.looping depth) fun _ => True :=
  heeds_then heeds_next fun _ => heeds_then (heeds_expect _) fun _ => heeds_then heeds_name fun _ =>
    heeds_then (heeds_expect _) fun _ => heeds_then (heedful.expression depth 0) fun _ =>
      heeds_then (heeds_expect _) fun _ => heeds_then (heeds_block heedful) fun _ => heeds_map (heeds_markFrom _ _)

theorem heeds_doing : Heeds tokens (g.doing depth) fun _ => True :=
  heeds_then heeds_peek fun _ => heeds_then (heedful.expression depth 0) fun _ => heeds_then (heeds_expect _) fun _ =>
    heeds_map (heeds_markFrom _ _)

theorem heeds_statementStep : Heeds tokens (g.statementStep depth) fun _ => True := by
  unfold statementStep
  refine heeds_then heeds_peek fun t => ?_
  split
  · exact heeds_importing
  · exact heeds_map (heeds_declaration heedful)
  · exact heeds_map (heeds_declaration heedful)
  · exact heeds_map (heeds_declaration heedful)
  · exact heeds_map (heeds_declaration heedful)
  · exact heeds_binding heedful
  · exact heeds_returning heedful
  · exact heeds_branching heedful
  · exact heeds_selecting heedful
  · exact heeds_looping heedful
  · exact heeds_map (heeds_block heedful)
  · exact heeds_doing heedful

/-! ## Markup -/

theorem heeds_attr : Heeds tokens (g.attr depth) fun _ => True := by
  unfold attr
  refine heeds_then heeds_next fun start => heeds_then (heeds_expect _) fun _ => heeds_bind heeds_peek fun t found => ?_
  have closing {f : Mark → Attribute} : Heeds tokens (do return f (← markFrom start start)) fun _ => True :=
    heeds_map (heeds_markFrom _ _)
  split
  · exact heeds_then heeds_next fun _ => heeds_pure_bind closing
  · exact heeds_then heeds_next fun _ => heeds_then (heedful.expression depth 0) fun _ =>
      heeds_then (heeds_expect _) fun _ => heeds_pure_bind closing
  · exact heeds_failing (heeds_unexpected _ found)

theorem heeds_attributesUpTo (fuel : Nat) : Heeds tokens (g.attributesUpTo depth fuel) fun _ => True := by
  induction fuel with
  | zero => exact heeds_pure trivial
  | succ fuel ih =>
    exact heeds_then heeds_peek fun _ => heeds_ite (heeds_then (heeds_attr heedful) fun _ => heeds_map ih) (heeds_pure trivial)

omit heedful in
theorem heeds_textRest (sofar : Text) (fuel : Nat) : Heeds tokens (textRest sofar fuel) fun _ => True := by
  induction fuel generalizing sofar with
  | zero => exact heeds_pure trivial
  | succ fuel ih =>
    exact heeds_then heeds_peek fun _ => heeds_ite (heeds_pure trivial)
      (heeds_then heeds_get fun _ => heeds_then heeds_next fun _ => ih _)

omit heedful in
theorem heeds_text : Heeds tokens text fun _ => True :=
  heeds_then heeds_next fun _ => heeds_then heeds_get fun _ => heeds_then (heeds_textRest _ _) fun _ =>
    heeds_map (heeds_markFrom _ _)

theorem heeds_hole : Heeds tokens (g.hole depth) fun _ => True :=
  heeds_then heeds_next fun _ => heeds_then (heedful.expression depth 0) fun _ => heeds_then (heeds_expect _) fun _ =>
    heeds_map (heeds_markFrom _ _)

omit heedful in
theorem heeds_closingTag (tag : String) : Heeds tokens (closingTag tag) fun _ => True := by
  unfold closingTag
  refine heeds_then heeds_next fun _ => heeds_bind heeds_next fun t found => ?_
  exact heeds_ite (heeds_failing (heeds_failAt _ found)) (heeds_then (heeds_expect _) fun _ => heeds_pure trivial)

theorem heeds_childrenUpTo (tag : String) (fuel : Nat) : Heeds tokens (g.childrenUpTo depth tag fuel) fun _ => True := by
  induction fuel with
  | zero => exact heeds_exhausted
  | succ fuel ih =>
    refine heeds_bind heeds_peek fun t found => ?_
    split
    · exact heeds_unexpected _ found
    · exact heeds_then (heeds_closingTag tag) fun _ => heeds_pure trivial
    · exact heeds_then (heedful.element depth) fun _ => heeds_map ih
    · exact heeds_then (heeds_hole heedful) fun _ => heeds_map ih
    · exact heeds_then heeds_text fun _ => heeds_map ih

theorem heeds_elementStep : Heeds tokens (g.elementStep depth) fun _ => True := by
  unfold elementStep
  refine heeds_then (heeds_enter depth) fun depth => heeds_then heeds_next fun start =>
    heeds_bind heeds_next fun tagToken found => ?_
  refine heeds_ite (heeds_failing (heeds_unexpected _ found)) ?_
  refine heeds_then heeds_get fun _ => heeds_then (heeds_attributesUpTo heedful _) fun _ =>
    heeds_then (heeds_accept _) fun _ => heeds_ite (heeds_map (heeds_markFrom _ _)) ?_
  exact heeds_then (heeds_expect _) fun _ => heeds_then heeds_get fun _ =>
    heeds_then (heeds_childrenUpTo heedful _ _) fun _ => heeds_map (heeds_markFrom _ _)

theorem heeds_markup : Heeds tokens (g.markup depth) fun _ => True := by
  unfold markup
  refine heeds_then heeds_next fun start => heeds_then (heeds_peekIs _) fun _ => ?_
  refine heeds_ite (heeds_bind heeds_peek fun _ found => heeds_failing (heeds_unexpected _ found)) ?_
  exact heeds_then (heedful.element depth) fun _ => heeds_map (heeds_spanFrom _)

/-! ## Expressions -/

theorem heeds_expressions (stop : TokenKind) : Heeds tokens (g.expressions depth stop) fun _ => True :=
  heeds_then (heeds_accept _) fun _ => heeds_ite (heeds_pure trivial)
    (heeds_then (heeds_commaList (heedful.expression depth 0)) fun _ => heeds_then (heeds_expect _) fun _ => heeds_pure trivial)

theorem heeds_lambdaBody : Heeds tokens (g.lambdaBody depth) fun _ => True :=
  heeds_then (heeds_peekIs _) fun _ =>
    heeds_ite (heeds_map (heeds_block heedful)) (heeds_map (heedful.expression depth 0))

theorem heeds_lambda : Heeds tokens (g.lambda depth) fun _ => True :=
  heeds_then heeds_next fun _ => heeds_then (heeds_parameters heedful) fun _ =>
    heeds_then (heeds_typed heedful) fun _ => heeds_then (heeds_expect _) fun _ =>
      heeds_then (heeds_lambdaBody heedful) fun _ => heeds_map (heeds_markFrom _ _)

theorem heeds_group : Heeds tokens (g.group depth) fun _ => True :=
  heeds_then heeds_next fun _ => heeds_then (heedful.expression depth 0) fun _ => heeds_then (heeds_expect _) fun _ =>
    heeds_pure trivial

theorem heeds_creation : Heeds tokens (g.creation depth) fun _ => True := by
  unfold creation
  refine heeds_then heeds_next fun start => heeds_then (heedful.type depth) fun type => ?_
  refine heeds_ite (heeds_bind heeds_get fun _ among => heeds_failing (heeds_failAt _ among.last)) ?_
  exact heeds_then (heeds_expect _) fun _ => heeds_then (heeds_expressions heedful _) fun _ => heeds_map (heeds_markFrom _ _)

theorem heeds_unary (op : UnaryOp) : Heeds tokens (g.unary depth op) fun _ => True :=
  heeds_then heeds_next fun _ => heeds_then (heedful.expression depth _) fun _ => heeds_map (heeds_markFrom _ _)

theorem heeds_operand : Heeds tokens (g.operand depth) fun _ => True := by
  unfold operand
  refine heeds_bind heeds_peek fun t found => ?_
  split
  · exact heeds_map heeds_next
  · exact heeds_map heeds_next
  · exact heeds_map heeds_next
  · exact heeds_map heeds_next
  · exact heeds_map heeds_next
  · exact heeds_map heeds_next
  · exact heeds_parent
  · exact heeds_creation heedful
  · exact heeds_markup heedful
  · exact heeds_then heeds_next fun _ => heeds_then (heeds_expressions heedful _) fun _ => heeds_map (heeds_markFrom _ _)
  · exact heeds_then heeds_get fun _ => heeds_ite (heeds_lambda heedful) (heeds_group heedful)
  · exact heeds_unary heedful _
  · exact heeds_unary heedful _
  · exact heeds_failAt _ found

theorem heeds_infixStep (start : Token) (left : Expr) (kind : Infix) :
    Heeds tokens (g.infixStep depth start left kind) fun _ => True := by
  unfold infixStep
  refine heeds_bind heeds_next fun head found => ?_
  cases kind with
  | binary op => exact heeds_then (heedful.expression depth _) fun _ => heeds_map (heeds_markFrom _ _)
  | assign =>
    exact heeds_ite (heeds_failing (heeds_failAt _ found))
      (heeds_then (heedful.expression depth _) fun _ => heeds_map (heeds_markFrom _ _))
  | call => exact heeds_then (heeds_expressions heedful _) fun _ => heeds_map (heeds_markFrom _ _)
  | index =>
    exact heeds_then (heedful.expression depth 0) fun _ => heeds_then (heeds_expect _) fun _ =>
      heeds_map (heeds_markFrom _ _)
  | member => exact heeds_then heeds_name fun _ => heeds_map (heeds_markFrom _ _)

theorem heeds_infixRest (precedence : Nat) (start : Token) (left : Expr) (fuel : Nat) :
    Heeds tokens (g.infixRest depth precedence start left fuel) fun _ => True := by
  induction fuel generalizing left with
  | zero => exact heeds_pure trivial
  | succ fuel ih =>
    refine heeds_then heeds_peek fun _ => ?_
    split
    · exact heeds_pure trivial
    · exact heeds_ite (heeds_then (heeds_infixStep heedful start left _) fun e => ih e) (heeds_pure trivial)

theorem heeds_expressionStep (precedence : Nat) : Heeds tokens (g.expressionStep depth precedence) fun _ => True :=
  heeds_then (heeds_enter depth) fun _ => heeds_then heeds_peek fun _ => heeds_then (heeds_operand heedful) fun _ =>
    heeds_then heeds_get fun _ => heeds_infixRest heedful _ _ _ _

/-! ## Programs -/

theorem heeds_statementsUpTo (fuel : Nat) : Heeds tokens (g.statementsUpTo fuel) fun _ => True := by
  induction fuel with
  | zero => exact heeds_exhausted
  | succ fuel ih =>
    exact heeds_then (heeds_peekIs _) fun _ => heeds_ite (heeds_pure trivial)
      (heeds_then (heedful.statement 0) fun _ => heeds_map ih)

theorem heeds_program (file : String) : Heeds tokens (g.program file) fun _ => True := by
  unfold program
  refine heeds_then heeds_peek fun start => heeds_then heeds_get fun _ =>
    heeds_then (heeds_statementsUpTo heedful _) fun _ => ?_
  exact heeds_ite (heeds_pure trivial) (heeds_map (heeds_spanFrom _))

end Parts

theorem within_heedful (fuel : Nat) : (within fuel).Heedful tokens := by
  induction fuel with
  | zero =>
    rw [within_zero]
    exact ⟨fun _ => heeds_exhausted, fun _ _ => heeds_exhausted, fun _ => heeds_exhausted, fun _ => heeds_exhausted⟩
  | succ fuel ih =>
    rw [within_succ]
    exact ⟨fun _ => heeds_statementStep ih, fun _ => heeds_expressionStep ih, fun _ => heeds_typeStep ih,
      fun _ => heeds_elementStep ih⟩

end Grammar

/-! ## Failures of a source -/

/-- The span is that of a part of a text, with the place where it starts. -/
def Span.Parts (s : Span) (source before spanned behind : Text) : Prop :=
  source = before ++ (spanned ++ behind) ∧
    s = .between (Position.start.after before) (Position.start.after (before ++ spanned))

/-- What scanning stops at is a part of the source. -/
theorem Token.ofSource_fails {file : String} {source : Text} {d : Diagnostic}
    (failed : Token.ofSource file source = .error d) : ∃ before spanned behind, d.span.Parts source before spanned behind := by
  unfold ofSource at failed
  rcases scanned : source.tokens with ⟨fault, span⟩ | tokens
  · rw [scanned] at failed
    cases failed
    obtain ⟨before, g, behind, n, whole, -, place⟩ := Lexer.stops_at scanned
    refine ⟨before, g :: behind.take n, behind.drop n, ?_, place⟩
    rw [whole, List.cons_append, List.take_append_drop]
  · rw [scanned] at failed
    cases failed

/-- What reading fails at is one of the tokens. -/
theorem Program.ofTokens_fails {file : String} {tokens : List Token} {d : Diagnostic}
    (failed : Program.ofTokens file tokens = .error d) : ∃ t ∈ Token.significant tokens, d.span = t.span := by
  have nonempty := Token.significant_ne_nil tokens
  unfold ofTokens at failed
  generalize Token.significant tokens = ahead at failed nonempty ⊢
  obtain ⟨first, rest, rfl⟩ := List.exists_cons_of_ne_nil nonempty
  have among : Cursor.Among (first :: rest) ⟨first, first :: rest⟩ := ⟨List.mem_cons_self, fun _ found => found⟩
  obtain ⟨-, fails⟩ := Grammar.heeds_program (Grammar.within_heedful (Grammar.bound (first :: rest).length)) file _ among
  dsimp only at failed
  split at failed
  · next fault span run =>
    cases failed
    exact fails fault span run
  · cases failed

/-- A source fails at a part of it. -/
theorem Program.ofSource_fails {file : String} {source : Text} {d : Diagnostic}
    (failed : Program.ofSource file source = .error d) :
    ∃ before spanned behind, d.span.Parts source before spanned behind := by
  unfold ofSource at failed
  cases scanned : Token.ofSource file source with
  | error d' =>
    rw [scanned] at failed
    cases failed
    exact Token.ofSource_fails scanned
  | ok tokens =>
    rw [scanned] at failed
    obtain ⟨t, found, place⟩ := Program.ofTokens_fails failed
    have scanned : source.tokens = .ok tokens := by
      unfold Token.ofSource at scanned
      split at scanned
      · cases scanned
      · next scanned' => rwa [Except.ok.inj scanned] at scanned'
    rw [Token.significant_eq_filter scanned] at found
    obtain ⟨before, behind, whole, span⟩ :=
      (Lexer.scanned_of_scan scanned).standsIn [] rfl t (List.mem_filter.1 found).1
    exact ⟨before, t.lexeme, behind, whole, place.trans span⟩

end ClassScript
