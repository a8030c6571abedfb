import ClassScript.Proofs.ReadBack

/-!
# Reading programs back

Declarations and statements are read back from their shapes as types and expressions are, and tying the
readers together gives a grammar that reads back every tidy tree within its bound
(`Grammar.within_readsBack`).
-/

namespace ClassScript

open Reader

namespace Grammar

open Layout (exprStrength)

/-! ## Annotations, modifiers and type parameters -/

theorem reads_annotationsUpTo {as : List Annotation} {r : List Shape} (ends : firstKind r ≠ .atName)
    (fuel : Nat) (enough : as.length ≤ fuel) :
    Reads (annotationsUpTo fuel) (annotationShapes as) r
      fun bs => bs.map Annotation.bare = as.map Annotation.bare := by
  induction as generalizing fuel with
  | nil =>
    cases fuel with
    | zero => exact reads_pure rfl
    | succ fuel =>
      refine reads_peekIs_bind ?_
      have other : (firstKind (annotationShapes [] ++ r) == .atName) = false := beq_eq_false_iff_ne.2 ends
      rw [other, if_neg Bool.false_ne_true]
      exact reads_pure rfl
  | cons a as ih =>
    cases fuel with
    | zero => cases enough
    | succ fuel =>
      refine reads_peekIs_bind ?_
      have found : (firstKind (annotationShapes (a :: as) ++ r) == .atName) = true := rfl
      rw [found, if_pos rfl]
      refine reads_next_bind fun t shape => ?_
      refine reads_last_bind (ih fuel (Nat.le_of_succ_le_succ enough)) fun bs all => reads_pure ?_
      rw [List.map_cons, List.map_cons, Annotation.bare, Annotation.bare, annotation_of_shape shape, all]

theorem reads_annotations {as : List Annotation} {r : List Shape} (ends : firstKind r ≠ .atName) :
    Reads annotations (annotationShapes as) r
      fun bs => bs.map Annotation.bare = as.map Annotation.bare := by
  refine reads_get_bind fun c kinds => reads_annotationsUpTo ends _ ?_
  have long := length_of_kinds kinds
  rw [List.length_append, annotationShapes, List.length_map] at long
  omega

/-- The shapes start with no modifier. -/
def NoModifier (r : List Shape) : Prop := ∀ k, firstKind r = .keyword k → isModifier k = false

/-- Words that may be added one after the other are taken as modifiers. -/
theorem reads_modifiersFrom {words : List Keyword} {m m' : Modifiers}
    (modifiers : ∀ k ∈ words, isModifier k = true) (added : words.foldlM addModifier m = some m')
    (notBoth : (m'.isPublic && m'.isPrivate) = false) {r : List Shape} (ends : NoModifier r) (fuel : Nat)
    (enough : words.length ≤ fuel) :
    Reads (modifiersFrom m fuel) (words.map Shape.keyword) r fun a => a = m' := by
  induction words generalizing m fuel with
  | nil =>
    obtain rfl : m = m' := Option.some.inj added
    cases fuel with
    | zero => exact reads_pure rfl
    | succ fuel =>
      refine reads_peek_bind fun t kind => ?_
      rw [List.map_nil, List.nil_append] at kind
      rw [notBoth, if_neg Bool.false_ne_true]
      split
      · next k found =>
        rw [ends k (kind.symm.trans found), if_neg Bool.false_ne_true]
        exact reads_pure rfl
      · exact reads_pure rfl
  | cons k words ih =>
    obtain ⟨isModifier, others⟩ := List.forall_mem_cons.1 modifiers
    rw [List.foldlM_cons] at added
    obtain ⟨m₁, one, rest⟩ := Option.bind_eq_some_iff.1 added
    cases fuel with
    | zero => cases enough
    | succ fuel =>
      refine reads_peek_bind fun t kind => ?_
      have kind : t.kind = .keyword k := kind
      simp only [kind, isModifier, one, if_true]
      exact reads_next_bind fun _ _ => ih others rest fuel (Nat.le_of_succ_le_succ enough)

theorem keywords_modifiers (m : Modifiers) : ∀ k ∈ m.keywords, isModifier k = true := by
  obtain ⟨isPublic, isPrivate, isStatic, isReadonly, isOpen⟩ := m
  cases isPublic <;> cases isPrivate <;> cases isStatic <;> cases isReadonly <;> cases isOpen <;> decide

theorem keywords_added (m : Modifiers) : m.keywords.foldlM addModifier {} = some m := by
  obtain ⟨isPublic, isPrivate, isStatic, isReadonly, isOpen⟩ := m
  cases isPublic <;> cases isPrivate <;> cases isStatic <;> cases isReadonly <;> cases isOpen <;> rfl

theorem reads_modifiers {m : Modifiers} (notBoth : (m.isPublic && m.isPrivate) = false) {r : List Shape}
    (ends : NoModifier r) : Reads modifiers m.shapes r fun a => a = m := by
  refine reads_get_bind fun c kinds => ?_
  refine reads_modifiersFrom (keywords_modifiers m) (keywords_added m) notBoth ends _ ?_
  have long := length_of_kinds kinds
  rw [List.length_append, Modifiers.shapes, List.length_map] at long
  omega

theorem reads_typeParameters {names : List Name} {r : List Shape} (ends : firstKind r ≠ .symbol .less) :
    Reads typeParameters (typeParamShapes names) r
      fun ns => ns.map Name.bare = names.map Name.bare := by
  cases names with
  | nil => exact reads_accept_no ends (reads_pure rfl)
  | cons n names =>
    refine reads_accept_yes rfl ?_
    refine reads_bind (reads_names (List.cons_ne_nil _ _) (ne_of_beq_false rfl)) fun ns all => ?_
    exact reads_expect_bind rfl fun _ _ => reads_pure all

theorem typeParams_first {P : TokenKind → Prop} (names : List Name) {r : List Shape}
    (some_names : P (.symbol .less)) (none : P (firstKind r)) :
    P (firstKind (typeParamShapes names ++ r)) := by
  cases names with
  | nil => exact none
  | cons n names => exact some_names

/-! ## Members -/

/-- The member without tokens and spans. -/
def Member.bare : Member → Member
  | .field f => .field f.bare
  | .method m => .method m.bare

/-- The shapes of a member. -/
def Member.shapes : Member → List Shape
  | .field f => f.shapes
  | .method m => m.shapes

/-- The name of a member. -/
def Member.title : Member → String
  | .field f => f.name.text
  | .method m => m.name.text

/-- The member could be written down. -/
def Member.Tidy : Member → Prop
  | .field f => f.Tidy
  | .method m => m.Tidy

/-- A member was read back, and its token spells its name. -/
def Member.Recovers (m a : Member) : Prop := a.bare = m.bare ∧ a.nameToken.word = m.title

section Members

variable {g : Grammar} {n : Nat} (readsBack : g.ReadsBack n) (depth : Nat)
include readsBack

theorem reads_field {f : Field} (tidy : f.Tidy) {start nameToken : Token} {as : List Annotation}
    (sameAnnotations : as.map Annotation.bare = f.annotations.map Annotation.bare)
    (shape : nameToken.shape = .name f.name.text)
    (small : (typeSuffixShapes f.type).length ≤ n) (smallInit : (Expr.initialiserShapes f.init).length ≤ n)
    {r : List Shape} :
    Reads (g.field depth start nameToken as f.modifiers)
      (typeSuffixShapes f.type ++ (Expr.initialiserShapes f.init ++ [Shape.symbol .semicolon])) r
      fun a => Member.Recovers (.field f) (.field a) := by
  obtain ⟨mark, annotations, mods, name, type, init⟩ := f
  obtain ⟨_, tidyMods, _, tidyType, tidyInit⟩ := tidy
  dsimp only at sameAnnotations shape small smallInit ⊢
  have kept : (if mods.isPublic || mods.isPrivate then mods else { mods with isPrivate := true }) = mods := by
    rw [Modifiers.Tidy] at tidyMods
    rw [tidyMods]
    cases mods.isPrivate <;> rfl
  unfold field
  rw [kept]
  refine reads_bind (reads_typed readsBack depth tidyType small ?_ ?_) fun t sameType => ?_
  · rw [List.append_assoc]
    exact initialiser_first (P := fun k => endsType k = true) init rfl rfl
  · rw [List.append_assoc]
    exact initialiser_first (P := fun k => k ≠ .symbol .colon) init (ne_of_beq_false rfl) (ne_of_beq_false rfl)
  refine reads_bind (reads_initialiser readsBack depth tidyInit smallInit rfl (ne_of_beq_false rfl)) ?_
  intro e sameInit
  refine reads_expect_bind rfl fun _ _ => reads_markFrom_bind fun m head => reads_pure ?_
  refine ⟨?_, ?_⟩
  · rw [Member.bare, Member.bare, Field.bare, Field.bare, sameAnnotations, bare_of_shape shape, sameType,
      sameInit]
  · rw [Member.nameToken, head, word_of_shape shape]
    rfl

omit readsBack in
theorem tidy_modifiers {m : Method} (tidy : m.Tidy) : m.modifiers.Tidy := by
  cases m
  exact tidy.2.1

omit readsBack in
theorem shown_kept {m : Method} (tidy : m.modifiers.Tidy) :
    (if m.shownModifiers.isPublic || m.shownModifiers.isPrivate then m.shownModifiers
      else { m.shownModifiers with isPublic := true }) = m.modifiers := by
  obtain ⟨_, _, ⟨isPublic, isPrivate, isStatic, isReadonly, isOpen⟩, _, isConstructor, _, _, _, _⟩ := m
  obtain rfl : isPublic = !isPrivate := tidy
  cases isConstructor <;> cases isPrivate <;> rfl

omit readsBack in
theorem shown_notBoth {m : Method} (tidy : m.modifiers.Tidy) :
    (m.shownModifiers.isPublic && m.shownModifiers.isPrivate) = false := by
  obtain ⟨_, _, ⟨isPublic, isPrivate, isStatic, isReadonly, isOpen⟩, _, isConstructor, _, _, _, _⟩ := m
  obtain rfl : isPublic = !isPrivate := tidy
  cases isConstructor <;> cases isPrivate <;> rfl

omit readsBack in
/-- The token that names a method says whether it is a constructor. -/
theorem named_method {m : Method} (tidy : m.Tidy) {t : Token} (shape : t.shape = m.nameShape.loose) :
    t.word = m.name.text ∧ (t.kind == .keyword .constructorWord) = m.isConstructor := by
  obtain ⟨mark, annotations, mods, name, isConstructor, tps, ps, result, body⟩ := m
  obtain ⟨_, _, named, _⟩ := tidy
  cases isConstructor with
  | true =>
    have shape : t.shape = (Shape.keyword .constructorWord).loose := shape
    refine ⟨?_, by rw [kind_of_shape shape]; rfl⟩
    rw [word_of_shape shape, (named : name.text = "constructor")]
    rfl
  | false =>
    have shape : t.shape = (Shape.name name.text).loose := shape
    exact ⟨word_of_shape shape, by rw [kind_of_shape shape]; rfl⟩

omit readsBack in
theorem body_first {P : TokenKind → Prop} (body : Option Block) {r : List Shape}
    (some_body : P (.symbol .leftBrace)) (none : P (.symbol .semicolon)) :
    P (firstKind (Block.bodyShapes body ++ r)) := by
  cases body with
  | none => exact none
  | some b =>
    cases b
    exact some_body

theorem reads_method {m : Method} (tidy : m.Tidy) {start nameToken : Token} {as : List Annotation}
    (sameAnnotations : as.map Annotation.bare = m.annotations.map Annotation.bare)
    (shape : nameToken.shape = m.nameShape.loose) (small : m.shapes.length ≤ n) {r : List Shape} :
    Reads (g.method depth start nameToken as m.shownModifiers)
      (typeParamShapes m.typeParams ++ .symbol .leftParen :: ((commas (Param.shapesAll m.params) ++
        [Shape.symbol .rightParen]) ++ (typeSuffixShapes m.result ++ Block.bodyShapes m.body))) r
      fun a => Member.Recovers (.method m) (.method a) := by
  obtain ⟨word, isConstructor⟩ := named_method tidy shape
  have tidyMods : m.modifiers.Tidy := tidy_modifiers tidy
  unfold method
  rw [shown_kept tidyMods]
  obtain ⟨mark, annotations, mods, name, constructs, tps, ps, result, body⟩ := m
  obtain ⟨_, _, _, _, tidyParams, tidyResult, tidyBody⟩ := tidy
  dsimp only at sameAnnotations word isConstructor ⊢
  simp only [Method.shapes, List.length_append, List.length_cons] at small
  refine reads_bind (reads_typeParameters (ne_of_beq_false rfl)) fun names sameNames => ?_
  refine reads_expect_bind rfl fun _ _ => ?_
  refine reads_bind (reads_parameters readsBack depth tidyParams (by omega)) fun params sameParams => ?_
  refine reads_bind (reads_typed readsBack depth tidyResult (by omega) ?_ ?_) fun t sameType => ?_
  · exact body_first (P := fun k => endsType k = true) body rfl rfl
  · exact body_first (P := fun k => k ≠ .symbol .colon) body (ne_of_beq_false rfl) (ne_of_beq_false rfl)
  have rest : ∀ b : Option Block, Block.bareOption b = Block.bareOption body →
      Reads (do return {
        mark := ← markFrom nameToken start
        annotations := as
        modifiers := mods
        name := Name.ofToken nameToken
        isConstructor := nameToken.kind == .keyword .constructorWord
        typeParams := names
        params := params
        result := t
        body := b }) [] r fun a : Method =>
          Member.Recovers (.method ⟨mark, annotations, mods, name, constructs, tps, ps, result, body⟩)
            (.method a) := by
    intro b sameBody
    refine reads_markFrom_bind fun m head => reads_pure ⟨?_, ?_⟩
    · rw [Member.bare, Member.bare, Method.bare, Method.bare, sameAnnotations, sameNames, sameParams, sameType,
        sameBody, isConstructor, Name.ofToken, Name.bare, Name.bare, word]
    · rw [Member.nameToken, head, word]
      rfl
  refine reads_peekIs_bind ?_
  cases body with
  | none =>
    refine reads_expect_bind rfl fun _ _ => rest none rfl
  | some b =>
    have brace : (firstKind (Block.bodyShapes (some b) ++ r) == .symbol .leftBrace) = true := by
      cases b
      rfl
    rw [Block.bodyShapes] at small ⊢
    rw [Block.bodyShapes] at brace
    rw [brace, if_pos rfl]
    refine reads_last_bind (reads_block readsBack depth tidyBody (by omega)) fun a same => rest (some a) ?_
    rw [Block.bareOption, Block.bareOption, same]

omit readsBack in
theorem modifiers_first {P : TokenKind → Prop} (m : Modifiers) {r : List Shape}
    (some_modifiers : ∀ k, isModifier k = true → P (.keyword k)) (none : P (firstKind r)) :
    P (firstKind (m.shapes ++ r)) := by
  have all := keywords_modifiers m
  unfold Modifiers.shapes
  cases found : m.keywords with
  | nil => exact none
  | cons k ks =>
    rw [found] at all
    exact some_modifiers k (all k List.mem_cons_self)

theorem reads_fieldMember {f : Field} (tidy : f.Tidy) (small : f.shapes.length ≤ n) {r : List Shape} :
    Reads (g.member depth) f.shapes r (Member.Recovers (.field f)) := by
  have split : f.shapes = annotationShapes f.annotations ++ (f.modifiers.shapes ++
      .name f.name.text :: (typeSuffixShapes f.type ++
        (Expr.initialiserShapes f.init ++ [Shape.symbol .semicolon]))) := by
    cases f
    rfl
  have notBoth : (f.modifiers.isPublic && f.modifiers.isPrivate) = false := by
    obtain ⟨_, _, ⟨isPublic, isPrivate, _, _, _⟩, _, _, _⟩ := f
    obtain rfl : isPublic = !isPrivate := tidy.2.1
    cases isPrivate <;> rfl
  have noModifier : ∀ s, NoModifier (.name f.name.text :: s) := by
    intro s k first
    cases first
  rw [split] at small ⊢
  simp only [List.length_append, List.length_cons] at small
  unfold member
  refine reads_peek_bind fun start _ => reads_bind (reads_annotations ?_) fun as sameAnnotations => ?_
  · rw [List.append_assoc]
    exact modifiers_first (P := fun k => k ≠ .atName) f.modifiers (fun _ _ => ne_of_beq_false rfl)
      (ne_of_beq_false rfl)
  refine reads_bind (reads_modifiers notBoth (noModifier _)) fun mods sameMods => reads_peek_bind fun t kind => ?_
  have kind : t.kind = .identifier := kind
  rw [kind]
  refine reads_next_bind fun nameToken shape => reads_peek_bind fun ahead aheadKind => ?_
  have noMethod : (ahead.kind == .symbol .leftParen || ahead.kind == .symbol .less) = false := by
    rw [aheadKind, List.append_assoc, List.append_assoc]
    refine typeSuffix_first (P := fun k => (k == .symbol .leftParen || k == .symbol .less) = false) _ rfl ?_
    exact initialiser_first (P := fun k => (k == .symbol .leftParen || k == .symbol .less) = false) _ rfl rfl
  have noConstructor : (nameToken.kind == .keyword .constructorWord) = false := by
    rw [kind_of_shape shape]
    rfl
  rw [noMethod, if_neg Bool.false_ne_true, noConstructor, if_neg Bool.false_ne_true, sameMods]
  exact reads_last_bind (reads_field readsBack depth tidy sameAnnotations shape (by omega) (by omega))
    fun a same => reads_pure same

omit readsBack in
theorem nameShape_kind (m : Method) :
    m.nameShape.kind = .identifier ∨ m.nameShape.kind = .keyword .constructorWord := by
  unfold Method.nameShape
  split
  · exact .inr rfl
  · exact .inl rfl

theorem reads_methodMember {m : Method} (tidy : m.Tidy) (small : m.shapes.length ≤ n) {r : List Shape} :
    Reads (g.member depth) m.shapes r (Member.Recovers (.method m)) := by
  have split : m.shapes = annotationShapes m.annotations ++ (m.shownModifiers.shapes ++
      m.nameShape :: (typeParamShapes m.typeParams ++ .symbol .leftParen ::
        ((commas (Param.shapesAll m.params) ++ [Shape.symbol .rightParen]) ++
          (typeSuffixShapes m.result ++ Block.bodyShapes m.body)))) := by
    cases m
    simp only [Method.shapes, List.append_assoc, List.singleton_append]
  have noModifier : ∀ s, NoModifier (m.nameShape :: s) := by
    intro s k first
    rw [firstKind_cons] at first
    rcases nameShape_kind m with kind | kind <;> rw [kind] at first <;> cases first
    rfl
  rw [split]
  unfold member
  refine reads_peek_bind fun start _ => reads_bind (reads_annotations ?_) fun as sameAnnotations => ?_
  · rw [List.append_assoc]
    refine modifiers_first (P := fun k => k ≠ .atName) m.shownModifiers (fun _ _ => ne_of_beq_false rfl) ?_
    rw [List.cons_append, firstKind_cons]
    rcases nameShape_kind m with kind | kind <;> rw [kind] <;> exact ne_of_beq_false rfl
  refine reads_bind (reads_modifiers (shown_notBoth (tidy_modifiers tidy)) (noModifier _)) ?_
  refine fun mods sameMods => reads_peek_bind fun t kind => ?_
  have kind : t.kind = m.nameShape.kind := kind
  have isName : ¬ (t.kind != .identifier && t.kind != .keyword .constructorWord) = true := by
    rcases nameShape_kind m with found | found <;> rw [kind, found] <;> decide
  dsimp only
  rw [if_neg isName]
  refine reads_next_bind fun nameToken shape => reads_peek_bind fun ahead aheadKind => ?_
  have isMethod : (ahead.kind == .symbol .leftParen || ahead.kind == .symbol .less) = true := by
    rw [aheadKind, List.append_assoc]
    exact typeParams_first (P := fun k => (k == .symbol .leftParen || k == .symbol .less) = true) _ rfl rfl
  rw [if_pos isMethod, sameMods]
  exact reads_last_bind (reads_method readsBack depth tidy sameAnnotations shape small)
    fun a same => reads_pure same

theorem reads_member {m : Member} (tidy : m.Tidy) (small : m.shapes.length ≤ n) {r : List Shape} :
    Reads (g.member depth) m.shapes r m.Recovers := by
  cases m with
  | field f => exact reads_fieldMember readsBack depth tidy small
  | method m => exact reads_methodMember readsBack depth tidy small

/-- Whether a token can start a member. -/
def startsMember : TokenKind → Bool
  | .atName | .identifier | .keyword _ => true
  | _ => false

omit readsBack in
theorem member_starts (m : Member) (r : List Shape) : startsMember (firstKind (m.shapes ++ r)) = true := by
  have annotated : ∀ (as : List Annotation) (s : List Shape), startsMember (firstKind s) = true →
      startsMember (firstKind (annotationShapes as ++ s)) = true := by
    intro as s starts
    cases as with
    | nil => exact starts
    | cons a as => rfl
  cases m with
  | field f =>
    obtain ⟨mark, annotations, mods, name, type, init⟩ := f
    rw [Member.shapes, Field.shapes, List.append_assoc, List.append_assoc]
    exact annotated _ _ (modifiers_first (P := fun k => startsMember k = true) mods (fun _ _ => rfl) rfl)
  | method m =>
    obtain ⟨mark, annotations, mods, name, isConstructor, tps, ps, result, body⟩ := m
    rw [Member.shapes, Method.shapes, List.append_assoc, List.append_assoc]
    refine annotated _ _ (modifiers_first (P := fun k => startsMember k = true) _ (fun _ _ => rfl) ?_)
    cases isConstructor <;> rfl

/-- Members of different names up to the closing brace. -/
theorem reads_membersUpTo {ms : List Member} (tidy : ∀ m ∈ ms, m.Tidy)
    (small : ∀ m ∈ ms, m.shapes.length ≤ n) (owner : String) {taken : List String}
    (nodup : (ms.map Member.title).Nodup) (apart : ∀ name ∈ taken, name ∉ ms.map Member.title)
    {r : List Shape} (fuel : Nat) (enough : ms.length < fuel) :
    Reads (g.membersUpTo depth owner taken fuel) ((ms.map Member.shapes).flatten)
      (.symbol .rightBrace :: r) fun bs => bs.map Member.bare = ms.map Member.bare := by
  induction ms generalizing taken fuel with
  | nil =>
    cases fuel with
    | zero => cases enough
    | succ fuel =>
      refine reads_peek_bind fun t kind => ?_
      have stops : (t.kind == .symbol .rightBrace) = true := beq_iff_eq.2 kind
      rw [if_pos stops]
      exact reads_pure rfl
  | cons m ms ih =>
    obtain ⟨tidyFirst, tidyOthers⟩ := List.forall_mem_cons.1 tidy
    obtain ⟨smallFirst, smallOthers⟩ := List.forall_mem_cons.1 small
    obtain ⟨own, nodup⟩ := List.nodup_cons.1 nodup
    cases fuel with
    | zero => cases enough
    | succ fuel =>
      rw [List.map_cons, List.flatten_cons]
      refine reads_peek_bind fun t kind => ?_
      rw [List.append_assoc] at kind
      have starts := member_starts m ((ms.map Member.shapes).flatten ++ .symbol .rightBrace :: r)
      rw [← kind] at starts
      have noBrace : t.kind ≠ .symbol .rightBrace := kind_ne_of_starts starts rfl
      have noEnd : t.kind ≠ .endOfInput := kind_ne_of_starts starts rfl
      rw [if_neg (by simpa using noBrace), if_neg (by simpa using noEnd)]
      refine reads_bind (reads_member readsBack depth tidyFirst smallFirst) fun a recovers => ?_
      obtain ⟨same, word⟩ := recovers
      have fresh : ¬ taken.contains a.nameToken.word = true := by
        intro found
        rw [word] at found
        exact apart _ (List.contains_iff_mem.1 found) List.mem_cons_self
      dsimp only
      rw [if_neg fresh, word]
      have apart' : ∀ name ∈ m.title :: taken, name ∉ ms.map Member.title := by
        refine List.forall_mem_cons.2 ⟨own, fun name found later => ?_⟩
        exact apart name found (List.mem_cons_of_mem _ later)
      refine reads_last_bind (ih tidyOthers smallOthers nodup apart' fuel (Nat.lt_of_succ_lt_succ enough)) ?_
      exact fun bs all => reads_pure (by rw [List.map_cons, List.map_cons, same, all])

/-- The members of a declaration in the order in which its layout shows them. -/
def shownMembers (fs : List Field) (ms : List Method) : List Member := fs.map .field ++ ms.map .method

omit readsBack in
theorem shownMembers_shapes (fs : List Field) (ms : List Method) :
    ((shownMembers fs ms).map Member.shapes).flatten = Field.shapesAll fs ++ Method.shapesAll ms := by
  have fields : ((fs.map Member.field).map Member.shapes).flatten = Field.shapesAll fs := by
    induction fs with
    | nil => rfl
    | cons f fs ih => rw [List.map_cons, List.map_cons, List.flatten_cons, ih, Field.shapesAll, Member.shapes]
  have methods : ((ms.map Member.method).map Member.shapes).flatten = Method.shapesAll ms := by
    induction ms with
    | nil => rfl
    | cons m ms ih => rw [List.map_cons, List.map_cons, List.flatten_cons, ih, Method.shapesAll, Member.shapes]
  rw [shownMembers, List.map_append, List.flatten_append, fields, methods]

/-- The field that a member is. -/
def Member.field? : Member → Option Field
  | .field f => some f
  | .method _ => none

/-- The method that a member is. -/
def Member.method? : Member → Option Method
  | .field _ => none
  | .method m => some m

omit readsBack in
theorem shownMembers_fields (fs : List Field) (ms : List Method) :
    (shownMembers fs ms).filterMap Member.field? = fs := by
  have isField : fs.filterMap (Member.field? ∘ Member.field) = fs := List.filterMap_some
  have noMethod : ms.filterMap (Member.field? ∘ Member.method) = [] :=
    List.filterMap_eq_nil_iff.2 fun _ _ => rfl
  rw [shownMembers, List.filterMap_append, List.filterMap_map, List.filterMap_map, isField, noMethod,
    List.append_nil]

omit readsBack in
theorem shownMembers_methods (fs : List Field) (ms : List Method) :
    (shownMembers fs ms).filterMap Member.method? = ms := by
  have noField : fs.filterMap (Member.method? ∘ Member.field) = [] :=
    List.filterMap_eq_nil_iff.2 fun _ _ => rfl
  have isMethod : ms.filterMap (Member.method? ∘ Member.method) = ms := List.filterMap_some
  rw [shownMembers, List.filterMap_append, List.filterMap_map, List.filterMap_map, noField, isMethod,
    List.nil_append]

omit readsBack in
/-- Members that agree up to tokens and spans have parts that do. -/
theorem parts_recovered {α : Type} (part : Member → Option α) (bare : α → α)
    (commutes : ∀ m, part m.bare = (part m).map bare) {all all' : List Member}
    (same : all.map Member.bare = all'.map Member.bare) :
    (all.filterMap part).map bare = (all'.filterMap part).map bare := by
  have swaps : ∀ l : List Member, (l.filterMap part).map bare = (l.map Member.bare).filterMap part := by
    intro l
    rw [List.filterMap_map, List.map_filterMap]
    exact congrArg (List.filterMap · l) (funext fun m => (commutes m).symm)
  rw [swaps, swaps, same]

/-- The shapes of members between their braces. -/
def memberShapes (fs : List Field) (ms : List Method) : List Shape :=
  .symbol .leftBrace :: (Field.shapesAll fs ++ (Method.shapesAll ms ++ [.symbol .rightBrace]))

theorem reads_members {fs : List Field} {ms : List Method} (tidyFields : Field.TidyAll fs)
    (tidyMethods : Method.TidyAll ms)
    (nodup : (fs.map (·.name.text) ++ ms.map (·.name.text)).Nodup) (owner : String)
    (small : (Field.shapesAll fs ++ Method.shapesAll ms).length ≤ n) {r : List Shape} :
    Reads (g.members depth owner) (memberShapes fs ms) r
      fun found => Field.bareAll found.1 = Field.bareAll fs ∧ Method.bareAll found.2 = Method.bareAll ms := by
  have tidy : ∀ m ∈ shownMembers fs ms, m.Tidy := by
    intro m found
    rcases List.mem_append.1 found with found | found <;> obtain ⟨x, mem, rfl⟩ := List.mem_map.1 found
    · exact of_mem (P := Field.Tidy) (fun _ _ => id) tidyFields x mem
    · exact of_mem (P := Method.Tidy) (fun _ _ => id) tidyMethods x mem
  have short : ∀ m ∈ shownMembers fs ms, m.shapes.length ≤ n := by
    intro m found
    have inside := length_le_flatten_of_mem (List.mem_map_of_mem (f := Member.shapes) found)
    rw [shownMembers_shapes] at inside
    omega
  have titles : ((shownMembers fs ms).map Member.title).Nodup := by
    rw [shownMembers, List.map_append, List.map_map, List.map_map]
    exact nodup
  have filled : ∀ m ∈ shownMembers fs ms, m.shapes ≠ [] :=
    fun m _ => ne_nil_of_starts (member_starts m) rfl
  rw [memberShapes, ← List.append_assoc, ← shownMembers_shapes]
  refine reads_expect_bind rfl fun _ _ => reads_get_bind fun c kinds => ?_
  have enough : (shownMembers fs ms).length < c.ahead.length + 1 := by
    have long := length_of_kinds kinds
    have each := length_le_flatten filled
    rw [List.length_append, List.length_append] at long
    omega
  refine reads_bind (reads_membersUpTo readsBack depth tidy short owner titles (by simp) _ enough) ?_
  intro all same
  have fields := parts_recovered Member.field? Field.bare (by rintro (_ | _) <;> rfl) same
  have methods := parts_recovered Member.method? Method.bare (by rintro (_ | _) <;> rfl) same
  rw [shownMembers_fields, ← Field.bareAll_eq, ← Field.bareAll_eq] at fields
  rw [shownMembers_methods, ← Method.bareAll_eq, ← Method.bareAll_eq] at methods
  exact reads_next_bind fun _ _ => reads_pure ⟨fields, methods⟩

end Members

/-! ## Declarations -/

section Declarations

variable {g : Grammar} {n : Nat} (readsBack : g.ReadsBack n) (depth : Nat)
include readsBack

omit readsBack in
theorem typesBehind_first {P : TokenKind → Prop} (word : Keyword) (ts : List TypeExpr) {r : List Shape}
    (some_types : P (.keyword word)) (none : P (firstKind r)) :
    P (firstKind (typesBehind word ts ++ r)) := by
  cases ts with
  | nil => exact none
  | cons t ts => exact some_types

omit readsBack in
theorem extends_first {P : TokenKind → Prop} (parent : Option TypeExpr) {r : List Shape}
    (some_parent : P (.keyword .extendsWord)) (none : P (firstKind r)) :
    P (firstKind (extendsShapes parent ++ r)) := by
  cases parent with
  | none => exact none
  | some t => exact some_parent

/-- Types behind a word, if the word is there, and then something else. -/
theorem reads_typesBehind {α : Type} (word : Keyword) {ts : List TypeExpr} (tidy : TypeExpr.TidyAll ts)
    (small : (typesBehind word ts).length ≤ n) {rest : List TypeExpr → Reader α} {s r : List Shape}
    {Q : α → Prop} (brace : firstKind (s ++ r) = .symbol .leftBrace)
    (continues : ∀ bs, TypeExpr.bareAll bs = TypeExpr.bareAll ts → Reads (rest bs) s r Q) :
    Reads (do
      let bs ← if ← accept (.keyword word) then g.types depth else pure []
      rest bs) (typesBehind word ts ++ s) r Q := by
  cases ts with
  | nil =>
    have noWord : firstKind (s ++ r) ≠ .keyword word := by
      rw [brace]
      exact ne_of_beq_false rfl
    exact reads_accept_no noWord (continues [] rfl)
  | cons t ts =>
    have short : (commas (TypeExpr.shapesAll (t :: ts))).length ≤ n := Nat.le_of_succ_le small
    have last : EndsType (s ++ r) := by
      rw [EndsType, brace]
      rfl
    have noComma : firstKind (s ++ r) ≠ .symbol .comma := by
      rw [brace]
      exact ne_of_beq_false rfl
    refine reads_accept_yes rfl ?_
    exact reads_bind (reads_types readsBack depth (List.cons_ne_nil _ _) tidy short last noComma) continues

theorem reads_classDeclaration {isOpen : Bool} {parent : Option TypeExpr} {interfaces : List TypeExpr}
    {mark : Mark} {annotations as : List Annotation} {name : Name} {tps : List Name} {fs : List Field}
    {ms : List Method}
    (tidy : (Declaration.mk mark annotations (.ofClass isOpen parent interfaces) name tps fs ms).Tidy)
    (sameAnnotations : as.map Annotation.bare = annotations.map Annotation.bare) (start head : Token)
    (smallParent : (extendsShapes parent).length ≤ n)
    (smallInterfaces : (typesBehind .implementsWord interfaces).length ≤ n)
    (smallMembers : (Field.shapesAll fs ++ Method.shapesAll ms).length ≤ n) {r : List Shape} :
    Reads (g.classDeclaration depth start head as isOpen)
      (.name name.text :: (typeParamShapes tps ++ (extendsShapes parent ++
        (typesBehind .implementsWord interfaces ++ memberShapes fs ms)))) r
      fun a => a.bare =
        (Declaration.mk mark annotations (.ofClass isOpen parent interfaces) name tps fs ms).bare := by
  obtain ⟨_, ⟨tidyParent, tidyInterfaces⟩, _, _, tidyFields, tidyMethods, nodup, _⟩ := tidy
  unfold classDeclaration
  refine reads_take_bind (reads_name name _) fun name' sameName => ?_
  refine reads_bind (reads_typeParameters ?_) fun names sameNames => ?_
  · rw [List.append_assoc, List.append_assoc]
    refine extends_first (P := fun k => k ≠ .symbol .less) parent (ne_of_beq_false rfl) ?_
    exact typesBehind_first (P := fun k => k ≠ .symbol .less) _ interfaces (ne_of_beq_false rfl)
      (ne_of_beq_false rfl)
  have rest : ∀ parent', parent'.map TypeExpr.bare = parent.map TypeExpr.bare → Reads (do
      let interfaces ← if ← accept (.keyword .implementsWord) then g.types depth else pure []
      let members ← g.members depth name'.text
      return (⟨← markFrom head start, as, .ofClass isOpen parent' interfaces, name', names, members.1,
        members.2⟩ : Declaration)) (typesBehind .implementsWord interfaces ++ memberShapes fs ms) r
      fun a => a.bare =
        (Declaration.mk mark annotations (.ofClass isOpen parent interfaces) name tps fs ms).bare := by
    intro parent' sameParent
    refine reads_typesBehind readsBack depth _ tidyInterfaces smallInterfaces rfl ?_
    intro interfaces' sameInterfaces
    refine reads_last_bind (reads_members readsBack depth tidyFields tidyMethods nodup _ smallMembers) ?_
    rintro ⟨fields, methods⟩ ⟨sameFields, sameMethods⟩
    refine reads_markFrom_bind fun _ _ => reads_pure ?_
    rw [Declaration.bare, Declaration.bare, Heading.bare, Heading.bare, sameAnnotations, sameParent,
      sameInterfaces, sameName, sameNames, sameFields, sameMethods]
  cases parent with
  | none =>
    refine reads_accept_no ?_ (rest none rfl)
    rw [extendsShapes, List.nil_append, List.append_assoc]
    exact typesBehind_first (P := fun k => k ≠ .keyword .extendsWord) _ interfaces (ne_of_beq_false rfl)
      (ne_of_beq_false rfl)
  | some t =>
    have short : t.shapes.length ≤ n := Nat.le_of_succ_le smallParent
    refine reads_accept_yes rfl (reads_bind (readsBack.type t tidyParent short depth _ ?_) fun t' same => ?_)
    · rw [EndsType, List.append_assoc]
      exact typesBehind_first (P := fun k => endsType k = true) _ interfaces rfl rfl
    · exact rest (some t') (by rw [Option.map_some, Option.map_some, same])

theorem reads_interfaceDeclaration {parents : List TypeExpr}
    {mark : Mark} {annotations as : List Annotation} {name : Name} {tps : List Name} {fs : List Field}
    {ms : List Method}
    (tidy : (Declaration.mk mark annotations (.ofInterface parents) name tps fs ms).Tidy)
    (sameAnnotations : as.map Annotation.bare = annotations.map Annotation.bare) (start head : Token)
    (smallParents : (typesBehind .extendsWord parents).length ≤ n)
    (smallMembers : (Field.shapesAll fs ++ Method.shapesAll ms).length ≤ n) {r : List Shape} :
    Reads (g.interfaceDeclaration depth start head as)
      (.name name.text :: (typeParamShapes tps ++
        (typesBehind .extendsWord parents ++ memberShapes fs ms))) r
      fun a => a.bare =
        (Declaration.mk mark annotations (.ofInterface parents) name tps fs ms).bare := by
  obtain ⟨_, tidyParents, _, _, tidyFields, tidyMethods, nodup, noConstructor⟩ := tidy
  unfold interfaceDeclaration
  refine reads_take_bind (reads_name name _) fun name' sameName => ?_
  refine reads_bind (reads_typeParameters ?_) fun names sameNames => ?_
  · rw [List.append_assoc]
    exact typesBehind_first (P := fun k => k ≠ .symbol .less) _ parents (ne_of_beq_false rfl) (ne_of_beq_false rfl)
  refine reads_typesBehind readsBack depth _ tidyParents smallParents rfl ?_
  intro parents' sameParents
  refine reads_last_bind (reads_members readsBack depth tidyFields tidyMethods nodup _ smallMembers) ?_
  rintro ⟨fields, methods⟩ ⟨sameFields, sameMethods⟩
  have none : methods.find? (·.isConstructor) = none := by
    refine List.find?_eq_none.2 fun m found => ?_
    rw [Method.bareAll_eq, Method.bareAll_eq] at sameMethods
    obtain ⟨m', found', same⟩ := List.mem_map.1 (sameMethods ▸ List.mem_map_of_mem (f := Method.bare) found)
    rw [← Method.isConstructor_bare, ← same, Method.isConstructor_bare, noConstructor parents rfl m' found']
    exact Bool.false_ne_true
  dsimp only
  rw [none]
  refine reads_markFrom_bind fun _ _ => reads_pure ?_
  rw [Declaration.bare, Declaration.bare, Heading.bare, Heading.bare, sameAnnotations,
    sameParents, sameName, sameNames, sameFields, sameMethods]

theorem reads_declaration {d : Declaration} (tidy : d.Tidy) (small : d.shapes.length ≤ n + 1)
    {r : List Shape} : Reads (g.declaration depth) d.shapes r fun a => a.bare = d.bare := by
  obtain ⟨mark, annotations, heading, name, tps, fs, ms⟩ := d
  have split : (Declaration.mk mark annotations heading name tps fs ms).shapes =
      annotationShapes annotations ++ (headingShapes heading name tps ++ memberShapes fs ms) := rfl
  have members : (memberShapes fs ms).length = (Field.shapesAll fs ++ Method.shapesAll ms).length + 2 := by
    rw [memberShapes, List.length_cons, ← List.append_assoc, List.length_append, List.length_singleton]
  rw [split, List.length_append, List.length_append, members] at small
  have few : (Field.shapesAll fs ++ Method.shapesAll ms).length ≤ n := by omega
  rw [split]
  unfold declaration
  refine reads_peek_bind fun start _ => ?_
  cases heading with
  | ofClass isOpen parent interfaces =>
    -- The word `open` is all that tells the two kinds of classes apart.
    have opening : headingShapes (.ofClass isOpen parent interfaces) name tps ++ memberShapes fs ms =
        (if isOpen then [Shape.keyword .openWord] else []) ++ .keyword .classWord :: .name name.text ::
          (typeParamShapes tps ++ (extendsShapes parent ++
            (typesBehind .implementsWord interfaces ++ memberShapes fs ms))) := by
      simp only [headingShapes, List.append_assoc, List.cons_append]
    have reads := fun (as : List Annotation) (same : as.map Annotation.bare = annotations.map Annotation.bare)
      head => reads_classDeclaration readsBack depth tidy same start head
    simp only [headingShapes, List.length_append, List.length_cons] at small
    rw [opening]
    cases isOpen with
    | true =>
      refine reads_bind (reads_annotations (ne_of_beq_false rfl)) fun as same => reads_peek_bind fun t kind => ?_
      have kind : t.kind = .keyword .openWord := kind
      rw [kind]
      refine reads_next_bind fun _ _ => reads_expect_bind rfl fun head _ => ?_
      exact reads as same head (by omega) (by omega) few
    | false =>
      refine reads_bind (reads_annotations (ne_of_beq_false rfl)) fun as same => reads_peek_bind fun t kind => ?_
      have kind : t.kind = .keyword .classWord := kind
      rw [kind]
      exact reads_next_bind fun head _ => reads as same head (by omega) (by omega) few
  | ofInterface parents =>
    have opening : headingShapes (.ofInterface parents) name tps ++ memberShapes fs ms =
        .keyword .interfaceWord :: .name name.text ::
          (typeParamShapes tps ++ (typesBehind .extendsWord parents ++ memberShapes fs ms)) := by
      simp only [headingShapes, List.append_assoc, List.cons_append]
    simp only [headingShapes, List.length_append, List.length_cons] at small
    rw [opening]
    refine reads_bind (reads_annotations (ne_of_beq_false rfl)) fun as same => reads_peek_bind fun t kind => ?_
    have kind : t.kind = .keyword .interfaceWord := kind
    rw [kind]
    refine reads_next_bind fun head _ => ?_
    exact reads_interfaceDeclaration readsBack depth tidy same start head (by omega) few

end Declarations

/-! ## Statements -/

theorem reads_importNames {names : List Name} {r : List Shape} (ends : firstKind r ≠ .symbol .leftBrace) :
    Reads importNames (importShapes names) r fun ns => ns.map Name.bare = names.map Name.bare := by
  cases names with
  | nil => exact reads_accept_no ends (reads_pure rfl)
  | cons n names =>
    refine reads_accept_yes rfl ?_
    refine reads_bind (reads_names (List.cons_ne_nil _ _) (ne_of_beq_false rfl)) fun ns all => ?_
    exact reads_expect_bind rfl fun _ _ => reads_expect_bind rfl fun _ _ => reads_pure all

theorem reads_importing {m : Mark} {names : List Name} {path : Quotation} (quotable : IsQuotable path.value)
    {r : List Shape} :
    Reads importing (Stmt.uses m names path).shapes r fun a => a.bare = (Stmt.uses m names path).bare := by
  rw [Stmt.shapes]
  refine reads_next_bind fun start _ => reads_bind (reads_importNames (ne_of_beq_false rfl)) fun ns all => ?_
  refine reads_expect_bind rfl fun t shape => reads_expect_bind rfl fun _ _ => ?_
  refine reads_markFrom_bind fun _ _ => reads_pure ?_
  rw [Stmt.bare, Stmt.bare, all, Quotation.bare, Quotation.bare, contents_of_shape quotable shape]

section Statements

variable {g : Grammar} {n : Nat} (readsBack : g.ReadsBack n) (depth : Nat)
include readsBack

theorem reads_binding {m : Mark} {name : Name} {type : Option TypeExpr} {value : Option Expr}
    (tidy : (Stmt.binds m name type value).Tidy)
    (small : (Stmt.binds m name type value).shapes.length ≤ n + 1) {r : List Shape} :
    Reads (g.binding depth) (Stmt.binds m name type value).shapes r
      fun a => a.bare = (Stmt.binds m name type value).bare := by
  obtain ⟨_, tidyType, tidyValue⟩ := tidy
  rw [Stmt.shapes] at small ⊢
  simp only [List.length_cons, List.length_append] at small
  refine reads_next_bind fun start _ => reads_take_bind (reads_name name _) fun name' sameName => ?_
  refine reads_bind (reads_typed readsBack depth tidyType (by omega) ?_ ?_) fun t sameType => ?_
  · rw [List.append_assoc]
    exact initialiser_first (P := fun k => endsType k = true) value rfl rfl
  · rw [List.append_assoc]
    exact initialiser_first (P := fun k => k ≠ .symbol .colon) value (ne_of_beq_false rfl) (ne_of_beq_false rfl)
  refine reads_bind (reads_initialiser readsBack depth tidyValue (by omega) rfl (ne_of_beq_false rfl)) ?_
  intro e sameValue
  refine reads_expect_bind rfl fun _ _ => reads_markFrom_bind fun _ _ => reads_pure ?_
  rw [Stmt.bare, Stmt.bare, sameName, sameType, sameValue]

theorem reads_returning {m : Mark} {value : Option Expr} (tidy : Expr.TidyOption value)
    (small : (Stmt.returns m value).shapes.length ≤ n + 1) {r : List Shape} :
    Reads (g.returning depth) (Stmt.returns m value).shapes r
      fun a => a.bare = (Stmt.returns m value).bare := by
  unfold returning
  have rest : ∀ start value', Expr.bareOption value' = Expr.bareOption value → Reads (do
      let _ ← expect (.symbol .semicolon)
      return Stmt.returns (← markFrom start start) value') [.symbol .semicolon] r
      fun a => a.bare = (Stmt.returns m value).bare := by
    intro start value' same
    refine reads_expect_bind rfl fun _ _ => reads_markFrom_bind fun _ _ => reads_pure ?_
    rw [Stmt.bare, Stmt.bare, same]
  cases value with
  | none => exact reads_next_bind fun start _ => reads_peekIs_bind (rest start none rfl)
  | some e =>
    rw [Stmt.shapes] at small ⊢
    rw [List.length_cons, List.length_append] at small
    refine reads_next_bind fun start _ => reads_peekIs_bind ?_
    have other : (firstKind (e.shapes ++ [Shape.symbol .semicolon] ++ r) == .symbol .semicolon) = false := by
      rw [List.append_assoc]
      exact beq_eq_false_iff_ne.2 (kind_ne_of_starts (e.starts tidy _) rfl)
    rw [other, if_neg Bool.false_ne_true]
    refine reads_bind (reads_value readsBack depth tidy (by omega) rfl) fun a same => ?_
    exact rest start (some a) (by rw [Expr.bareOption, Expr.bareOption, same])

theorem reads_parenthesised {e : Expr} (tidy : e.Tidy) (small : e.shapes.length ≤ n) {r : List Shape} :
    Reads (g.parenthesised depth) (.symbol .leftParen :: (e.shapes ++ [Shape.symbol .rightParen])) r
      fun a => a.bare = e.bare := by
  refine reads_expect_bind rfl fun _ _ => ?_
  refine reads_bind (reads_value readsBack depth tidy small rfl) fun a same => ?_
  exact reads_expect_bind rfl fun _ _ => reads_pure same

theorem reads_branching {m : Mark} {condition : Expr} {yes : Block} {no : Option Stmt}
    (tidy : (Stmt.branch m condition yes no).Tidy)
    (small : (Stmt.branch m condition yes no).shapes.length ≤ n + 1) {r : List Shape}
    (ends : firstKind r ≠ .keyword .elseWord) :
    Reads (g.branching depth) (Stmt.branch m condition yes no).shapes r
      fun a => a.bare = (Stmt.branch m condition yes no).bare := by
  obtain ⟨tidyCondition, tidyYes, tidyNo⟩ := tidy
  have split : (Stmt.branch m condition yes no).shapes = .keyword .ifWord ::
      ((.symbol .leftParen :: (condition.shapes ++ [Shape.symbol .rightParen])) ++
        (yes.shapes ++ Stmt.otherwiseShapes no)) := by
    rw [Stmt.shapes, List.cons_append, List.append_assoc, List.singleton_append]
  simp only [split, List.length_cons, List.length_append] at small
  rw [split]
  unfold branching
  refine reads_next_bind fun start _ => ?_
  refine reads_bind (reads_parenthesised readsBack depth tidyCondition (by omega)) fun e sameCondition => ?_
  refine reads_bind (reads_block readsBack depth tidyYes (by omega)) fun b sameYes => ?_
  have rest : ∀ no', Stmt.bareOption no' = Stmt.bareOption no →
      Reads (do return Stmt.branch (← markFrom start start) e b no') [] r
        fun a => a.bare = (Stmt.branch m condition yes no).bare := by
    intro no' sameNo
    refine reads_markFrom_bind fun _ _ => reads_pure ?_
    rw [Stmt.bare, Stmt.bare, sameCondition, sameYes, sameNo]
  cases no with
  | none => exact reads_accept_no ends (rest none rfl)
  | some s =>
    obtain ⟨isOtherwise, tidyOther⟩ := tidyNo
    rw [Stmt.otherwiseShapes, List.length_cons] at small
    refine reads_accept_yes rfl (reads_peekIs_bind ?_)
    cases s with
    | block body =>
      have other : (firstKind (Stmt.shapes (.block body) ++ r) == .keyword .ifWord) = false := by
        cases body
        rfl
      have short : body.shapes.length ≤ n + 1 := by
        rw [Stmt.shapes] at small
        omega
      rw [other, if_neg Bool.false_ne_true, Stmt.shapes]
      refine reads_last_bind (reads_block readsBack depth tidyOther short) fun a same => ?_
      exact rest (some (.block a)) (by rw [Stmt.bareOption, Stmt.bareOption, Stmt.bare, Stmt.bare, same])
    | branch m' condition' yes' no' =>
      have again : (firstKind (Stmt.shapes (.branch m' condition' yes' no') ++ r) ==
          .keyword .ifWord) = true := rfl
      rw [again, if_pos rfl]
      refine reads_last_bind (readsBack.statement _ tidyOther (by omega) depth r ends) fun a same => ?_
      exact rest (some a) (by rw [Stmt.bareOption, Stmt.bareOption, same])
    | uses | binds | select | each | returns | does | declares => cases isOtherwise

omit readsBack in
theorem reads_armsEnd (fallback : Option Block) (fuel : Nat) {r : List Shape} :
    Reads (g.armsUpTo depth fallback (fuel + 1)) [] (.symbol .rightBrace :: r)
      fun found => found = ([], fallback) := by
  refine reads_peek_bind fun t kind => ?_
  have stops : (t.kind == .symbol .rightBrace) = true := beq_iff_eq.2 kind
  rw [if_pos stops]
  exact reads_pure rfl

/-- Arms and then the default case up to the closing brace. -/
theorem reads_armsUpTo {arms : List Arm} {fallback : Option Block} (tidyArms : Arm.TidyAll arms)
    (tidyFallback : Block.TidyOption fallback)
    (small : (Arm.shapesAll arms ++ Block.fallbackShapes fallback).length ≤ n) {r : List Shape} (fuel : Nat)
    (enough : arms.length + 1 < fuel) :
    Reads (g.armsUpTo depth none fuel) (Arm.shapesAll arms ++ Block.fallbackShapes fallback)
      (.symbol .rightBrace :: r) fun found =>
        Arm.bareAll found.1 = Arm.bareAll arms ∧ Block.bareOption found.2 = Block.bareOption fallback := by
  induction arms generalizing fuel with
  | nil =>
    obtain ⟨fuel, rfl⟩ : ∃ f, fuel = f + 2 := ⟨fuel - 2, by omega⟩
    cases fallback with
    | none =>
      refine reads_mono (reads_armsEnd depth none (fuel + 1)) ?_
      rintro found rfl
      exact ⟨rfl, rfl⟩
    | some b =>
      have short : b.shapes.length ≤ n + 1 := by
        rw [Arm.shapesAll, List.nil_append, Block.fallbackShapes, List.length_cons, List.length_cons] at small
        omega
      rw [Arm.shapesAll, List.nil_append, Block.fallbackShapes]
      refine reads_peek_bind fun t kind => ?_
      have kind : t.kind = .keyword .defaultWord := kind
      rw [kind]
      refine reads_next_bind fun _ _ => reads_expect_bind rfl fun _ _ => ?_
      refine reads_last_bind (reads_block readsBack depth tidyFallback short) fun a same => ?_
      refine reads_mono (reads_armsEnd depth (some a) fuel) ?_
      rintro found rfl
      exact ⟨rfl, by rw [Block.bareOption, Block.bareOption, same]⟩
  | cons arm arms ih =>
    obtain ⟨mark, value, body⟩ := arm
    obtain ⟨⟨tidyValue, tidyBody⟩, tidyOthers⟩ := tidyArms
    obtain ⟨fuel, rfl⟩ : ∃ f, fuel = f + 1 := ⟨fuel - 1, by omega⟩
    have split : Arm.shapesAll (⟨mark, value, body⟩ :: arms) ++ Block.fallbackShapes fallback =
        value.shapes ++ .symbol .fatArrow :: (body.shapes ++
          (Arm.shapesAll arms ++ Block.fallbackShapes fallback)) := by
      rw [Arm.shapesAll, Arm.shapes, List.append_assoc, List.append_assoc, List.cons_append]
    rw [split, List.length_append, List.length_cons, List.length_append] at small
    rw [split]
    refine reads_peek_bind fun t kind => ?_
    have starts : startsExpr t.kind = true := by
      rw [kind, List.append_assoc]
      exact value.starts tidyValue _
    have noBrace : t.kind ≠ .symbol .rightBrace := kind_ne_of_starts starts rfl
    have noEnd : t.kind ≠ .endOfInput := kind_ne_of_starts starts rfl
    have noDefault : t.kind ≠ .keyword .defaultWord := kind_ne_of_starts starts rfl
    rw [if_neg (by simpa using noBrace), if_neg (by simpa using noEnd), if_neg (by simpa using noDefault)]
    refine reads_bind (reads_value readsBack depth tidyValue (by omega) rfl) fun e sameValue => ?_
    refine reads_expect_bind rfl fun _ _ => ?_
    refine reads_bind (reads_block readsBack depth tidyBody (by omega)) fun b sameBody => ?_
    refine reads_markFrom_bind fun mark' _ => ?_
    rw [List.length_cons] at enough
    refine reads_last_bind (ih tidyOthers (by omega) fuel (by omega)) ?_
    rintro ⟨arms', fallback'⟩ ⟨sameArms, sameFallback⟩
    refine reads_pure ⟨?_, sameFallback⟩
    rw [Arm.bareAll, Arm.bareAll, sameValue, sameBody, sameArms]

omit readsBack in
theorem length_le_arms {arms : List Arm} (tidy : Arm.TidyAll arms) :
    arms.length ≤ (Arm.shapesAll arms).length := by
  induction arms with
  | nil => exact Nat.le_refl 0
  | cons arm arms ih =>
    obtain ⟨mark, value, body⟩ := arm
    have others := ih tidy.2
    rw [Arm.shapesAll, Arm.shapes, List.length_append, List.length_append, List.length_cons, List.length_cons]
    omega

theorem reads_selecting {m : Mark} {subject : Expr} {arms : List Arm} {fallback : Option Block}
    (tidy : (Stmt.select m subject arms fallback).Tidy)
    (small : (Stmt.select m subject arms fallback).shapes.length ≤ n + 1) {r : List Shape} :
    Reads (g.selecting depth) (Stmt.select m subject arms fallback).shapes r
      fun a => a.bare = (Stmt.select m subject arms fallback).bare := by
  obtain ⟨tidySubject, tidyArms, tidyFallback⟩ := tidy
  have split : (Stmt.select m subject arms fallback).shapes = .keyword .matchWord ::
      ((.symbol .leftParen :: (subject.shapes ++ [Shape.symbol .rightParen])) ++ .symbol .leftBrace ::
        ((Arm.shapesAll arms ++ Block.fallbackShapes fallback) ++ [Shape.symbol .rightBrace])) := by
    simp only [Stmt.shapes, List.cons_append, List.append_assoc, List.nil_append]
  have short : subject.shapes.length ≤ n ∧
      (Arm.shapesAll arms ++ Block.fallbackShapes fallback).length ≤ n := by
    simp only [split, List.length_cons, List.length_append] at small ⊢
    omega
  rw [split]
  refine reads_next_bind fun start _ => ?_
  refine reads_bind (reads_parenthesised readsBack depth tidySubject short.1) fun e sameSubject => ?_
  refine reads_expect_bind rfl fun _ _ => reads_get_bind fun c kinds => ?_
  have enough : arms.length + 1 < c.ahead.length + 1 := by
    have long := length_of_kinds kinds
    have each := length_le_arms tidyArms
    rw [List.length_append, List.length_append, List.length_append, List.length_singleton] at long
    omega
  refine reads_bind (reads_armsUpTo readsBack depth tidyArms tidyFallback short.2 _ enough) ?_
  rintro ⟨arms', fallback'⟩ ⟨sameArms, sameFallback⟩
  refine reads_next_bind fun _ _ => reads_markFrom_bind fun _ _ => reads_pure ?_
  rw [Stmt.bare, Stmt.bare, sameSubject, sameArms, sameFallback]

theorem reads_looping {m : Mark} {item : Name} {iterable : Expr} {body : Block}
    (tidy : (Stmt.each m item iterable body).Tidy)
    (small : (Stmt.each m item iterable body).shapes.length ≤ n + 1) {r : List Shape} :
    Reads (g.looping depth) (Stmt.each m item iterable body).shapes r
      fun a => a.bare = (Stmt.each m item iterable body).bare := by
  obtain ⟨_, tidyIterable, tidyBody⟩ := tidy
  rw [Stmt.shapes] at small ⊢
  simp only [List.length_cons, List.length_append] at small
  refine reads_next_bind fun start _ => reads_expect_bind rfl fun _ _ => ?_
  refine reads_take_bind (reads_name item _) fun item' sameItem => reads_expect_bind rfl fun _ _ => ?_
  refine reads_bind (reads_value readsBack depth tidyIterable (by omega) rfl) fun e sameIterable => ?_
  refine reads_expect_bind rfl fun _ _ => ?_
  refine reads_last_bind (reads_block readsBack depth tidyBody (by omega)) fun b sameBody => ?_
  refine reads_markFrom_bind fun _ _ => reads_pure ?_
  rw [Stmt.bare, Stmt.bare, sameItem, sameIterable, sameBody]

theorem reads_doing {m : Mark} {e : Expr} (tidy : e.Tidy)
    (small : (Stmt.does m e).shapes.length ≤ n + 1) {r : List Shape} :
    Reads (g.doing depth) (Stmt.does m e).shapes r fun a => a.bare = (Stmt.does m e).bare := by
  rw [Stmt.shapes, List.length_append, List.length_singleton] at small
  rw [Stmt.shapes]
  refine reads_peek_bind fun start _ => ?_
  refine reads_bind (reads_value readsBack depth tidy (by omega) rfl) fun a same => ?_
  refine reads_expect_bind rfl fun _ _ => reads_markFrom_bind fun _ _ => reads_pure ?_
  rw [Stmt.bare, Stmt.bare, same]

omit readsBack in
theorem declaration_kinds {k : TokenKind} (starts : startsDeclaration k = true) :
    k = .atName ∨ k = .keyword .openWord ∨ k = .keyword .classWord ∨ k = .keyword .interfaceWord := by
  unfold startsDeclaration at starts
  split at starts
  · exact .inl rfl
  · exact .inr (.inl rfl)
  · exact .inr (.inr (.inl rfl))
  · exact .inr (.inr (.inr rfl))
  · cases starts

theorem reads_statementStep {s : Stmt} (tidy : s.Tidy) (small : s.shapes.length ≤ n + 1) {r : List Shape}
    (ends : firstKind r ≠ .keyword .elseWord) :
    Reads (g.statementStep depth) s.shapes r fun a => a.bare = s.bare := by
  unfold statementStep
  refine reads_peek_bind fun t kind => ?_
  cases s with
  | uses m names path =>
    have kind : t.kind = .keyword .importWord := kind
    rw [kind]
    exact reads_importing tidy.2
  | binds m name type value =>
    have kind : t.kind = .keyword .letWord := kind
    rw [kind]
    exact reads_binding readsBack depth tidy small
  | block b =>
    have kind : t.kind = .symbol .leftBrace := by
      cases b
      exact kind
    rw [kind]
    refine reads_last_bind (reads_block readsBack depth tidy small) fun a same => reads_pure ?_
    rw [Stmt.bare, Stmt.bare, same]
  | branch m condition yes no =>
    have kind : t.kind = .keyword .ifWord := kind
    rw [kind]
    exact reads_branching readsBack depth tidy small ends
  | select m subject arms fallback =>
    have kind : t.kind = .keyword .matchWord := kind
    rw [kind]
    exact reads_selecting readsBack depth tidy small
  | each m item iterable body =>
    have kind : t.kind = .keyword .foreachWord := kind
    rw [kind]
    exact reads_looping readsBack depth tidy small
  | returns m value =>
    have kind : t.kind = .keyword .returnWord := by
      cases value <;> exact kind
    rw [kind]
    exact reads_returning readsBack depth tidy small
  | does m e =>
    have starts : startsExpr t.kind = true := by
      rw [kind, Stmt.shapes, List.append_assoc]
      exact e.starts tidy _
    -- No other statement starts as an expression does.
    split <;> first
      | exact reads_doing readsBack depth tidy small
      | next found =>
        rw [found] at starts
        cases starts
  | declares d =>
    have starts : startsDeclaration t.kind = true := by
      rw [kind, Stmt.shapes]
      exact d.starts r
    have reads : Reads (do return Stmt.declares (← g.declaration depth)) d.shapes r
        fun a => a.bare = (Stmt.declares d).bare := by
      refine reads_last_bind (reads_declaration readsBack depth tidy small) fun a same => reads_pure ?_
      rw [Stmt.bare, Stmt.bare, same]
    rcases declaration_kinds starts with found | found | found | found <;> rw [found] <;> exact reads

end Statements

/-! ## The whole grammar -/

/-- With a bound for as many nested calls as there are tokens, every tidy tree is read back. -/
theorem within_readsBack (fuel : Nat) : (within fuel).ReadsBack fuel := by
  induction fuel with
  | zero =>
    -- No tree has no tokens.
    have none : ∀ {s : List Shape}, s.length ≤ 0 → s = [] :=
      fun small => List.eq_nil_of_length_eq_zero (Nat.le_zero.1 small)
    constructor
    · intro s tidy small
      exact absurd (none small) (ne_nil_of_starts (Stmt.starts tidy) rfl)
    · intro e tidy limit context _ _ small
      exact absurd (none small) (ne_nil_of_starts (fun _ => operand_starts (e.starts tidy)) rfl)
    · intro t _ small
      exact absurd (none small) (ne_nil_of_starts t.starts rfl)
    · rintro ⟨_, _, _, _, _⟩ _ small
      cases none small
  | succ fuel ih =>
    rw [within_succ]
    constructor
    · exact fun s tidy small depth r ends => reads_statementStep ih depth tidy small ends
    · exact fun e tidy limit context serves sheltered small depth r ends =>
        reads_expressionStep ih depth tidy serves sheltered small ends
    · exact fun t tidy small depth r ends => reads_typeStep depth ih tidy small ends
    · exact fun e tidy small depth r => reads_elementStep ih depth tidy small

end Grammar

end ClassScript
