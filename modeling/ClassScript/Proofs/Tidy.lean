import ClassScript.Grammar.Program
import ClassScript.Proofs.Clear

/-!
# Trees that could be written down

A tree is tidy when it could be written down: its names are identifiers, its numbers are numerals in
range, its quotations hold no quote, `super` stands only where it is called or followed by a member,
targets of assignments are targets, members of a declaration have different names, texts in markup are
runs of tokens that nothing before or behind them runs into. Scanning promises as much about single
tokens (`Lexer.Scanned.proper`).
-/

namespace ClassScript

/-- A letter with letters and digits behind it. -/
def IsWord (word : String) : Prop :=
  ∃ c cs, word.toList = c :: cs ∧ Lexer.isLetter (.char c) = true ∧
    ∀ d ∈ cs, Lexer.isWordPart (.char d) = true

/-- A word that is neither reserved nor a truth value. -/
def IsName (word : String) : Prop := IsWord word ∧ TokenKind.ofWord word = .identifier

/-- Digits that stand for a number in range. -/
def IsNumeral (word : String) : Prop :=
  ∃ c cs, word.toList = c :: cs ∧ (∀ d ∈ c :: cs, Lexer.isDigit (.char d) = true) ∧
    Token.decimal (Text.ofString word) ≤ Lexer.maxInteger

/-- Text that can stand between quotes in a file. -/
def IsQuotable (t : Text) : Prop := (∀ g ∈ t, g.is '"' = false) ∧ t.Settled

/-- Exactly one of public and private. -/
def Modifiers.Tidy (m : Modifiers) : Prop := m.isPublic = !m.isPrivate

/-- Whether a statement can be the other side of a branch. -/
def Stmt.isOtherwise : Stmt → Bool
  | .block _ | .branch .. => true
  | _ => false

/-! ## Tidy trees -/

mutual

/-- The type could be written down. -/
def TypeExpr.Tidy : TypeExpr → Prop
  | .simple _ name _ => IsName name
  | .generic _ name args _ => IsName name ∧ args ≠ [] ∧ TypeExpr.TidyAll args
  | .function _ params result nullable =>
    nullable = false ∧ TypeExpr.TidyAll params ∧ result.Tidy

/-- All types could be written down. -/
def TypeExpr.TidyAll : List TypeExpr → Prop
  | [] => True
  | t :: ts => t.Tidy ∧ TypeExpr.TidyAll ts

end

/-- The type, if there is one, could be written down. -/
def TypeExpr.TidyOption : Option TypeExpr → Prop
  | none => True
  | some t => t.Tidy

/-- The heading could be written down. -/
def Heading.Tidy : Heading → Prop
  | .ofClass _ parent interfaces => TypeExpr.TidyOption parent ∧ TypeExpr.TidyAll interfaces
  | .ofInterface parents => TypeExpr.TidyAll parents

open Layout (strength) in
mutual

/-- The expression could be written down and stand by itself. -/
def Expr.Tidy : Expr → Prop
  | .name id => IsName id.text
  | .number _ digits => IsNumeral digits
  | .string q => IsQuotable q.value
  | .boolean m value => m.head.word = if value then "true" else "false"
  | .null _ | .self _ => True
  | .parent _ => False
  | .binary _ op left right =>
    left.Tidy ∧ right.Tidy ∧ left.isSheltered (strength op) = true ∧
      right.isSheltered (strength op + 1) = true
  | .unary _ _ operand => operand.Tidy ∧ operand.isSheltered 8 = true
  | .assign _ target value =>
    target.isTarget = true ∧ target.Tidy ∧ value.Tidy ∧ value.isSheltered 1 = true
  | .member _ object property =>
    (object.isParent = true ∨ object.Tidy) ∧ IsName property.text ∧ object.isSheltered 9 = true
  | .index _ object i => object.Tidy ∧ i.Tidy ∧ object.isSheltered 9 = true
  | .call _ callee args =>
    (callee.isParent = true ∨ callee.Tidy) ∧ Expr.TidyAll args ∧ callee.isSheltered 9 = true
  | .create _ type args => type.name?.isSome = true ∧ type.Tidy ∧ Expr.TidyAll args
  | .array _ elements => Expr.TidyAll elements
  | .lambda _ params result body =>
    Param.TidyAll params ∧ TypeExpr.TidyOption result ∧ body.Tidy ∧
      Balanced (commas (Param.shapesAll params))
  | .markup e => e.Tidy

/-- All expressions are tidy. -/
def Expr.TidyAll : List Expr → Prop
  | [] => True
  | e :: es => e.Tidy ∧ Expr.TidyAll es

/-- The expression, if there is one, is tidy. -/
def Expr.TidyOption : Option Expr → Prop
  | none => True
  | some e => e.Tidy

/-- The parameter could be written down. -/
def Param.Tidy : Param → Prop
  | ⟨_, name, type, fallback⟩ =>
    IsName name.text ∧ TypeExpr.TidyOption type ∧ Expr.TidyOption fallback

/-- All parameters are tidy. -/
def Param.TidyAll : List Param → Prop
  | [] => True
  | p :: ps => p.Tidy ∧ Param.TidyAll ps

/-- The body of a lambda could be written down. -/
def LambdaBody.Tidy : LambdaBody → Prop
  | .block b => b.Tidy
  | .value e => e.Tidy

/-- The element could be written down. -/
def Element.Tidy : Element → Prop
  | ⟨_, tag, attributes, children, selfClosing⟩ =>
    IsWord tag ∧ Attribute.TidyAll attributes ∧ Child.TidyAll children ∧
      Child.startsEqual children = false ∧ (selfClosing = true → children = [])

/-- The attributes could be written down. -/
def Attribute.TidyAll : List Attribute → Prop
  | [] => True
  | ⟨_, name, value⟩ :: rest => IsWord name ∧ value.Tidy ∧ Attribute.TidyAll rest

/-- The children could be written down behind each other. -/
def Child.TidyAll : List Child → Prop
  | [] => True
  | .element e :: rest =>
    e.Tidy ∧ Child.TidyAll rest ∧ (e.selfClosing = true ∨ Child.startsEqual rest = false)
  | .text _ t :: rest => IsRun t ∧ Child.TidyAll rest ∧ Child.startsText rest = false
  | .hole _ e :: rest => e.Tidy ∧ Child.TidyAll rest

/-- The block could be written down. -/
def Block.Tidy : Block → Prop
  | ⟨_, statements⟩ => Stmt.TidyAll statements

/-- The block, if there is one, is tidy. -/
def Block.TidyOption : Option Block → Prop
  | none => True
  | some b => b.Tidy

/-- The arm could be written down. -/
def Arm.Tidy : Arm → Prop
  | ⟨_, value, body⟩ => value.Tidy ∧ body.Tidy

/-- All arms are tidy. -/
def Arm.TidyAll : List Arm → Prop
  | [] => True
  | a :: rest => a.Tidy ∧ Arm.TidyAll rest

/-- The statement could be written down. -/
def Stmt.Tidy : Stmt → Prop
  | .uses _ names path => (∀ n ∈ names, IsName n.text) ∧ IsQuotable path.value
  | .binds _ name type value => IsName name.text ∧ TypeExpr.TidyOption type ∧ Expr.TidyOption value
  | .block b => b.Tidy
  | .branch _ condition yes no => condition.Tidy ∧ yes.Tidy ∧ Stmt.TidyOtherwise no
  | .select _ subject arms fallback => subject.Tidy ∧ Arm.TidyAll arms ∧ Block.TidyOption fallback
  | .each _ item iterable body => IsName item.text ∧ iterable.Tidy ∧ body.Tidy
  | .returns _ value => Expr.TidyOption value
  | .does _ e => e.Tidy
  | .declares d => d.Tidy

/-- The statement, if there is one, could be the other side of a branch. -/
def Stmt.TidyOtherwise : Option Stmt → Prop
  | none => True
  | some s => s.isOtherwise = true ∧ s.Tidy

/-- All statements are tidy. -/
def Stmt.TidyAll : List Stmt → Prop
  | [] => True
  | s :: ss => s.Tidy ∧ Stmt.TidyAll ss

/-- The field could be written down. -/
def Field.Tidy : Field → Prop
  | ⟨_, annotations, modifiers, name, type, init⟩ =>
    (∀ a ∈ annotations, IsWord a.name) ∧ modifiers.Tidy ∧ IsName name.text ∧
      TypeExpr.TidyOption type ∧ Expr.TidyOption init

/-- All fields are tidy. -/
def Field.TidyAll : List Field → Prop
  | [] => True
  | f :: fs => f.Tidy ∧ Field.TidyAll fs

/-- The method could be written down. -/
def Method.Tidy : Method → Prop
  | ⟨_, annotations, modifiers, name, isConstructor, typeParams, params, result, body⟩ =>
    (∀ a ∈ annotations, IsWord a.name) ∧ modifiers.Tidy ∧
      (if isConstructor then name.text = "constructor" else IsName name.text) ∧
      (∀ n ∈ typeParams, IsName n.text) ∧ Param.TidyAll params ∧ TypeExpr.TidyOption result ∧
      Block.TidyOption body

/-- All methods are tidy. -/
def Method.TidyAll : List Method → Prop
  | [] => True
  | m :: ms => m.Tidy ∧ Method.TidyAll ms

/-- The declaration could be written down. -/
def Declaration.Tidy : Declaration → Prop
  | ⟨_, annotations, heading, name, typeParams, fields, methods⟩ =>
    (∀ a ∈ annotations, IsWord a.name) ∧ heading.Tidy ∧ IsName name.text ∧
      (∀ n ∈ typeParams, IsName n.text) ∧ Field.TidyAll fields ∧ Method.TidyAll methods ∧
      (fields.map (·.name.text) ++ methods.map (·.name.text)).Nodup ∧
      (∀ parents, heading = .ofInterface parents → ∀ m ∈ methods, m.isConstructor = false)

end

/-- The program could be written down. -/
def Program.Tidy (p : Program) : Prop := Stmt.TidyAll p.statements

/-! ## Words -/

theorem isWord_truth {word : String} (truth : word = "true" ∨ word = "false") : IsWord word := by
  rcases truth with rfl | rfl
  · exact ⟨'t', ['r', 'u', 'e'], rfl, by decide, List.all_eq_true.1 (by decide)⟩
  · exact ⟨'f', ['a', 'l', 's', 'e'], rfl, by decide, List.all_eq_true.1 (by decide)⟩

theorem isWord_keyword (k : Keyword) : IsWord k.spelling ∧ TokenKind.ofWord k.spelling = .keyword k := by
  cases k <;> exact ⟨⟨_, _, rfl, by decide, List.all_eq_true.1 (by decide)⟩, by decide⟩

/-! ## Scanned tokens -/

/-- The text of the token is one that its class promises. -/
def Token.Proper (t : Token) : Prop :=
  match t.kind with
  | .identifier => IsName t.word
  | .number => IsNumeral t.word
  | .boolean => t.word = "true" ∨ t.word = "false"
  | .string => IsQuotable t.contents
  | .atName => IsWord (Text.shown (t.lexeme.drop 1))
  | .keyword k => t.word = k.spelling
  | _ => True

namespace Lexer

theorem shown_letter {g : Glyph} (letter : isLetter g = true) : g = .char g.shown := by
  cases g with
  | char c => rfl
  | stray b => cases letter

theorem shown_digit {g : Glyph} (digit : isDigit g = true) : g = .char g.shown := by
  cases g with
  | char c => rfl
  | stray b => cases digit

theorem shown_wordPart {g : Glyph} (part : isWordPart g = true) : g = .char g.shown := by
  cases g with
  | char c => rfl
  | stray b => cases part

theorem take_run (p : Glyph → Bool) (t : Text) : t.take (run p t) = t.takeWhile p := by
  rw [run]
  exact List.prefix_iff_eq_take.1 (List.takeWhile_prefix p) |>.symm

theorem of_mem_takeWhile {p : Glyph → Bool} {t : Text} {g : Glyph} (found : g ∈ t.takeWhile p) :
    p g = true := List.all_eq_true.1 List.all_takeWhile g found

theorem isWord_shown {g : Glyph} {t : Text} (letter : isLetter g = true)
    (parts : ∀ h ∈ t, isWordPart h = true) : IsWord (Text.shown (g :: t)) := by
  refine ⟨g.shown, t.map Glyph.shown, ?_, ?_, ?_⟩
  · rw [Text.shown, List.map_cons, String.toList_ofList]
  · rwa [← shown_letter letter]
  · intro d found
    obtain ⟨h, mem, rfl⟩ := List.mem_map.1 found
    rw [← shown_wordPart (parts h mem)]
    exact parts h mem

theorem ofString_shown_digits {t : Text} (digits : ∀ h ∈ t, isDigit h = true) :
    Text.ofString t.shown = t := by
  rw [Text.ofString, Text.shown, String.toList_ofList, List.map_map]
  calc t.map (Glyph.char ∘ Glyph.shown)
      = t.map id := List.map_congr_left fun h found => (shown_digit (digits h found)).symm
    _ = t := List.map_id t

theorem isNumeral_shown {g : Glyph} {t : Text} (digits : ∀ h ∈ g :: t, isDigit h = true)
    (small : Token.decimal (g :: t) ≤ maxInteger) : IsNumeral (Text.shown (g :: t)) := by
  refine ⟨g.shown, t.map Glyph.shown, ?_, ?_, ?_⟩
  · rw [Text.shown, List.map_cons, String.toList_ofList]
  · intro d found
    rw [← List.map_cons] at found
    obtain ⟨h, mem, rfl⟩ := List.mem_map.1 found
    rw [← shown_digit (digits h mem)]
    exact digits h mem
  · rwa [ofString_shown_digits digits]

theorem ofWord_cases (word : String) :
    (TokenKind.ofWord word = .boolean ∧ (word = "true" ∨ word = "false")) ∨
      (∃ k, TokenKind.ofWord word = .keyword k ∧ word = k.spelling) ∨
      TokenKind.ofWord word = .identifier := by
  by_cases truth : (word == "true" || word == "false") = true
  · refine .inl ⟨by rw [TokenKind.ofWord, if_pos truth], ?_⟩
    simpa using truth
  · rw [TokenKind.ofWord, if_neg truth]
    cases found : Keyword.ofSpelling? word with
    | none => exact .inr (.inr rfl)
    | some k =>
      have spelled := List.find?_some found
      exact .inr (.inl ⟨k, rfl, (beq_iff_eq.1 spelled).symm⟩)

theorem proper_word {word : Text} {span : Span} (isWord : IsWord word.shown) :
    Token.Proper ⟨.ofWord word.shown, word, span⟩ := by
  rcases ofWord_cases word.shown with ⟨kind, truth⟩ | ⟨k, kind, spelled⟩ | kind
  · simp only [Token.Proper, kind]
    exact truth
  · simp only [Token.Proper, kind]
    exact spelled
  · simp only [Token.Proper, kind]
    exact ⟨isWord, kind⟩

theorem takeWhile_take (p : Glyph → Bool) (t : Text) (n : Nat) (enough : (t.takeWhile p).length ≤ n) :
    (t.take n).takeWhile p = t.takeWhile p := by
  induction t generalizing n with
  | nil => rw [List.take_nil]
  | cons g t ih =>
    by_cases holds : p g = true
    · rw [List.takeWhile_cons_of_pos holds] at enough ⊢
      cases n with
      | zero => cases enough
      | succ n =>
        rw [List.take_succ_cons, List.takeWhile_cons_of_pos holds,
          ih n (Nat.le_of_succ_le_succ enough)]
    · cases n with
      | zero => rw [List.take_zero, List.takeWhile_nil, List.takeWhile_cons_of_neg holds]
      | succ n => rw [List.take_succ_cons, List.takeWhile_cons_of_neg holds,
          List.takeWhile_cons_of_neg holds]

theorem contents_string (g : Glyph) (rest : Text) (span : Span) :
    Token.contents ⟨.string, g :: rest.take (stringTail rest), span⟩ =
      rest.takeWhile fun h => !h.is '"' := by
  have whole := (List.takeWhile_prefix (fun h => !Glyph.is '"' h) (l := rest)).length_le
  rw [Token.contents, List.drop_succ_cons, List.drop_zero]
  apply takeWhile_take
  rw [stringTail, run]
  omega

/-- A token that starts at a glyph of a settled text is proper. -/
theorem Classified.proper {g : Glyph} {rest : Text} {kind : TokenKind} {n : Nat}
    (classified : Classified g rest kind n) (settled : Text.Settled rest) (span : Span) :
    Token.Proper ⟨kind, g :: rest.take n, span⟩ := by
  cases classified with
  | word letter =>
    rw [take_run]
    exact proper_word (isWord_shown letter fun h found => of_mem_takeWhile found)
  | number digit small =>
    rw [take_run] at small ⊢
    exact isNumeral_shown (List.forall_mem_cons.2 ⟨digit, fun h found => of_mem_takeWhile found⟩) small
  | quotation =>
    refine ⟨?_, ?_⟩
    · rw [contents_string]
      intro h found
      simpa using of_mem_takeWhile found
    · rw [contents_string]
      rw [← List.takeWhile_append_dropWhile (p := fun h => !Glyph.is '"' h) (l := rest)] at settled
      exact Text.settled_take settled
  | @atName h rest letter =>
    have part : isWordPart h = true := by rw [isWordPart, letter, Bool.true_or]
    rw [take_run, List.takeWhile_cons_of_pos part]
    exact isWord_shown letter fun _ found => of_mem_takeWhile found
  | comment | double | single => trivial

/-- Every token of a settled text is proper. -/
theorem Scanned.proper {p : Position} {t : Text} {tokens : List Token} (scanned : Scanned p t tokens)
    (settled : Text.Settled t) : ∀ token ∈ tokens, token.Proper := by
  induction scanned with
  | done =>
    intro token found
    rw [List.mem_singleton.1 found]
    trivial
  | space _ _ ih => exact ih (Text.settled_cons settled).2
  | @token p g tail rest kind tokens _ classified _ ih =>
    have settledRest := (Text.settled_cons settled).2
    refine List.forall_mem_cons.2 ⟨?_, ih (Text.settled_drop settledRest)⟩
    have proper := classified.proper settledRest (.between p (p.after (g :: tail)))
    rwa [List.take_left] at proper

end Lexer

theorem Token.significant_proper {tokens : List Token} (proper : ∀ t ∈ tokens, t.Proper) :
    ∀ t ∈ Token.significant tokens, t.Proper := by
  have kept : ∀ t ∈ tokens.filter fun t => t.kind != .comment, t.Proper :=
    fun t found => proper t (List.mem_filter.1 found).1
  unfold Token.significant
  dsimp only
  intro t found
  split at found
  · rw [List.mem_singleton.1 found]
    trivial
  · split at found
    · exact kept t found
    · rcases List.mem_append.1 found with early | last
      · exact kept t early
      · rw [List.mem_singleton.1 last]
        trivial

end ClassScript
