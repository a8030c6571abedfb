import ClassScript.Proofs.RoundTrip

/-!
# The text of a type reads as that type

The text of a type that was read from tokens reads as the same type up to tokens and spans, unless a function type in
it is nullable (`TypeExpr.text_reads_back`). Reading that text does not nest too deeply, since it enters a level where
the type itself was read, and at no greater depth (`TypeExpr.Fits`).
-/

namespace ClassScript

open Reader Lexer

theorem TypeExpr.Fits.shallower {depth depth' : Nat} {t : TypeExpr} (fits : t.Fits depth) (less : depth' ≤ depth) :
    t.Fits depth' := by
  induction fits generalizing depth' with
  | mk room _ ih => exact .mk (Nat.lt_of_le_of_lt less room) fun t' part => ih t' part (Nat.succ_le_succ less)

/-- A tidy type that fits a depth is read back there, and the nesting is not too deep. -/
theorem TypeExpr.Fits.reads {depth : Nat} {t : TypeExpr} (fits : t.Fits depth) (tidy : t.Tidy) {fuel : Nat}
    (enough : t.shapes.length ≤ fuel) : (Grammar.within fuel).ReadsType False depth t := by
  induction fits generalizing fuel with
  | @mk depth t room _ ih =>
    have filled : t.shapes ≠ [] := ne_nil_of_starts t.starts rfl
    obtain ⟨fuel, rfl⟩ : ∃ f, fuel = f + 1 := by
      have some_shapes := List.length_pos_iff.2 filled
      exact ⟨fuel - 1, by omega⟩
    intro r ends
    rw [Grammar.within_succ]
    refine Grammar.reads_typeOf depth tidy (.inr room) (fun t' part => ?_) ends
    have shorter := TypeExpr.length_lt_of_part part
    exact ih t' part (TypeExpr.tidy_of_part tidy part) (by omega)

/-! ## Tokens that scanning finds -/

/-- The token is one of those of some text. -/
def Token.IsScanned (t : Token) : Prop :=
  ∃ (source : Bytes) (tokens : List Token), source.text.tokens = .ok tokens ∧ t ∈ tokens

theorem Token.IsScanned.proper {t : Token} (isScanned : t.IsScanned) : t.Proper := by
  obtain ⟨source, tokens, scanned, found⟩ := isScanned
  exact (scanned_of_scan scanned).proper (Text.settled_ofBytes source) t found

/-- There are tokens ahead, all of them proper. -/
def Cursor.AllProper (c : Cursor) : Prop := c.ahead ≠ [] ∧ ∀ t ∈ c.ahead, t.Proper

instance : Cursor.Keeps Cursor.AllProper where
  head := by
    rintro ⟨last, ahead⟩ ⟨some_ahead, proper⟩
    cases ahead with
    | nil => exact absurd rfl some_ahead
    | cons t rest => exact proper t List.mem_cons_self
  next := by
    rintro ⟨last, ahead⟩ c' t ⟨some_ahead, proper⟩ run
    match ahead with
    | [] => exact absurd rfl some_ahead
    | [_] =>
      cases run
      exact ⟨List.cons_ne_nil _ _, proper⟩
    | _ :: _ :: _ =>
      cases run
      exact ⟨List.cons_ne_nil _ _, fun t later => proper t (List.mem_cons_of_mem _ later)⟩

/-! ## Texts of types -/

/-- The type that a text is: what is read from its first token on, if only the end of the input is left. -/
def TypeExpr.ofText? (source : Text) : Option TypeExpr :=
  match source.tokens with
  | .error _ => none
  | .ok tokens =>
    let ahead := Token.significant tokens
    match (Grammar.sized ahead.length).type 0 ⟨ahead.headD default, ahead⟩ with
    | .ok (t, ⟨_, [_]⟩) => some t
    | _ => none

/-- The text of a tidy type that does not nest too deeply is the same type up to tokens and spans. -/
theorem TypeExpr.ofText?_text {t : TypeExpr} (tidy : t.Tidy) (fits : t.Fits 0) :
    ∃ t', TypeExpr.ofText? (Bytes.ofString t.text).text = some t' ∧ t'.bare = t.bare := by
  have spells := t.spells tidy
  obtain ⟨ts, last, tokens, fit, ends, noComment⟩ := tokens_of_spells spells quiet_nil
  have settled : (Bytes.ofString t.text).text = Text.ofString t.text := by
    rw [Bytes.ofString_eq_bytes]
    exact spells.solid.settled
  have enough : t.shapes.length ≤ Grammar.bound (ts ++ [last]).length := by
    have same := length_of_kinds (fit_kinds (fit last))
    rw [← same, List.length_append, Grammar.bound]
    omega
  have ended : EndsType [last.shape] := by
    rw [EndsType, firstKind_cons, show last.shape.kind = .endOfInput from ends]
    rfl
  obtain ⟨t', run, same⟩ | ⟨deep, -⟩ := fits.reads tidy enough [last.shape] ended ts [last]
    ((ts ++ [last]).headD default) (fit _) rfl (List.cons_ne_nil _ _)
  · refine ⟨t', ?_, same⟩
    have run : (Grammar.sized (ts ++ [last]).length).type 0 ⟨(ts ++ [last]).headD default, ts ++ [last]⟩ =
        .ok (t', ⟨ts.getLastD ((ts ++ [last]).headD default), [last]⟩) := run
    rw [TypeExpr.ofText?, settled, tokens]
    dsimp only
    rw [Token.significant_of_noComment ends noComment, run]
  · exact deep.elim

/-- A type that was read from any tokens that scanning finds, at any depth, is its text up to tokens and spans, if no
function type in it is nullable. -/
theorem TypeExpr.text_reads_back {tokens : List Token} (scanned : ∀ t ∈ tokens, t.IsScanned) (some_tokens : tokens ≠ [])
    {fuel depth : Nat} {last : Token} {t : TypeExpr} {c : Cursor}
    (read : (Grammar.within fuel).type depth ⟨last, tokens⟩ = .ok (t, c)) (plain : t.isPlain = true) :
    ∃ t', TypeExpr.ofText? (Bytes.ofString t.text).text = some t' ∧ t'.bare = t.bare := by
  have proper : Cursor.AllProper ⟨last, tokens⟩ := ⟨some_tokens, fun t found => (scanned t found).proper⟩
  obtain ⟨-, tidy, fits⟩ := Grammar.within_typeKept fuel depth _ t c proper read
  exact TypeExpr.ofText?_text (tidy plain) (fits.shallower (Nat.zero_le depth))

/-- A parameter type with arguments, in which there is a function type, and a result that may be null. -/
def listenerSource : Bytes := Bytes.ofString "(Map<Key?, (n) -> m?>, a) -> List<b>? listener"

theorem listenerSource_reads_back : ∃ tokens t c, listenerSource.text.tokens = .ok tokens ∧
    (Grammar.within 20).type 3 ⟨default, tokens⟩ = .ok (t, c) ∧ t.isPlain = true ∧
      ∃ t', TypeExpr.ofText? (Bytes.ofString t.text).text = some t' ∧ t'.bare = t.bare := by
  have readable : (listenerSource.text.tokens.toOption.any fun tokens => !tokens.isEmpty &&
      ((Grammar.within 20).type 3 ⟨default, tokens⟩).toOption.any fun read => read.1.isPlain) = true := by
    rw [listenerSource, Text.text_ofString rfl]
    decide +kernel
  cases scanned : listenerSource.text.tokens with
  | error d =>
    rw [scanned] at readable
    cases readable
  | ok tokens =>
    rw [scanned] at readable
    obtain ⟨filled, typed⟩ := Bool.and_eq_true_iff.1 readable
    have some_tokens : tokens ≠ [] := by
      rintro rfl
      cases filled
    cases read : (Grammar.within 20).type 3 ⟨default, tokens⟩ with
    | error d =>
      rw [read] at typed
      cases typed
    | ok result =>
      rw [read] at typed
      exact ⟨tokens, result.1, result.2, rfl, read, typed, TypeExpr.text_reads_back
        (fun t found => ⟨listenerSource, tokens, scanned, found⟩) some_tokens read typed⟩

/-- The text of a nullable function type is in parentheses, which no type is. -/
theorem nullable_function_has_no_text : ∃ t, TypeExpr.ofText? (Bytes.ofString "(A) -> B??").text = some t ∧
    TypeExpr.ofText? (Bytes.ofString t.text).text = none := by
  have unreadable : ((TypeExpr.ofText? (Bytes.ofString "(A) -> B??").text).any fun t =>
      (TypeExpr.ofText? (Bytes.ofString t.text).text).isNone) = true := by decide +kernel
  obtain ⟨t, read, none⟩ := (Option.any_eq_true _ _).1 unreadable
  exact ⟨t, read, Option.isNone_iff_eq_none.1 none⟩

end ClassScript
