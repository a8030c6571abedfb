import ClassScript.Proofs.LockstepStatements

/-!
# Texts with more lines behind

If a text is read as a program, and with further lines behind it as another one, the statements of the first go on as
those of the second (`Program.continues`): the tokens of the text are scanned again, whatever the next line holds, since
the last of them is no string, and the two programs are read in step up to the end of the text.
-/

namespace ClassScript

/-! ## Scanning -/

namespace Lexer

variable {p origin : Position} {t rest : Text} {tokens used : List Token} {eof : Token}

/-- Blanks in front of a text only move it. -/
theorem scan_blank {blank : Text} (blanks : ∀ g ∈ blank, isSpace g = true) :
    scan p (blank ++ t) = scan (p.after blank) t := by
  induction blank generalizing p with
  | nil => rfl
  | cons g blank ih =>
    obtain ⟨isBlank, blanks⟩ := List.forall_mem_cons.1 blanks
    rw [List.cons_append, scan, if_pos isBlank, ih blanks]
    rfl

theorem Scanned.ne_nil (scanned : Scanned p t tokens) : tokens ≠ [] := by
  induction scanned with
  | done => exact List.cons_ne_nil _ _
  | space _ _ ih => exact ih
  | token => exact List.cons_ne_nil _ _

/-- The same text has tokens of the same kinds wherever it stands. -/
theorem Scanned.elsewhere (scanned : Scanned p t tokens) (q : Position) :
    ∃ again, Scanned q t again ∧ again.map Token.kind = tokens.map Token.kind := by
  induction scanned generalizing q with
  | done => exact ⟨_, .done, rfl⟩
  | space blank _ ih =>
    obtain ⟨again, scanned, same⟩ := ih (q.step _)
    exact ⟨again, .space blank scanned, same⟩
  | token visible classified _ ih =>
    obtain ⟨again, scanned, same⟩ := ih (q.after _)
    exact ⟨_, .token visible classified scanned, congrArg (_ :: ·) same⟩

/-- Another line behind a text does not change the tokens of the text, unless the last of them is a string. -/
theorem Scanned.in_front (scanned : Scanned p t tokens) (reaches : origin.Reaches p) (split : tokens = used ++ [eof])
    (closed : ∀ last, used.getLast? = some last → last.kind ≠ .string) :
    scan (origin.relative p) (t ++ .char '\n' :: rest) =
      (used.map (Token.moved (Span.relative origin)) ++ ·) <$>
        scan ((origin.relative p).after t) (.char '\n' :: rest) := by
  induction scanned generalizing used with
  | done =>
    cases used with
    | nil => simp [Position.after]
    | cons u us => simp at split
  | @space p g rest' tokens blank _ ih =>
    have again := ih (reaches.step g) split closed
    rw [Position.relative_step reaches] at again
    rw [List.cons_append, scan, if_pos blank, again]
    rfl
  | @token p g tail rest' kind tokens visible classified more ih =>
    cases used with
    | nil => exact absurd (List.cons.inj split).2 more.ne_nil
    | cons u us =>
      obtain ⟨rfl, behind⟩ := List.cons.inj split
      have follows : MayFollow kind rest' (rest' ++ .char '\n' :: rest) := by
        refine ⟨fun h first => ?_, ?_⟩
        · cases rest' with
          | nil => exact .inr (.inl (Option.some.inj first).symm)
          | cons g' _ => exact .inl first
        · rintro rfl rfl
          cases more
          cases us with
          | nil => exact absurd rfl (closed _ rfl)
          | cons v vs => simp at behind
      have closed (last : Token) (isLast : us.getLast? = some last) : last.kind ≠ .string :=
        closed last (by rw [List.getLast?_cons, isLast, Option.getD_some])
      have place : (origin.relative (p.after (g :: tail))).after rest' = (origin.relative p).after (g :: (tail ++ rest')) := by
        rw [Position.relative_after reaches, ← Position.after_append, List.cons_append]
      rw [List.cons_append, List.append_assoc, scan, if_neg (ne_true_of_eq_false visible),
        classify_of_classified (classified.again follows)]
      dsimp only
      rw [List.take_left, List.drop_left, ← Position.relative_after reaches, ih (reaches.after _) behind closed, place]
      cases scan ((origin.relative p).after (g :: (tail ++ rest'))) (.char '\n' :: rest) <;> rfl

end Lexer

/-! ## Reading -/

namespace Grammar

open Reader

/-- What is read as statements ends with a token that ends a statement. -/
theorem statementsUpTo_closes {fuel steps : Nat} {c c₁ : Cursor} {ss : List Stmt} (opened : c.Open)
    (run : (within fuel).statementsUpTo steps c = .ok (ss, c₁)) :
    c₁.Open ∧ c₁.head.kind = .endOfInput ∧ ∃ used, c.ahead = used ++ c₁.ahead ∧
      ∀ last, used.getLast? = some last → last.kind.isEnd = true := by
  induction steps generalizing c ss with
  | zero => cases run
  | succ steps ih =>
    obtain ⟨_, _, looked, run⟩ := bind_ok run
    cases looked
    split at run
    · next atEnd =>
      cases run
      exact ⟨opened, beq_iff_eq.1 atEnd, [], rfl, nofun⟩
    · obtain ⟨s, mid, read, run⟩ := bind_ok run
      obtain ⟨rest, _, others, run⟩ := bind_ok run
      cases run
      obtain ⟨stays, used, ahead, last, some⟩ := ((within_goes fuel).statement 0).reaches opened trivial read
      obtain ⟨opened, atEnd, used', ahead', closed⟩ := ih stays others
      refine ⟨opened, atEnd, used ++ used', by rw [ahead, ahead', List.append_assoc], fun t isLast => ?_⟩
      rw [List.getLast?_append] at isLast
      cases behind : used'.getLast? with
      | some u =>
        rw [behind] at isLast
        exact Option.some.inj isLast ▸ closed u behind
      | none =>
        rw [behind, Option.none_or, List.getLast?_eq_some_getLast (some rfl)] at isLast
        rw [List.getLastD_eq_getLast?, List.getLast?_eq_some_getLast (some rfl), Option.getD_some] at last
        rw [← Option.some.inj isLast, ← last]
        exact closes_statement fuel c s mid read

end Grammar

/-! ## Programs -/

/-- A text that is read as a program. -/
theorem Program.ofSource_ok {file : String} {source : Text} {p : Program} (read : ofSource file source = .ok p) :
    ∃ tokens c, source.tokens = .ok tokens ∧ (Grammar.within (Grammar.bound (Token.significant tokens).length)).program file
      ⟨(Token.significant tokens).headD default, Token.significant tokens⟩ = .ok (p, c) := by
  unfold ofSource Token.ofSource at read
  cases scanned : source.tokens with
  | error fault =>
    rw [scanned] at read
    cases read
  | ok all =>
    rw [scanned] at read
    have read : ofTokens file all = .ok p := read
    unfold ofTokens at read
    dsimp only at read
    split at read
    · cases read
    · next program c run =>
      cases read
      exact ⟨all, c, rfl, run⟩

/-- Tokens of the same kinds are significant alike. -/
theorem Token.significant_kinds {tokens again : List Token} (same : again.map Token.kind = tokens.map Token.kind) :
    (again.filter fun t => t.kind != .comment).map Token.kind = (tokens.filter fun t => t.kind != .comment).map Token.kind := by
  have kinds (ts : List Token) : (ts.filter fun t => t.kind != .comment).map Token.kind =
      (ts.map Token.kind).filter fun k => k != .comment := by
    rw [List.filter_map]
    rfl
  rw [kinds, kinds, same]

/-- The tokens of a text with another line behind: those of the text in its place, and those of the line. -/
theorem Lexer.tokens_in_front {origin : Position} {t u : Text} {used all : List Token} {eof : Token}
    (scanned : Scanned origin t (used ++ [eof])) (closed : ∀ last, used.getLast? = some last → last.kind ≠ .string)
    (whole : Text.tokens (t ++ .char '\n' :: u) = .ok all) : ∃ more line : List Token,
      all = used.map (Token.moved (Span.relative origin)) ++ more ∧ u.tokens = .ok line ∧
        line.map Token.kind = more.map Token.kind := by
  have front : scan (origin.relative origin) (t ++ .char '\n' :: u) = _ := scanned.in_front (.refl origin) rfl closed
  rw [Position.relative_self] at front
  rw [Text.tokens, front] at whole
  cases behind : scan (Position.start.after t) (.char '\n' :: u) with
  | error fault =>
    rw [behind] at whole
    cases whole
  | ok more =>
    rw [behind] at whole
    rw [scan, if_pos (show isSpace (.char '\n') = true from rfl)] at behind
    obtain ⟨line, scanned, same⟩ := (scanned_of_scan behind).elsewhere .start
    exact ⟨more, line, (Except.ok.inj whole).symm, scan_of_scanned scanned, same⟩

/-- The tokens of a program do not end with a string, since the last statement does not. -/
theorem Grammar.program_closed {tokens : List Token} {length : Nat} (row : Token.Row (Token.significant tokens) length)
    {fuel : Nat} {file : String} {last : Token} {p : Program} {c : Cursor}
    (run : (within fuel).program file ⟨last, Token.significant tokens⟩ = .ok (p, c)) {used : List Token} {eof : Token}
    (whole : tokens = used ++ [eof]) (isEnd : eof.kind = .endOfInput) :
    ∀ last, used.getLast? = some last → last.kind ≠ .string := by
  intro last isLast string
  obtain ⟨c₁, read⟩ := program_statements run
  obtain ⟨opened, atEnd, used', ahead, closed⟩ := statementsUpTo_closes (show Cursor.Open ⟨_, _⟩ from row.last) read
  have ahead : Token.significant tokens = used' ++ c₁.ahead := ahead
  rw [ahead_end row ⟨opened.ahead_ne_nil, used', ahead.symm⟩ atEnd, whole, Token.significant_concat isEnd] at ahead
  obtain ⟨rfl, -⟩ := List.append_inj' ahead rfl
  obtain ⟨before, rfl⟩ := List.getLast?_eq_some_iff.1 isLast
  have visible : (before ++ [last]).filter (fun t => t.kind != .comment) =
      before.filter (fun t => t.kind != .comment) ++ [last] := by
    rw [List.filter_append, List.filter_cons_of_pos (by rw [string]; rfl), List.filter_nil]
  have ends := closed last (by rw [visible, List.getLast?_concat])
  rw [string] at ends
  cases ends

/-- Some token of a text is significant wherever it stands. -/
theorem Text.significant_ne_nil {u : Text} {line more : List Token} (isLine : u.tokens = .ok line)
    (same : line.map Token.kind = more.map Token.kind) : (more.filter fun t => t.kind != .comment) ≠ [] := by
  intro none
  have kinds := Token.significant_kinds same
  rw [← Token.significant_eq_filter isLine, none] at kinds
  exact Token.significant_ne_nil line (List.map_eq_nil_iff.1 kinds)

/-- A token behind a position is alike itself seen from there. -/
theorem Token.alike_relative {origin : Position} {t : Text} {u : Token} (stands : Lexer.Stands origin t u) :
    u.Alike origin.offset (u.moved (Span.relative origin)) := by
  obtain ⟨after, -, forward, -⟩ := stands
  refine ⟨rfl, ?_, ?_⟩
  · exact (Nat.sub_add_cancel after).symm
  · exact (Nat.sub_add_cancel (Nat.le_trans after forward)).symm

/-- Tokens are alike those that begin with themselves in another place. -/
theorem Token.leads_map {offset : Nat} {f : Token → Token} {used more : List Token} {eof : Token}
    (alike : ∀ t ∈ used, t.kind ≠ .endOfInput ∧ t.Alike offset (f t)) (isEnd : eof.kind = .endOfInput) (some : more ≠ []) :
    Token.Leads offset (used ++ [eof]) (used.map f ++ more) := by
  induction used with
  | nil =>
    obtain ⟨u, rest, rfl⟩ := List.exists_cons_of_ne_nil some
    exact .ending isEnd
  | cons t ts ih =>
    obtain ⟨⟨inside, same⟩, others⟩ := List.forall_mem_cons.1 alike
    exact .token same inside (ih others)

/-- The statements of a text that is read as a program go on as those of what is read with further lines behind it, whatever
they hold. -/
theorem Program.continues {file file' : String} {blank t u : Text} {p p' : Program}
    (blanks : ∀ g ∈ blank, Lexer.isSpace g = true) (read : ofSource file (blank ++ t) = .ok p)
    (read' : ofSource file' (t ++ .char '\n' :: u) = .ok p') :
    Stmt.GoOn (p.statements.map Stmt.bare) (p'.statements.map Stmt.bare) := by
  obtain ⟨tokens, c, scanned, run⟩ := ofSource_ok read
  obtain ⟨all, c', scanned', run'⟩ := ofSource_ok read'
  have row := Token.row_of_tokens scanned
  have significant' := Token.significant_eq_filter scanned'
  rw [Text.tokens, Lexer.scan_blank blanks] at scanned
  have scanned := Lexer.scanned_of_scan scanned
  have lined : 0 < (Position.start.after blank).line := Nat.lt_of_lt_of_le Nat.one_pos (Lexer.line_after .start blank)
  obtain ⟨stands, -, used, eof, rfl, isEnd, inner⟩ := scanned.stands lined
  obtain ⟨more, line, rfl, isLine, same⟩ := Lexer.tokens_in_front scanned (Grammar.program_closed row run rfl isEnd) scanned'
  have kept : (fun t : Token => t.kind != .comment) ∘ Token.moved (Span.relative (Position.start.after blank)) =
      fun t => t.kind != .comment := rfl
  rw [List.filter_append, List.filter_map, kept] at significant'
  have alike : ∀ t ∈ used.filter fun t => t.kind != .comment, t.kind ≠ .endOfInput ∧
      t.Alike (Position.start.after blank).offset (t.moved (Span.relative (Position.start.after blank))) := fun t member =>
    have found := (List.mem_filter.1 member).1
    ⟨inner t found, Token.alike_relative (stands t (List.mem_append_left _ found))⟩
  have leads := Token.leads_map alike isEnd (Text.significant_ne_nil isLine same)
  obtain ⟨c₁, statements⟩ := Grammar.program_statements run
  obtain ⟨c₂, statements'⟩ := Grammar.program_statements run'
  rw [Token.significant_concat isEnd] at statements
  rw [significant'] at statements'
  cases first : used.filter fun t => t.kind != .comment with
  | nil =>
    rw [first] at statements
    rw [Grammar.statementsUpTo_atEnd _ ⟨eof, rfl, isEnd⟩ statements]
    exact .more
  | cons t ts =>
    rw [first] at statements statements' leads alike
    exact Grammar.statementsUpTo_goOn (Grammar.within_inStep _ _) ⟨(alike t List.mem_cons_self).2, leads⟩ statements statements'

end ClassScript
