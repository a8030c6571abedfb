import ClassScript.Proofs.Excerpts

/-!
# Tokens on lines of their own

What a token is does not depend on what stands around it: the lexemes of a source, each on a line of its own, are scanned as
the same tokens (`Token.lexemes_scan_alike`). A comment ends with its line, and a string without a closing quote is the last
token, with nothing behind it.
-/

namespace ClassScript

/-- What a token is, wherever it stands: its class, its lexeme and its literal. -/
def Token.content (t : Token) : TokenKind × Text × Literal := (t.kind, t.lexeme, t.literal)

/-- The bytes of the lexemes, one on each line. -/
def Token.lexemeLines (tokens : List Token) : Bytes :=
  [0x0A].intercalate ((tokens.filter fun t => t.kind != .endOfInput).map fun t => t.lexeme.bytes)

/-- The lexemes, one on each line, as text. -/
def Token.lineText (tokens : List Token) : Text :=
  [Glyph.char '\n'].intercalate ((tokens.filter fun t => t.kind != .endOfInput).map Token.lexeme)

namespace Token

variable {t : Token} {ts : List Token}

theorem content_cons {kind : TokenKind} {lexeme : Text} {s s' : Span} {us : List Token}
    (same : ts.map content = us.map content) :
    (⟨kind, lexeme, s⟩ :: ts).map content = (⟨kind, lexeme, s'⟩ :: us).map content := by
  rw [List.map_cons, List.map_cons, same]
  rfl

theorem bytes_lineText (ts : List Token) : (lineText ts).bytes = lexemeLines ts := by
  unfold lineText lexemeLines
  generalize ts.filter (fun t => t.kind != .endOfInput) = ts
  induction ts with
  | nil => rfl
  | cons t ts ih =>
    cases ts with
    | nil => simp only [List.map_cons, List.map_nil, List.intercalate_singleton]
    | cons u us =>
      simp only [List.map_cons, List.intercalate_cons_cons, Text.bytes_append] at ih ⊢
      rw [ih]
      rfl

/-- The last lexeme stands alone on its line, each other has a line behind it. -/
theorem lineText_cons (inside : t.kind ≠ .endOfInput) (ts : List Token) :
    (lineText (t :: ts) = t.lexeme ∧ lineText ts = [] ∧ ∀ u ∈ ts, u.kind = .endOfInput) ∨
      (lineText (t :: ts) = t.lexeme ++ .char '\n' :: lineText ts ∧ ∃ u ∈ ts, u.kind ≠ .endOfInput) := by
  have first : (t :: ts).filter (fun t => t.kind != .endOfInput) = t :: ts.filter fun t => t.kind != .endOfInput :=
    List.filter_cons_of_pos (bne_iff_ne.2 inside)
  unfold lineText
  rw [first]
  cases others : ts.filter fun t => t.kind != .endOfInput with
  | nil =>
    refine .inl ⟨List.intercalate_singleton, rfl, fun u found => ?_⟩
    simpa using List.filter_eq_nil_iff.1 others u found
  | cons u us =>
    have found : u ∈ ts.filter fun t => t.kind != .endOfInput := others ▸ List.mem_cons_self
    refine .inr ⟨?_, u, (List.mem_filter.1 found).1, bne_iff_ne.1 (List.mem_filter.1 found).2⟩
    simp only [List.map_cons, List.intercalate_cons_cons, List.append_assoc, List.singleton_append]

end Token

namespace Lexer

/-- A line of its own is settled if the lexeme and the lines behind it are. -/
theorem settled_line {t u : Text} (first : t.Settled) (second : u.Settled) : Text.Settled (t ++ .char '\n' :: u) := by
  have feed : Text.Settled (.char '\n' :: u) := by
    have read := Text.solid_ascii (c := '\n') rfl u.bytes
    rwa [second, ← Text.bytes_append] at read
  have isAscii : ∀ x, (Text.bytes (.char '\n' :: u)).head? = some x → x < 0x80 := by
    intro x head
    cases head
    decide
  have read := Text.ofBytes_append first isAscii
  rwa [feed, ← Text.bytes_append] at read

/-- Wherever they stand, the lines are scanned as the tokens whose lexemes they are. -/
theorem Scanned.on_lines {p : Position} {t : Text} {tokens : List Token} (scanned : Scanned p t tokens)
    (settled : t.Settled) : (Token.lineText tokens).Settled ∧ ∀ q, ∃ again, Scanned q (Token.lineText tokens) again ∧
      again.map Token.content = tokens.map Token.content := by
  induction scanned with
  | done => exact ⟨Text.solid_nil.settled, fun q => ⟨[endToken q], .done, rfl⟩⟩
  | space _ _ ih => exact ih (Text.settled_cons settled).2
  | @token p g tail rest kind tokens visible classified more ih =>
    have settled : Text.Settled ((g :: tail) ++ rest) := settled
    obtain ⟨settledLines, scans⟩ := ih (Text.settled_drop settled)
    have settledLexeme : Text.Settled (g :: tail) := Text.settled_take settled
    rcases Token.lineText_cons (t := ⟨kind, g :: tail, .between p (p.after (g :: tail))⟩) classified.inside tokens with
      ⟨alone, none, ends⟩ | ⟨followed, u, found, inside⟩
    · refine ⟨alone ▸ settledLexeme, fun q => ?_⟩
      obtain ⟨again, scanned, same⟩ := scans (q.after (g :: tail))
      have last : Classified g (tail ++ []) kind tail.length := classified.again ⟨nofun, fun _ _ => rfl⟩
      rw [none] at scanned
      have token := Scanned.token visible last scanned
      rw [List.append_nil] at token
      rw [alone]
      exact ⟨_, token, Token.content_cons same⟩
    · refine ⟨followed ▸ settled_line settledLexeme settledLines, fun q => ?_⟩
      obtain ⟨again, scanned, same⟩ := scans ((q.after (g :: tail)).step (.char '\n'))
      -- Something stands behind the token, so it is no string without a closing quote.
      have some_rest : rest ≠ [] := by
        rintro rfl
        cases more
        rw [List.mem_singleton.1 found] at inside
        exact inside rfl
      have before : Classified g (tail ++ .char '\n' :: Token.lineText tokens) kind tail.length :=
        classified.again ⟨fun h first => .inr (.inl (Option.some.inj first).symm), fun _ none => absurd none some_rest⟩
      have token := Scanned.token visible before (.space rfl scanned)
      rw [followed]
      exact ⟨_, token, Token.content_cons same⟩

end Lexer

/-- The lexemes of a source, each on a line of its own, are scanned as tokens of the same classes with the same lexemes and
literals. -/
theorem Token.lexemes_scan_alike {source : Bytes} {tokens : List Token} (scanned : source.text.tokens = .ok tokens) :
    ∃ again, (Token.lexemeLines tokens).text.tokens = .ok again ∧
      again.map Token.content = tokens.map Token.content := by
  obtain ⟨settled, scans⟩ := (Lexer.scanned_of_scan scanned).on_lines (Text.settled_ofBytes source)
  obtain ⟨again, scanned, same⟩ := scans Position.start
  have read : (Token.lexemeLines tokens).text = Token.lineText tokens := by rw [← bytes_lineText, Bytes.text, settled]
  refine ⟨again, ?_, same⟩
  rw [read]
  exact Lexer.scan_of_scanned scanned

/-- Operators next to each other, a comment, and a string that is never closed. -/
def crowdedSource : Bytes := Bytes.ofString "a<==>>=b12//x\n@n/>\"c" ++ [0xE2]

theorem crowdedSource_scans_alike : ∃ tokens, crowdedSource.text.tokens = .ok tokens ∧
    Token.lexemeLines tokens = Bytes.ofString "a\n<=\n=>\n>=\nb12\n//x\n@n\n/>\n\"c" ++ [0xE2] ∧
    ∃ again, (Token.lexemeLines tokens).text.tokens = .ok again ∧
      again.map Token.content = tokens.map Token.content := by
  have readable : (crowdedSource.text.tokens.toOption.any fun tokens =>
      Token.lexemeLines tokens == Bytes.ofString "a\n<=\n=>\n>=\nb12\n//x\n@n\n/>\n\"c" ++ [0xE2]) = true := by
    decide +kernel
  cases scanned : crowdedSource.text.tokens with
  | error e =>
    rw [scanned] at readable
    cases readable
  | ok tokens =>
    rw [scanned] at readable
    exact ⟨tokens, rfl, beq_iff_eq.1 readable, Token.lexemes_scan_alike scanned⟩

end ClassScript
