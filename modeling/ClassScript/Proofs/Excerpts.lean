import ClassScript.Proofs.Echoes
import ClassScript.Proofs.Encoding

/-!
# Excerpts of a source text

The text from the start of one token to the end of another, with a semicolon behind it, is scanned as the same tokens,
seen from where the excerpt starts (`Text.tokens_excerpt`): no token but a comment runs on into a semicolon, and a string
that is closed does not either.
-/

namespace ClassScript

/-! ## Places seen from a place -/

/-- The position, if the text started at the origin. -/
def Position.relative (origin p : Position) : Position :=
  ⟨p.offset - origin.offset, p.line + 1 - origin.line,
    if p.line = origin.line then p.column + 1 - origin.column else p.column⟩

/-- The span, if the text started at the origin. -/
def Span.relative (origin : Position) (s : Span) : Span :=
  ⟨s.start - origin.offset, s.stop - origin.offset, s.line + 1 - origin.line,
    if s.line = origin.line then s.column + 1 - origin.column else s.column⟩

/-- Where a span starts. -/
def Span.origin (s : Span) : Position := ⟨s.start, s.line, s.column⟩

/-- The bytes of a span. -/
def Span.excerpt (s : Span) (source : Bytes) : Bytes := (source.drop s.start).take (s.stop - s.start)

/-- A position that does not come before another. -/
structure Position.Reaches (origin p : Position) : Prop where
  offset : origin.offset ≤ p.offset
  line : origin.line ≤ p.line
  column : p.line = origin.line → origin.column ≤ p.column

namespace Position

variable {origin p : Position}

theorem Reaches.refl (p : Position) : p.Reaches p := ⟨Nat.le_refl _, Nat.le_refl _, fun _ => Nat.le_refl _⟩

theorem Reaches.step (reaches : origin.Reaches p) (g : Glyph) : origin.Reaches (p.step g) := by
  obtain ⟨offset, line, column⟩ := reaches
  unfold Position.step
  split
  · exact ⟨Nat.le_add_right_of_le offset, Nat.le_succ_of_le line,
      fun same => absurd line (by rw [← same]; exact Nat.not_succ_le_self _)⟩
  · exact ⟨Nat.le_add_right_of_le offset, line, fun same => Nat.le_succ_of_le (column same)⟩

theorem Reaches.after (reaches : origin.Reaches p) (t : Text) : origin.Reaches (p.after t) := by
  induction t generalizing p with
  | nil => exact reaches
  | cons g t ih => exact ih (reaches.step g)

theorem relative_self (p : Position) : p.relative p = start := by
  simp [relative, start]

theorem relative_step (reaches : origin.Reaches p) (g : Glyph) :
    origin.relative (p.step g) = (origin.relative p).step g := by
  obtain ⟨offset, line, column⟩ := reaches
  unfold step relative
  split
  · rw [if_neg (by dsimp only; omega)]
    simp only [mk.injEq, and_true]
    omega
  · simp only [mk.injEq]
    refine ⟨by omega, trivial, ?_⟩
    split
    · next same =>
      have := column same
      omega
    · rfl

theorem relative_after (reaches : origin.Reaches p) (t : Text) :
    origin.relative (p.after t) = (origin.relative p).after t := by
  induction t generalizing p with
  | nil => rfl
  | cons g t ih =>
    rw [show p.after (g :: t) = (p.step g).after t from rfl, ih (reaches.step g), relative_step reaches]
    rfl

end Position

/-- Spans that start behind an origin cover each other as they do in the whole text. -/
def Relocation.toOrigin (origin : Position) : Relocation where
  place := Span.relative origin
  region t := origin.offset ≤ t.span.start ∧ origin.line ≤ t.span.line ∧ 0 < t.span.line
  covers {t u} := by
    obtain ⟨-, -, start, stop, line, column⟩ := t
    obtain ⟨-, -, start', stop', line', column'⟩ := u
    rintro ⟨reached, below, lined⟩ ⟨reached', below', lined'⟩
    dsimp only at reached below lined reached' below' lined'
    have positive {line : Nat} (lined : 0 < line) : (line == 0) = false := by
      rw [beq_eq_false_iff_ne]
      omega
    have relative {line : Nat} (below : origin.line ≤ line) : (line + 1 - origin.line == 0) = false := by
      rw [beq_eq_false_iff_ne]
      omega
    simp only [Span.cover, Span.isNone, Span.relative, positive lined, positive lined', relative below, relative below',
      Bool.false_and, Bool.false_eq_true, if_false]
    by_cases first : start' < start
    · rw [if_pos first, if_pos (show start' - origin.offset < start - origin.offset by omega)]
      simp only [Span.mk.injEq, true_and, and_true]
      omega
    · rw [if_neg first, if_neg (show ¬ start' - origin.offset < start - origin.offset by omega)]
      simp only [Span.mk.injEq, true_and, and_true]
      omega

namespace Lexer

/-! ## Scanning -/

theorem scan_of_scanned {p : Position} {t : Text} {tokens : List Token} (scanned : Scanned p t tokens) :
    scan p t = .ok tokens := by
  induction scanned with
  | done => rw [scan]
  | space blank _ ih => rw [scan, if_pos blank, ih]
  | @token p g tail rest kind tokens visible classified _ ih =>
    rw [scan, if_neg (ne_true_of_eq_false visible), classify_of_classified classified]
    dsimp only
    rw [List.take_left, List.drop_left, ih]
    rfl

/-- What is scanned from some token on, the text in front of it apart. -/
theorem Scanned.behind {p : Position} {t : Text} {tokens before more : List Token} {first : Token}
    (scanned : Scanned p t tokens) (split : tokens = before ++ first :: more) (inside : first.kind ≠ .endOfInput) :
    ∃ t₀ t₁, t = t₀ ++ t₁ ∧ p.after t₀ = first.span.origin ∧ Scanned first.span.origin t₁ (first :: more) := by
  induction scanned generalizing before with
  | done =>
    cases before with
    | nil =>
      cases split
      exact absurd rfl inside
    | cons t ts =>
      have none := (List.cons.inj split).2
      simp at none
  | @space p g rest tokens _ _ ih =>
    obtain ⟨t₀, t₁, rfl, stands, scanned⟩ := ih split
    exact ⟨g :: t₀, t₁, rfl, stands, scanned⟩
  | @token p g tail rest kind tokens visible classified more' ih =>
    cases before with
    | nil =>
      cases split
      exact ⟨[], _, rfl, rfl, .token visible classified more'⟩
    | cons u us =>
      obtain ⟨t₀, t₁, rfl, stands, scanned⟩ := ih (List.cons.inj split).2
      refine ⟨g :: (tail ++ t₀), t₁, by simp, ?_, scanned⟩
      rw [← List.cons_append, Position.after_append, stands]

/-- No token stands on an earlier line than one in front of it. -/
theorem Scanned.lines {p : Position} {t : Text} {tokens : List Token} (scanned : Scanned p t tokens) :
    (∀ u ∈ tokens, p.line ≤ u.span.line) ∧ tokens.Pairwise fun u v => u.span.line ≤ v.span.line := by
  induction scanned with
  | done => exact ⟨List.forall_mem_singleton.2 (Nat.le_refl _), List.pairwise_singleton _ _⟩
  | space _ _ ih => exact ⟨fun u found => Nat.le_trans (line_step _ _) (ih.1 u found), ih.2⟩
  | token _ _ _ ih =>
    have later := fun u found => Nat.le_trans (line_after _ _) (ih.1 u found)
    exact ⟨List.forall_mem_cons.2 ⟨Nat.le_refl _, later⟩, List.pairwise_cons.2 ⟨later, ih.2⟩⟩

/-- A semicolon is scanned as such. -/
theorem scanned_semicolon (p : Position) : ∃ semicolon eof : Token, semicolon.kind = .symbol .semicolon ∧ eof.kind = .endOfInput ∧
    Scanned p [.char ';'] [semicolon, eof] :=
  ⟨_, _, rfl, rfl, show Scanned p (.char ';' :: ([] ++ [])) _ from .token rfl (.single rfl nofun) .done⟩

/-- What is scanned up to some token, with a semicolon behind it. -/
theorem Scanned.closed {p origin : Position} {t : Text} {tokens mid more : List Token} {last : Token}
    (scanned : Scanned p t tokens) (reaches : origin.Reaches p) (split : tokens = mid ++ last :: more)
    (noComment : last.kind ≠ .comment) (inside : last.kind ≠ .endOfInput)
    (ends : last.kind = .string → ∃ u ∈ more, u.kind ≠ .endOfInput) :
    ∃ t₁ t₂, t = t₁ ++ t₂ ∧ t₁ ≠ [] ∧ (p.after t₁).offset = last.span.stop ∧ ∃ semicolon eof : Token,
      semicolon.kind = .symbol .semicolon ∧ eof.kind = .endOfInput ∧
        Scanned (origin.relative p) (t₁ ++ [Glyph.char ';'])
          ((mid ++ [last]).map (Token.moved (Span.relative origin)) ++ [semicolon, eof]) := by
  induction scanned generalizing mid with
  | done =>
    cases mid with
    | nil =>
      cases split
      exact absurd rfl inside
    | cons t ts =>
      have none := (List.cons.inj split).2
      simp at none
  | @space p g rest tokens blank _ ih =>
    obtain ⟨t₁, t₂, rfl, -, stop, semicolon, eof, isSemicolon, isEnd, scanned⟩ := ih (reaches.step g) split
    refine ⟨g :: t₁, t₂, rfl, List.cons_ne_nil _ _, stop, semicolon, eof, isSemicolon, isEnd, .space blank ?_⟩
    rw [← Position.relative_step reaches]
    exact scanned
  | @token p g tail rest kind tokens visible classified more' ih =>
    cases mid with
    | nil =>
      cases split
      obtain ⟨semicolon, eof, isSemicolon, isEnd, scanned⟩ := scanned_semicolon ((origin.relative p).after (g :: tail))
      refine ⟨g :: tail, rest, rfl, List.cons_ne_nil _ _, rfl, semicolon, eof, isSemicolon, isEnd, ?_⟩
      have again : Classified g (tail ++ [Glyph.char ';']) kind tail.length :=
        classified.again ⟨fun h first => .inr (.inr ⟨Option.some.inj first ▸ rfl, noComment⟩), fun string => ?_⟩
      · have token := Scanned.token visible again scanned
        rw [← Position.relative_after reaches] at token
        exact token
      · rintro rfl
        obtain ⟨u, found, filled⟩ := ends string
        cases more'
        cases List.mem_singleton.1 found
        exact absurd rfl filled
    | cons u us =>
      obtain rfl := (List.cons.inj split).1
      obtain ⟨t₁, t₂, rfl, some, stop, semicolon, eof, isSemicolon, isEnd, scanned⟩ := ih (reaches.after _) (List.cons.inj split).2
      refine ⟨g :: (tail ++ t₁), t₂, by simp, List.cons_ne_nil _ _, ?_, semicolon, eof, isSemicolon, isEnd, ?_⟩
      · rw [← List.cons_append, Position.after_append, stop]
      · obtain ⟨h, hs, rfl⟩ := List.exists_cons_of_ne_nil some
        have again : Classified g (tail ++ (h :: hs ++ [Glyph.char ';'])) kind tail.length :=
          classified.again ⟨fun _ first => .inl first, fun _ none => nomatch none⟩
        rw [Position.relative_after reaches] at scanned
        have token := Scanned.token visible again scanned
        rw [← Position.relative_after reaches] at token
        rw [List.cons_append, List.append_assoc]
        exact token

end Lexer

/-- The text from the start of one token to the end of another, with a semicolon behind it, is scanned as the tokens from
the one to the other, seen from where it starts. -/
theorem Text.tokens_excerpt {source : Bytes} {before mid more : List Token} {first last : Token} (span : Span)
    (scanned : source.text.tokens = .ok (before ++ (mid ++ last :: more))) (starts : (mid ++ [last]).head? = some first)
    (inside : first.kind ≠ .endOfInput) (inside' : last.kind ≠ .endOfInput) (noComment : last.kind ≠ .comment)
    (ends : last.kind = .string → ∃ u ∈ more, u.kind ≠ .endOfInput) (start : span.start = first.span.start)
    (stop : span.stop = last.span.stop) : ∃ semicolon eof : Token,
      semicolon.kind = .symbol .semicolon ∧ eof.kind = .endOfInput ∧
        (span.excerpt source ++ Bytes.ofString ";").text.tokens =
          .ok ((mid ++ [last]).map (Token.moved (Span.relative first.span.origin)) ++ [semicolon, eof]) := by
  obtain ⟨rest, whole⟩ : ∃ rest, mid ++ [last] = first :: rest := by
    obtain ⟨u, rest, whole⟩ := List.exists_cons_of_ne_nil (List.append_ne_nil_of_right_ne_nil mid (List.cons_ne_nil last []))
    rw [whole] at starts
    cases starts
    exact ⟨rest, whole⟩
  have all : mid ++ last :: more = first :: (rest ++ more) := by
    rw [← List.cons_append, ← whole, List.append_assoc, List.singleton_append]
  obtain ⟨t₀, t', text, stands, scanned⟩ := (Lexer.scanned_of_scan scanned).behind (by rw [all]) inside
  obtain ⟨t₁, t₂, rfl, -, width, semicolon, eof, isSemicolon, isEnd, scanned⟩ :=
    scanned.closed (.refl _) all.symm noComment inside' ends
  refine ⟨semicolon, eof, isSemicolon, isEnd, ?_⟩
  have front : t₀.bytes.length = span.start := by
    have offset := congrArg Position.offset stands
    rw [Position.offset_after] at offset
    rw [Text.length_bytes, start]
    simpa [Position.start, Span.origin] using offset
  have back : t₁.bytes.length = span.stop - span.start := by
    rw [Position.offset_after] at width
    rw [Text.length_bytes, stop, ← width, start]
    simp [Span.origin]
  have bytes : source = t₀.bytes ++ (t₁.bytes ++ t₂.bytes) := by
    rw [← Text.bytes_append, ← Text.bytes_append, ← text, Bytes.bytes_text]
  have excerpt : span.excerpt source = t₁.bytes := by
    rw [Span.excerpt, ← back, ← front, bytes, List.drop_left, List.take_left]
  have settled : Text.Settled t₁ := by
    have whole : Text.Settled (t₀ ++ (t₁ ++ t₂)) := text ▸ Text.settled_ofBytes source
    exact Text.settled_take (Text.settled_drop whole)
  have read : (span.excerpt source ++ Bytes.ofString ";").text = t₁ ++ [Glyph.char ';'] := by
    have semicolon : Text.Settled [.char ';'] := (Text.solid_ascii rfl).settled
    have ascii : ∀ x, (Bytes.ofString ";").head? = some x → x < 0x80 := by
      rintro _ ⟨⟩
      decide
    rw [excerpt, Bytes.text, Text.ofBytes_append settled ascii, Bytes.ofString_eq_bytes]
    exact congrArg (t₁ ++ ·) semicolon
  rw [read, Text.tokens, ← Position.relative_self first.span.origin]
  exact Lexer.scan_of_scanned scanned

end ClassScript
