import Mathlib.Algebra.BigOperators.Group.List.Basic
import Mathlib.Algebra.Ring.Int.Defs
import Mathlib.Data.List.DropRight
import ClassScript.Command.Shell
import ClassScript.Proofs.Scanning

/-!
Braces of an interactive input, counted without scanning it. What the count does over one token is told by its class:
only the two brace tokens move it (`Classified.count_lexeme`). So behind a whole text it is the number of brace tokens
that open less those that close, and the braces of comments beside (`depth_of_scanned`). That takes comments without
quotes, and strings that do not end in a backslash: a quote in a comment hides the braces behind it, and so does a
string whose closing quote is taken for an escaped one (`hidden_braces`).
-/

namespace ClassScript

/-! ## Outside and inside quotes -/

namespace Glyph

/-- Whether a glyph opens or closes a quote. -/
def isQuote (g : Glyph) : Bool := g.is '"' || g.is '\''

/-- What a brace adds to those that are open. -/
def brace (g : Glyph) : Int := if g.is '\x7b' then 1 else if g.is '\x7d' then -1 else 0

/-- What is no quote and no brace. -/
def isPlain (g : Glyph) : Bool := !(g.isQuote || g.is '\x7b' || g.is '\x7d')

theorem isQuote_of_isPlain {g : Glyph} (plain : g.isPlain = true) : g.isQuote = false := by
  simp only [isPlain, Bool.not_eq_true', Bool.or_eq_false_iff] at plain
  exact plain.1.1

theorem brace_of_isPlain {g : Glyph} (plain : g.isPlain = true) : g.brace = 0 := by
  simp only [isPlain, Bool.not_eq_true', Bool.or_eq_false_iff] at plain
  rw [brace, plain.1.2, plain.2]
  rfl

end Glyph

/-- How many more braces a text opens than it closes, wherever they stand. -/
def Text.braces (t : Text) : Int := (t.map Glyph.brace).sum

theorem Text.braces_of_isPlain {t : Text} (plain : ∀ g ∈ t, Glyph.isPlain g = true) : t.braces = 0 := by
  refine List.sum_eq_zero fun n found => ?_
  obtain ⟨g, member, rfl⟩ := List.mem_map.1 found
  exact Glyph.brace_of_isPlain (plain g member)

/-- The backslashes at the end of a text. -/
def Text.backslashes (t : Text) : Nat := (t.rtakeWhile (Glyph.is '\\')).length

namespace BraceCount

/-- The count behind more glyphs. -/
def after (b : BraceCount) (t : Text) : BraceCount := t.foldl (fun b g => b.step g.shown) b

theorem after_append (b : BraceCount) (s t : Text) : b.after (s ++ t) = (b.after s).after t := List.foldl_append

/-- So many braces are open, and no quote. -/
def outside (n : Int) : BraceCount := ⟨n, none, false⟩

/-- So many braces were open when a quote was. -/
def quoted (n : Int) (escaped : Bool) : BraceCount := ⟨n, some '"', escaped⟩

theorem step_outside (n : Int) {g : Glyph} (unquoted : g.isQuote = false) :
    (outside n).step g.shown = outside (n + g.brace) := by
  cases g with
  | stray b => simp [outside, step, Glyph.shown, Glyph.brace, Glyph.is]
  | char c =>
    simp only [Glyph.isQuote, Glyph.is, Bool.or_eq_false_iff, beq_eq_false_iff_ne] at unquoted
    by_cases opens : c = '\x7b'
    · simp [opens, outside, step, Glyph.shown, Glyph.brace, Glyph.is]
    · by_cases closes : c = '\x7d'
      · simp [closes, outside, step, Glyph.shown, Glyph.brace, Glyph.is, Int.sub_eq_add_neg]
      · simp [opens, closes, unquoted, outside, step, Glyph.shown, Glyph.brace, Glyph.is]

/-- Over text without quotes every brace counts. -/
theorem after_unquoted (n : Int) {t : Text} (unquoted : ∀ g ∈ t, Glyph.isQuote g = false) :
    (outside n).after t = outside (n + t.braces) := by
  induction t generalizing n with
  | nil => exact congrArg outside (Int.add_zero n).symm
  | cons g t ih =>
    obtain ⟨first, rest⟩ := List.forall_mem_cons.1 unquoted
    calc (outside n).after (g :: t) = ((outside n).step g.shown).after t := rfl
      _ = (outside (n + g.brace)).after t := by rw [step_outside n first]
      _ = outside (n + Text.braces (g :: t)) := by
        rw [ih _ rest, Text.braces, Text.braces, List.map_cons, List.sum_cons, Int.add_assoc]

theorem after_isPlain (n : Int) {t : Text} (plain : ∀ g ∈ t, Glyph.isPlain g = true) :
    (outside n).after t = outside n := by
  rw [after_unquoted n fun g member => Glyph.isQuote_of_isPlain (plain g member), Text.braces_of_isPlain plain,
    Int.add_zero]

/-- Inside a quote nothing counts. The next character is escaped behind an odd number of backslashes. -/
theorem after_quoted (n : Int) {t : Text} (inside : ∀ g ∈ t, g.is '"' = false) :
    (quoted n false).after t = quoted n (Text.backslashes t % 2 == 1) := by
  induction t using List.reverseRecOn with
  | nil => rfl
  | append_singleton t g ih =>
    rw [after_append, ih fun h member => inside h (List.mem_append_left _ member)]
    change (quoted n (Text.backslashes t % 2 == 1)).step g.shown = _
    have noQuote : g.is '"' = false := inside g (by simp)
    cases isBackslash : g.is '\\' with
    | true =>
      have one_more : Text.backslashes (t ++ [g]) = Text.backslashes t + 1 := by
        rw [Text.backslashes, List.rtakeWhile_concat_pos _ _ _ isBackslash, List.length_append]
        rfl
      rw [one_more, Lexer.is_eq isBackslash]
      rcases Nat.mod_two_eq_zero_or_one (Text.backslashes t) with even | odd
      · rw [even, show (Text.backslashes t + 1) % 2 = 1 by omega]
        rfl
      · rw [odd, show (Text.backslashes t + 1) % 2 = 0 by omega]
        rfl
    | false =>
      have none : Text.backslashes (t ++ [g]) = 0 := by
        rw [Text.backslashes, List.rtakeWhile_concat_neg _ _ _ (by simp [isBackslash])]
        rfl
      rw [none]
      cases Text.backslashes t % 2 == 1 with
      | true => rfl
      | false =>
        cases g with
        | stray b => rfl
        | char c =>
          have other : c ≠ '\\' := by simpa [Glyph.is] using isBackslash
          have another : c ≠ '"' := by simpa [Glyph.is] using noQuote
          simp [quoted, step, Glyph.shown, other, another]

end BraceCount

/-! ## Tokens -/

namespace Token

/-- Whether a string has its closing quote. -/
def isClosed (t : Token) : Bool := t.lexeme.length == t.contents.length + 2

/-- Whether braces are counted behind a token as they are scanned there: a comment has no quotes, and in front of the
closing quote of a string there is no odd number of backslashes. -/
def isTransparent (t : Token) : Bool :=
  match t.kind with
  | .comment => t.lexeme.all fun g => !g.isQuote
  | .string => !t.isClosed || Text.backslashes t.contents % 2 == 0
  | _ => true

theorem contents_of_closed {inside : Text} (unquoted : ∀ g ∈ inside, g.is '"' = false) (span : Span) :
    contents ⟨.string, .char '"' :: (inside ++ [.char '"']), span⟩ = inside := by
  unfold contents
  rw [List.drop_one, List.tail_cons, List.takeWhile_append_of_pos (by simpa using unquoted)]
  exact List.append_nil inside

/-- How many tokens are opening braces. -/
def opened (ts : List Token) : Nat := ts.countP fun t => t.kind == .symbol .leftBrace

/-- How many tokens are closing braces. -/
def closed (ts : List Token) : Nat := ts.countP fun t => t.kind == .symbol .rightBrace

/-- How many more braces are opened than closed in comments. -/
def commented (ts : List Token) : Int := ((ts.filter fun t => t.kind == .comment).map fun t => t.lexeme.braces).sum

/-- What a token adds to the count. -/
def weight (t : Token) : Int :=
  match t.kind with
  | .symbol .leftBrace => 1
  | .symbol .rightBrace => -1
  | .comment => t.lexeme.braces
  | _ => 0

theorem sum_weight (ts : List Token) : (ts.map weight).sum = opened ts - closed ts + commented ts := by
  induction ts with
  | nil => rfl
  | cons t ts ih =>
    rw [List.map_cons, List.sum_cons, ih]
    unfold opened closed commented weight
    rw [List.countP_cons, List.countP_cons, List.filter_cons]
    split <;> simp_all <;> omega

end Token

namespace Lexer

open BraceCount

theorem isPlain_of_isWordPart {g : Glyph} (part : isWordPart g = true) : g.isPlain = true := by
  have other {c : Char} (noPart : isWordPart (.char c) = false) : g.is c = false := by
    rw [Bool.eq_false_iff]
    intro same
    rw [is_eq same, noPart] at part
    cases part
  rw [Glyph.isPlain, Glyph.isQuote, other rfl, other rfl, other rfl, other rfl]
  rfl

theorem isPlain_of_isSpace {g : Glyph} (blank : isSpace g = true) : g.isPlain = true := by
  simp only [isSpace, Bool.or_eq_true] at blank
  rcases blank with ((h | h) | h) | h <;> rw [is_eq h] <;> rfl

theorem weight_ofWord (w : String) (lexeme : Text) (span : Span) : Token.weight ⟨.ofWord w, lexeme, span⟩ = 0 := by
  unfold TokenKind.ofWord
  split
  · rfl
  · split <;> rfl

/-- A string either has its closing quote or goes on to the end of the text. -/
theorem tail_of_stringTail {tail rest : Text} (length : stringTail (tail ++ rest) = tail.length) :
    (∃ inside : Text, tail = inside ++ [.char '"'] ∧ ∀ g ∈ inside, g.is '"' = false) ∨
      rest = [] ∧ ∀ g ∈ tail, g.is '"' = false := by
  generalize whole : tail ++ rest = t at length
  have split : t.takeWhile (fun g => !g.is '"') ++ t.dropWhile (fun g => !g.is '"') = t := List.takeWhile_append_dropWhile
  have unquoted : ∀ g ∈ t.takeWhile (fun g => !g.is '"'), g.is '"' = false := fun g member => by
    simpa using List.mem_takeWhile_imp member
  have total := congrArg List.length split
  have total' := congrArg List.length whole
  simp only [stringTail, run] at length
  rw [List.length_append] at total total'
  cases behind : t.dropWhile fun g => !g.is '"' with
  | nil =>
    rw [behind, List.length_nil] at total
    have none : rest = [] := List.eq_nil_of_length_eq_zero (by omega)
    rw [behind, List.append_nil, ← whole, none, List.append_nil] at split
    refine .inr ⟨none, fun g member => unquoted g ?_⟩
    rwa [← whole, none, List.append_nil, split]
  | cons quote more =>
    have isQuote := List.head?_dropWhile_not (fun g : Glyph => !g.is '"') t
    rw [behind] at isQuote split total
    rw [List.length_cons] at total
    have sameLength : tail.length = (t.takeWhile (fun g => !g.is '"') ++ [quote]).length := by
      rw [List.length_append, List.length_singleton]
      omega
    have parts : tail ++ rest = (t.takeWhile (fun g => !g.is '"') ++ [quote]) ++ more := by
      rw [whole, List.append_assoc, List.singleton_append, split]
    refine .inl ⟨_, ?_, unquoted⟩
    rw [(List.append_inj parts sameLength).1, is_eq (show quote.is '"' = true by simpa using isQuote)]

/-- What the count does over a token. Behind a string that is not closed there is nothing to count. -/
theorem Classified.count_lexeme {g : Glyph} {tail rest : Text} {kind : TokenKind} {span : Span} (n : Int)
    (classified : Classified g (tail ++ rest) kind tail.length) (transparent : Token.isTransparent ⟨kind, g :: tail, span⟩ = true) :
    (outside n).after (g :: tail) = outside (n + Token.weight ⟨kind, g :: tail, span⟩) ∨
      rest = [] ∧ ((outside n).after (g :: tail)).depth = n + Token.weight ⟨kind, g :: tail, span⟩ := by
  generalize whole : tail ++ rest = t at classified
  generalize len : tail.length = m at classified
  cases classified with
  | word letter =>
    subst whole
    obtain ⟨parts, -⟩ := run_append_iff.1 len.symm
    refine .inl ?_
    rw [weight_ofWord, Int.add_zero]
    refine after_isPlain n (List.forall_mem_cons.2 ⟨?_, fun h member => isPlain_of_isWordPart (parts h member)⟩)
    exact isPlain_of_isWordPart (by rw [isWordPart, letter, Bool.true_or])
  | number digit small =>
    subst whole
    obtain ⟨digits, -⟩ := run_append_iff.1 len.symm
    refine .inl ?_
    rw [Token.weight, Int.add_zero]
    refine after_isPlain n (List.forall_mem_cons.2 ⟨?_, fun h member => isPlain_of_isWordPart ?_⟩)
    · exact isPlain_of_isWordPart (by rw [isWordPart, digit, Bool.or_true])
    · rw [isWordPart, digits h member, Bool.or_true]
  | quotation =>
    subst whole
    rw [Token.weight, Int.add_zero]
    rcases tail_of_stringTail len.symm with ⟨inside, rfl, unquoted⟩ | ⟨none, unquoted⟩
    · refine .inl ?_
      have even : Text.backslashes inside % 2 = 0 := by
        simpa [Token.isTransparent, Token.isClosed, Token.contents_of_closed unquoted] using transparent
      change (quoted n false).after (inside ++ [.char '"']) = _
      rw [after_append, after_quoted n unquoted, even]
      rfl
    · refine .inr ⟨none, ?_⟩
      change ((quoted n false).after tail).depth = n
      rw [after_quoted n unquoted]
      rfl
  | @atName h rest₀ letter =>
    rw [← whole] at len
    obtain ⟨parts, -⟩ := run_append_iff.1 len.symm
    refine .inl ?_
    rw [Token.weight, Int.add_zero]
    exact after_isPlain n (List.forall_mem_cons.2 ⟨rfl, fun h member => isPlain_of_isWordPart (parts h member)⟩)
  | comment => exact .inl (after_unquoted n (by simpa [Token.isTransparent] using transparent))
  | @double c d s rest₀ double =>
    obtain ⟨e, rfl⟩ := List.length_eq_one_iff.1 len
    cases whole
    unfold Symbol.double? at double
    split at double <;> cases double <;> exact .inl (after_unquoted n (by decide))
  | @single c s _ single alone =>
    cases List.length_eq_zero_iff.1 len
    unfold Symbol.single? at single
    split at single <;> cases single <;> exact .inl (after_unquoted n (by decide))

/-- The count behind a text is that of its tokens. -/
theorem depth_of_scanned {p : Position} {t : Text} {tokens : List Token} (scanned : Scanned p t tokens)
    (transparent : ∀ t ∈ tokens, t.isTransparent = true) (n : Int) :
    ((outside n).after t).depth = n + (tokens.map Token.weight).sum := by
  induction scanned generalizing n with
  | done => exact (Int.add_zero n).symm
  | @space p g rest tokens blank more ih =>
    have same : (outside n).step g.shown = outside n := after_isPlain n (t := [g]) (by simpa using isPlain_of_isSpace blank)
    change (((outside n).step g.shown).after rest).depth = _
    rw [same]
    exact ih transparent n
  | @token p g tail rest kind tokens visible classified more ih =>
    obtain ⟨first, others⟩ := List.forall_mem_cons.1 transparent
    have split : (outside n).after (g :: (tail ++ rest)) = ((outside n).after (g :: tail)).after rest :=
      after_append (outside n) (g :: tail) rest
    rw [split, List.map_cons, List.sum_cons, ← Int.add_assoc]
    rcases classified.count_lexeme n first with counted | ⟨rfl, counted⟩
    · rw [counted]
      exact ih others _
    · -- nothing but the end of the input is left
      cases more
      exact counted.trans (Int.add_zero _).symm

end Lexer

/-! ## Inputs -/

/-- The count behind a text whose tokens are transparent. -/
theorem braceDepth_of_tokens {source : Text} {tokens : List Token} (scanned : source.tokens = .ok tokens)
    (transparent : ∀ t ∈ tokens, t.isTransparent = true) :
    braceDepth source = Token.opened tokens - Token.closed tokens + Token.commented tokens := by
  rw [← Token.sum_weight]
  exact (Lexer.depth_of_scanned (Lexer.scanned_of_scan scanned) transparent 0).trans (Int.zero_add _)

/-- Where comments have no quotes and strings do not end in a backslash that is taken for an escape, braces are counted as
they are scanned, and those of comments beside. If comments have as many that open as that close, an input goes on with
the next line exactly if it has more tokens that open a brace than that close one. -/
theorem braces_are_counted_as_scanned {source : Text} {tokens : List Token} (scanned : source.tokens = .ok tokens)
    (transparent : ∀ t ∈ tokens, t.isTransparent = true) :
    braceDepth source = Token.opened tokens - Token.closed tokens + Token.commented tokens ∧
      (Token.commented tokens = 0 → braceDepth source = Token.opened tokens - Token.closed tokens ∧
        ∀ (m : Type → Type) [Monad m] (s : Shell m) (line : Text), line.width ≤ Shell.maxLine →
          Shell.withLine s.pending line = source →
          s.feed line = if Token.closed tokens < Token.opened tokens then pure (.blank, { s with pending := source })
            else s.accept source) := by
  have counted := braceDepth_of_tokens scanned transparent
  refine ⟨counted, fun balanced => ?_⟩
  rw [balanced, Int.add_zero] at counted
  refine ⟨counted, fun m _ s line short same => ?_⟩
  rw [Shell.feed_eq s short, same, counted]
  by_cases unclosed : Token.closed tokens < Token.opened tokens
  · rw [if_pos unclosed, if_neg (by omega)]
  · rw [if_neg unclosed, if_pos (by omega)]

/-- What holds of the tokens of a text, and can be tested. -/
theorem exists_tokens (source : Text) {P : List Token → Prop} [DecidablePred P]
    (holds : source.tokens.toOption.any (fun tokens => P tokens) = true) :
    ∃ tokens, source.tokens = .ok tokens ∧ P tokens := by
  cases scanned : source.tokens with
  | error e => simp [scanned, Except.toOption] at holds
  | ok tokens => exact ⟨tokens, rfl, by simpa [scanned, Except.toOption] using holds⟩

/-- Two lines that open two braces: there are more in a comment and in strings, one of which has an apostrophe and ends in
two backslashes, and one of which is not closed. -/
def crypticSource : Text :=
  "class A \x7b // \x7b \x7d\n  f() \x7b return \"it's \x7b\\\\\" + \"\x7d"

theorem crypticSource_is_counted : ∃ tokens, crypticSource.tokens = .ok tokens ∧
    (∀ t ∈ tokens, t.isTransparent = true) ∧ Token.commented tokens = 0 ∧ Token.opened tokens = 2 ∧
    Token.closed tokens = 0 ∧ braceDepth crypticSource = 2 := by
  obtain ⟨tokens, scanned, transparent, balanced, opened, closed⟩ :=
    exists_tokens crypticSource (P := fun tokens => (∀ t ∈ tokens, t.isTransparent = true) ∧
      Token.commented tokens = 0 ∧ Token.opened tokens = 2 ∧ Token.closed tokens = 0) (by decide +kernel)
  obtain ⟨-, counted⟩ := braces_are_counted_as_scanned scanned transparent
  have depth := (counted balanced).1
  rw [opened, closed] at depth
  exact ⟨tokens, scanned, transparent, balanced, opened, closed, depth⟩

/-- The count differs from that of the brace tokens. -/
def IsMiscounted (source : Text) : Prop :=
  ∃ tokens, source.tokens = .ok tokens ∧ braceDepth source ≠ Token.opened tokens - Token.closed tokens

/-- An apostrophe in a comment, a backslash at the end of a string, and a brace in a comment. -/
theorem hidden_braces : IsMiscounted "class A \x7b // don't\n\x7d" ∧
    IsMiscounted "let s = \"C:\\\"; class A \x7b" ∧ IsMiscounted "1 // \x7b" :=
  ⟨exists_tokens _ (by decide +kernel), exists_tokens _ (by decide +kernel), exists_tokens _ (by decide +kernel)⟩

end ClassScript
