import Mathlib.Data.List.DropRight
import ClassScript.Proofs.Excerpts

/-!
# Where tokens stand

Scanning keeps every byte of a source: a token is the bytes of its span, tokens stand in order and apart, and what lies
between them is blank (`Bytes.scanning_is_lossless`). The line and the column of a token, or of what scanning stops at, are
those of its first byte in the source (`Token.ofSource_places`).
-/

namespace ClassScript

/-! ## Tokens in the text -/

/-- The lexeme stands where the span says, from the start of the text. -/
def Token.StandsIn (t : Token) (whole : Text) : Prop :=
  ∃ before behind, whole = before ++ (t.lexeme ++ behind) ∧
    t.span = .between (Position.start.after before) (Position.start.after (before ++ t.lexeme))

namespace Lexer

/-- Every token stands in the text, with what has been scanned before in front of it. -/
theorem Scanned.standsIn {p : Position} {t : Text} {tokens : List Token} (scanned : Scanned p t tokens) :
    ∀ before, p = Position.start.after before → ∀ u ∈ tokens, u.StandsIn (before ++ t) := by
  induction scanned with
  | done =>
    rintro before rfl u found
    rw [List.mem_singleton.1 found]
    exact ⟨before, [], rfl, by rw [endToken, List.append_nil]⟩
  | @space p g rest tokens _ _ ih =>
    rintro before rfl u found
    have stands := ih (before ++ [g]) (Position.after_append _ _ [g]).symm u found
    rwa [List.append_assoc, List.singleton_append] at stands
  | @token p g tail rest kind tokens _ _ _ ih =>
    rintro before rfl u found
    rcases List.mem_cons.1 found with rfl | later
    · exact ⟨before, rest, rfl, by rw [Position.after_append]⟩
    · have stands := ih (before ++ g :: tail) (Position.after_append _ _ (g :: tail)).symm u later
      rwa [List.append_assoc, List.cons_append] at stands

/-- Scanning stops at a glyph with which no token starts, and blames the place of that glyph. -/
theorem stops_at {p : Position} {t : Text} {fault : ScanFault} {span : Span}
    (failed : scan p t = .error (fault, span)) : ∃ before g behind n, t = before ++ g :: behind ∧
      classify g behind = (.error fault, n) ∧ span = .between (p.after before) (p.after (before ++ g :: behind.take n)) := by
  induction len : t.length using Nat.strongRecOn generalizing p t with
  | ind _ ih =>
    subst len
    cases t with
    | nil =>
      rw [scan] at failed
      cases failed
    | cons g rest =>
      rw [scan] at failed
      split at failed
      · obtain ⟨before, h, behind, n, rfl, bad, place⟩ := ih rest.length (Nat.lt_succ_self _) failed rfl
        exact ⟨g :: before, h, behind, n, rfl, bad, place⟩
      · generalize verdict : classify g rest = v at failed
        obtain ⟨result, n⟩ := v
        cases result with
        | error fault' =>
          cases failed
          exact ⟨[], g, rest, n, rfl, verdict, rfl⟩
        | ok kind =>
          dsimp only at failed
          cases more : scan (p.after (g :: rest.take n)) (rest.drop n) with
          | ok tokens =>
            rw [more] at failed
            cases failed
          | error e =>
            rw [more] at failed
            cases failed
            have shorter : (rest.drop n).length < (g :: rest).length := by
              rw [List.length_drop, List.length_cons]
              omega
            obtain ⟨before, h, behind, m, isRest, bad, place⟩ := ih _ shorter more rfl
            refine ⟨(g :: rest.take n) ++ before, h, behind, m, ?_, bad, ?_⟩
            · rw [List.append_assoc, ← isRest, List.cons_append, List.take_append_drop]
            · rw [place, List.append_assoc, Position.after_append p, Position.after_append p]

end Lexer

/-! ## Bytes between tokens -/

/-- The bytes that separate tokens: space, tab, line feed and carriage return. -/
def Bytes.blanks : Bytes := [0x20, 0x09, 0x0A, 0x0D]

namespace Lexer

/-- A glyph that separates tokens is a byte that does. -/
theorem isSpace_bytes {g : Glyph} (blank : isSpace g = true) : ∃ b, g.bytes = [b] ∧ b ∈ Bytes.blanks := by
  simp only [isSpace, Bool.or_eq_true] at blank
  rcases blank with ((space | tab) | feed) | ret
  · exact ⟨0x20, by rw [is_eq space]; rfl, by decide⟩
  · exact ⟨0x09, by rw [is_eq tab]; rfl, by decide⟩
  · exact ⟨0x0A, by rw [is_eq feed]; rfl, by decide⟩
  · exact ⟨0x0D, by rw [is_eq ret]; rfl, by decide⟩

/-- A byte of the text lies in the span of a token, or it is blank. -/
theorem Scanned.covered {p : Position} {t : Text} {tokens : List Token} (scanned : Scanned p t tokens) :
    ∀ (i : Nat) (b : UInt8), t.bytes[i]? = some b →
      (∃ u ∈ tokens, u.span.start ≤ p.offset + i ∧ p.offset + i < u.span.stop) ∨ b ∈ Bytes.blanks := by
  induction scanned with
  | done => nofun
  | @space p g rest tokens blank _ ih =>
    intro i b found
    obtain ⟨b', bytes, isBlank⟩ := isSpace_bytes blank
    have narrow : g.width = 1 := by rw [← Glyph.length_bytes, bytes, List.length_singleton]
    rw [Text.bytes_cons, bytes] at found
    cases i with
    | zero =>
      cases found
      exact .inr isBlank
    | succ i =>
      refine (ih i b found).imp (fun ⟨u, mem, covers⟩ => ⟨u, mem, ?_⟩) id
      rw [Position.offset_step, narrow] at covers
      omega
  | @token p g tail rest kind tokens _ _ _ ih =>
    intro i b found
    have stop := Position.offset_after p (g :: tail)
    by_cases inside : i < Text.width (g :: tail)
    · refine .inl ⟨_, List.mem_cons_self, Nat.le_add_right _ _, ?_⟩
      dsimp only [Span.between]
      omega
    · have split : Text.bytes (g :: (tail ++ rest)) = Text.bytes (g :: tail) ++ Text.bytes rest := by
        rw [← Text.bytes_append, List.cons_append]
      rw [split, List.getElem?_append_right (by rw [Text.length_bytes]; omega), Text.length_bytes] at found
      refine (ih _ b found).imp (fun ⟨u, mem, covers⟩ => ⟨u, List.mem_cons_of_mem _ mem, ?_⟩) id
      rw [stop] at covers
      omega

end Lexer

/-! ## Nothing is lost -/

/-- A token that stands in a source is the bytes of its span. -/
theorem Token.StandsIn.excerpt {t : Token} {source : Bytes} (stands : t.StandsIn source.text) :
    t.span.stop ≤ source.length ∧ t.lexeme.bytes = t.span.excerpt source := by
  obtain ⟨before, behind, whole, span⟩ := stands
  have bytes : source = before.bytes ++ (t.lexeme.bytes ++ behind.bytes) := by
    rw [← Text.bytes_append, ← Text.bytes_append, ← whole, Bytes.bytes_text]
  have start : t.span.start = before.bytes.length := by
    rw [span, Text.length_bytes]
    exact (Position.offset_after _ _).trans (Nat.zero_add _)
  have stop : t.span.stop = before.bytes.length + t.lexeme.bytes.length := by
    rw [span, Text.length_bytes, Text.length_bytes, ← Text.width_append]
    exact (Position.offset_after _ _).trans (Nat.zero_add _)
  refine ⟨?_, ?_⟩
  · rw [stop, bytes, List.length_append, List.length_append]
    omega
  · rw [Span.excerpt, start, stop, Nat.add_sub_cancel_left, bytes, List.drop_left, List.take_left]

/-- The tokens hold everything in the source that is not blank, in order and without overlap, and end with the end of the
source. -/
structure Token.Lossless (tokens : List Token) (source : Bytes) : Prop where
  ordered : tokens.Pairwise fun t u => t.span.start < u.span.start ∧ t.span.stop ≤ u.span.start
  exact : ∀ t ∈ tokens, t.kind ≠ .endOfInput → t.span.start < t.span.stop ∧ t.span.stop ≤ source.length ∧
    t.lexeme.bytes = t.span.excerpt source
  gaps : ∀ i b, source[i]? = some b → (∀ t ∈ tokens, ¬ (t.span.start ≤ i ∧ i < t.span.stop)) → b ∈ Bytes.blanks
  closed : ∃ before last, tokens = before ++ [last] ∧ (∀ t ∈ before, t.kind ≠ .endOfInput) ∧
    last.kind = .endOfInput ∧ last.span.start = source.length ∧ last.span.stop = source.length

/-- The end of the input stands behind the text. -/
theorem Lexer.Scanned.last_place {p : Position} {t : Text} {tokens : List Token} (scanned : Scanned p t tokens) :
    ∀ u ∈ tokens, u.kind = .endOfInput → u.span.start = p.offset + t.width ∧ u.span.stop = p.offset + t.width := by
  induction scanned with
  | done =>
    intro u found _
    rw [List.mem_singleton.1 found]
    exact ⟨rfl, rfl⟩
  | space _ _ ih =>
    intro u found isEnd
    have place := ih u found isEnd
    rwa [Position.offset_step, Nat.add_assoc] at place
  | @token p g tail rest kind tokens _ classified _ ih =>
    intro u found isEnd
    rcases List.mem_cons.1 found with rfl | later
    · exact absurd isEnd classified.inside
    · have place := ih u later isEnd
      rwa [Position.offset_after, Nat.add_assoc, ← Text.width_append] at place

/-- Scanning a source loses none of it. -/
theorem Bytes.scanning_is_lossless {source : Bytes} {tokens : List Token} (scanned : source.text.tokens = .ok tokens) :
    Token.Lossless tokens source := by
  have found := Lexer.scanned_of_scan scanned
  have stands : ∀ t ∈ tokens, t.StandsIn source.text := found.standsIn [] rfl
  obtain ⟨placed, ordered, before, last, rfl, isEnd, inner⟩ := found.stands (show 0 < Position.start.line by decide)
  have length : Text.width source.text = source.length := by rw [← Text.length_bytes, Bytes.bytes_text]
  refine ⟨?_, fun t mem inside => ⟨(placed t mem).filled inside, (stands t mem).excerpt⟩, fun i b here apart => ?_,
    before, last, rfl, inner, isEnd, ?_⟩
  · -- Only the last token may be empty.
    obtain ⟨first, single, last⟩ := List.pairwise_append.1 ordered
    refine List.pairwise_append.2 ⟨first.imp_of_mem fun mem _ stop => ?_, List.pairwise_singleton _ _,
      fun t mem u other => ?_⟩
    · have filled := (placed _ (List.mem_append_left _ mem)).filled (inner _ mem)
      exact ⟨by omega, stop⟩
    · have filled := (placed t (List.mem_append_left _ mem)).filled (inner t mem)
      have stop := last t mem u other
      exact ⟨by omega, stop⟩
  · have bytes : source.text.bytes[i]? = some b := by rwa [Bytes.bytes_text]
    rcases found.covered i b bytes with ⟨u, mem, covers⟩ | blank
    · refine absurd ?_ (apart u mem)
      simpa [Position.start] using covers
    · exact blank
  · have place := found.last_place last (List.mem_append_right _ List.mem_cons_self) isEnd
    rwa [length, Position.start, Nat.zero_add] at place

/-- Bytes that are no text stand in a string and in a comment. -/
def brokenSource : Bytes := Bytes.ofString "f(\"" ++ [0xFF, 0x0A] ++ Bytes.ofString "\") // " ++ [0xC3]

theorem brokenSource_is_lossless :
    ∃ tokens, brokenSource.text.tokens = .ok tokens ∧ tokens.length = 6 ∧ Token.Lossless tokens brokenSource := by
  have readable : (brokenSource.text.tokens.toOption.any fun tokens => tokens.length == 6) = true := by decide +kernel
  cases scanned : brokenSource.text.tokens with
  | error e =>
    rw [scanned] at readable
    cases readable
  | ok tokens =>
    rw [scanned] at readable
    exact ⟨tokens, rfl, beq_iff_eq.1 readable, Bytes.scanning_is_lossless scanned⟩

/-! ## Lines and columns -/

/-- The line of the byte at an offset: one more than there are line feeds in front of it. -/
def Bytes.lineAt (source : Bytes) (offset : Nat) : Nat := (source.take offset).count 0x0A + 1

/-- The column of the byte at an offset: one more than there are characters between the last line feed in front of it, or
the start of the source, and the offset. A byte that encodes no character counts as one. -/
def Bytes.columnAt (source : Bytes) (offset : Nat) : Nat :=
  (Bytes.text ((source.take offset).rtakeWhile (· != 0x0A))).length + 1

/-- The span starts on the line and in the column of its first byte. -/
structure Span.PlacedIn (s : Span) (source : Bytes) : Prop where
  inside : s.start ≤ source.length
  line : s.line = source.lineAt s.start
  column : s.column = source.columnAt s.start

namespace Text

/-- A byte of a settled text that encodes no character is no ASCII byte. -/
theorem Settled.stray_large {t : Text} (settled : t.Settled) : ∀ b, .stray b ∈ t → ¬ b < 0x80 := by
  induction t with
  | nil => nofun
  | cons g t ih =>
    obtain ⟨front, rest⟩ := settled_cons settled
    intro b found small
    rcases List.mem_cons.1 found with rfl | later
    · -- An ASCII byte is read as its character.
      have small : b.toNat < 0x80 := small
      have code : ∀ n < 0x80, (Char.ofNat n).toNat = n := by decide
      have code : (Char.ofNat b.toNat).toNat = b.toNat := code _ small
      have ascii : isAscii (Char.ofNat b.toNat) = true := by rwa [isAscii, code, decide_eq_true_eq]
      have read := solid_ascii ascii (bytes t)
      rw [show bytes [.char (Char.ofNat b.toNat)] = [b] by
        rw [bytes_cons, Glyph.bytes, encode_ascii ascii, code, UInt8.ofNat_toNat]; rfl] at read
      cases (show Glyph.stray b :: ofBytes (bytes t) = _ from front.symm.trans read)
    · exact ih rest b later small

/-- A glyph is an ASCII character, or no byte of it is that of the character. -/
theorem ascii_bytes {a : Char} (ascii : isAscii a = true) {g : Glyph} (large : ∀ b, g = .stray b → ¬ b < 0x80) :
    (g.is a = true ∧ g.bytes = [UInt8.ofNat a.toNat]) ∨ (g.is a = false ∧ ∀ b ∈ g.bytes, b ≠ UInt8.ofNat a.toNat) := by
  have small : a.toNat < 0x80 := by simpa [isAscii] using ascii
  have code : (UInt8.ofNat a.toNat).toNat = a.toNat := by rw [UInt8.toNat_ofNat', Nat.mod_eq_of_lt (by omega)]
  have low : UInt8.ofNat a.toNat < 0x80 := UInt8.lt_iff_toNat_lt.2 (by rwa [code])
  cases g with
  | stray b =>
    refine .inr ⟨rfl, List.forall_mem_singleton.2 ?_⟩
    rintro rfl
    exact large _ rfl low
  | char c =>
    by_cases same : c = a
    · subst same
      exact .inl ⟨beq_self_eq_true c, encode_ascii ascii⟩
    · refine .inr ⟨beq_eq_false_iff_ne.2 same, fun b found isCode => same ?_⟩
      subst isCode
      obtain ⟨first, tail, spelled, announced, tail_large⟩ := encoding_shape c
      rw [Glyph.bytes, spelled] at found
      rcases List.mem_cons.1 found with rfl | later
      · have short : tail = [] := by
          rw [leadLength, if_pos low] at announced
          exact List.length_eq_zero_iff.1 (Nat.succ.inj announced).symm
        have narrow : c.utf8Size = 1 := by rw [← String.length_utf8EncodeChar, spelled, short]; rfl
        have small' : c.toNat < 0x80 := Nat.lt_succ_of_le (Char.utf8Size_eq_one_iff.1 narrow)
        rw [encode_ascii (by simpa [isAscii] using small')] at spelled
        have same := congrArg UInt8.toNat (List.cons.inj spelled).1
        rw [UInt8.toNat_ofNat', Nat.mod_eq_of_lt (by omega), code] at same
        exact Char.toNat_inj.1 same
      · exact absurd low (tail_large _ later)

/-- A glyph is a line feed, or no byte of it is one. -/
theorem newline_bytes {g : Glyph} (large : ∀ b, g = .stray b → ¬ b < 0x80) :
    (g.is '\n' = true ∧ g.bytes = [0x0A]) ∨ (g.is '\n' = false ∧ ∀ b ∈ g.bytes, b ≠ 0x0A) :=
  ascii_bytes rfl large

end Text

/-- The part of a text behind its last line feed. -/
def Text.lastLine (t : Text) : Text := t.rtakeWhile fun g => !g.is '\n'

theorem Text.lastLine_concat (t : Text) (g : Glyph) :
    Text.lastLine (t ++ [g]) = if g.is '\n' then [] else t.lastLine ++ [g] := by
  rw [lastLine, List.rtakeWhile_concat]
  cases g.is '\n' <;> rfl

/-- The last line of a text that was read is read again. -/
theorem Text.Settled.lastLine {t : Text} (settled : t.Settled) : t.lastLine.Settled := by
  obtain ⟨earlier, split⟩ : t.lastLine <:+ t := List.rtakeWhile_suffix _ _
  rw [← split] at settled
  exact Text.settled_drop settled

/-- The line and the column behind a text count its line feeds, and the glyphs of its last line. -/
theorem Position.after_start (t : Text) : (start.after t).line = t.countP (Glyph.is '\n') + 1 ∧
    (start.after t).column = t.lastLine.length + 1 := by
  induction t using List.reverseRecOn with
  | nil => exact ⟨rfl, rfl⟩
  | append_singleton t g ih =>
    obtain ⟨line, column⟩ := ih
    rw [after_append, Text.lastLine_concat, List.countP_append, List.countP_singleton,
      show (start.after t).after [g] = (start.after t).step g from rfl, step]
    cases g.is '\n' with
    | true => exact ⟨congrArg (· + 1) line, rfl⟩
    | false =>
      refine ⟨line, ?_⟩
      rw [if_neg Bool.false_ne_true, if_neg Bool.false_ne_true, List.length_append]
      exact congrArg (· + 1) column

/-- The line feeds of a text and its last line, seen from its bytes. -/
theorem Text.newlines_bytes {t : Text} (large : ∀ b, .stray b ∈ t → ¬ b < 0x80) :
    t.bytes.count 0x0A = t.countP (Glyph.is '\n') ∧ t.bytes.rtakeWhile (· != 0x0A) = t.lastLine.bytes := by
  induction t using List.reverseRecOn with
  | nil => exact ⟨rfl, rfl⟩
  | append_singleton t g ih =>
    obtain ⟨feeds, bytes⟩ := ih fun b found => large b (List.mem_append_left _ found)
    have one : Text.bytes [g] = g.bytes := by rw [Text.bytes_cons]; exact List.append_nil _
    rw [bytes_append, List.count_append, List.countP_append, List.countP_singleton, one, lastLine_concat, feeds]
    rcases newline_bytes (g := g) fun b same => large b (same ▸ List.mem_append_right _ List.mem_cons_self) with
      ⟨feed, spelled⟩ | ⟨other, spelled⟩
    · rw [feed, spelled, List.rtakeWhile_concat_neg _ _ _ (by decide)]
      exact ⟨rfl, rfl⟩
    · rw [other, if_neg Bool.false_ne_true, if_neg Bool.false_ne_true, bytes_append, one]
      refine ⟨?_, ?_⟩
      · rw [List.count_eq_zero.2 fun found => spelled _ found rfl]
      · rw [List.rtakeWhile, List.reverse_append, List.takeWhile_append_of_pos, List.reverse_append, List.reverse_reverse,
          ← List.rtakeWhile, bytes]
        intro b found
        exact bne_iff_ne.2 (spelled b (List.mem_reverse.1 found))

/-- A place in a source, with its line and column. -/
theorem Position.placedIn {source : Bytes} {before behind : Text} (whole : source.text = before ++ behind) (stop : Position) :
    (Span.between (start.after before) stop).PlacedIn source := by
  have settled : Text.Settled (before ++ behind) := whole ▸ Text.settled_ofBytes source
  have bytes : source = before.bytes ++ behind.bytes := by rw [← Text.bytes_append, ← whole, Bytes.bytes_text]
  have offset : (start.after before).offset = before.bytes.length := by
    rw [Text.length_bytes]
    exact (offset_after _ _).trans (Nat.zero_add _)
  have front := Text.settled_take settled
  obtain ⟨line, column⟩ := after_start before
  obtain ⟨feeds, lastLine⟩ := Text.newlines_bytes front.stray_large
  have taken : source.take (start.after before).offset = before.bytes := by rw [offset, bytes, List.take_left]
  refine ⟨?_, ?_, ?_⟩
  · rw [Span.between, offset, bytes, List.length_append]
    exact Nat.le_add_right _ _
  · rw [Bytes.lineAt, Span.between, taken, feeds]
    exact line
  · -- The last line of a settled text is settled, so its bytes are read as its glyphs.
    rw [Bytes.columnAt, Span.between, taken, lastLine, Bytes.text, front.lastLine]
    exact column

/-- Every token of a source, and what scanning stops at, is reported on the line and in the column where it starts. -/
theorem Token.ofSource_places (file : String) (source : Bytes) :
    match Token.ofSource file source.text with
    | .ok tokens => ∀ t ∈ tokens, t.span.PlacedIn source
    | .error d => d.span.PlacedIn source := by
  unfold Token.ofSource
  cases scanned : source.text.tokens with
  | ok tokens =>
    intro t found
    obtain ⟨before, behind, whole, span⟩ := (Lexer.scanned_of_scan scanned).standsIn [] rfl t found
    rw [span]
    exact Position.placedIn whole _
  | error e =>
    obtain ⟨fault, span⟩ := e
    obtain ⟨before, g, behind, n, whole, -, place⟩ := Lexer.stops_at scanned
    rw [place]
    exact Position.placedIn whole _

/-- A source that cannot be read on its third line, behind a string of two lines with a byte that is no text. -/
def unreadableSource : Bytes := brokenSource ++ Bytes.ofString "\n #"

theorem brokenSource_places :
    (∃ tokens, Token.ofSource "main" brokenSource.text = .ok tokens ∧
      (tokens.map fun t => (t.span.line, t.span.column)) = [(1, 1), (1, 2), (1, 3), (2, 2), (2, 4), (2, 8)] ∧
        ∀ t ∈ tokens, t.span.PlacedIn brokenSource) ∧
      ∃ d, Token.ofSource "main" unreadableSource.text = .error d ∧ (d.span.line, d.span.column) = (3, 2) ∧
        d.span.PlacedIn unreadableSource := by
  have readable : ((Token.ofSource "main" brokenSource.text).toOption.map (List.map fun t => (t.span.line, t.span.column))) =
      some [(1, 1), (1, 2), (1, 3), (2, 2), (2, 4), (2, 8)] := by decide +kernel
  have refused : ((Token.ofSource "main" unreadableSource.text).mapError fun d => (d.span.line, d.span.column)).map List.length =
      .error (3, 2) := by decide +kernel
  have places := Token.ofSource_places "main" brokenSource
  have place := Token.ofSource_places "main" unreadableSource
  constructor
  · cases read : Token.ofSource "main" brokenSource.text with
    | error d =>
      rw [read] at readable
      cases readable
    | ok tokens =>
      rw [read] at readable places
      exact ⟨tokens, rfl, Option.some.inj readable, places⟩
  · cases read : Token.ofSource "main" unreadableSource.text with
    | ok tokens =>
      rw [read] at refused
      cases refused
    | error d =>
      rw [read] at refused place
      exact ⟨d, rfl, Except.error.inj refused, place⟩

end ClassScript
