import ClassScript.Grammar.Program
import ClassScript.Proofs.Encoding
import ClassScript.Proofs.Scanning

/-!
# Runs of text

The text between the tags of markup is a run of tokens as they are, with one space where there was a
gap. Which token starts at a place depends on no more than the one glyph behind it
(`Shape.Before.congr`). So tokens that once stood behind each other without a gap (`Joins`) do so
wherever the run is written, and a run is scanned as its pieces again (`Text.pieces`).
-/

namespace ClassScript

open Lexer

/-! ## Shapes -/

/-- A token without its place. In a run of text it also says whether a gap stands in front of it. -/
structure Shape where
  kind : TokenKind
  text : Text
  gap : Option Bool

/-- The shape of a token. -/
def Token.shape (t : Token) : Shape := ⟨t.kind, t.lexeme, none⟩

/-- The shape without what it says about a gap. -/
def Shape.loose (k : Shape) : Shape := ⟨k.kind, k.text, none⟩

/-- Whether a gap stands between two tokens. -/
def Token.isApart (last t : Token) : Bool := decide (last.span.stop < t.span.start)

/-- The tokens that stand behind the token `last` have the shapes. -/
inductive Fit : Token → List Token → List Shape → Prop
  | nil {last : Token} : Fit last [] []
  | cons {last t : Token} {ts : List Token} {k : Shape} {s : List Shape} :
    t.shape = k.loose → (∀ gap, k.gap = some gap → last.isApart t = gap) → Fit t ts s →
      Fit last (t :: ts) (k :: s)

theorem getLastD_append (last : Token) (ts ts' : List Token) :
    (ts ++ ts').getLastD last = ts'.getLastD (ts.getLastD last) := by
  induction ts generalizing last with
  | nil => rfl
  | cons t ts ih => rw [List.cons_append, List.getLastD_cons, List.getLastD_cons, ih]

theorem fit_append {last : Token} {ts ts' : List Token} {s s' : List Shape} (first : Fit last ts s)
    (second : Fit (ts.getLastD last) ts' s') : Fit last (ts ++ ts') (s ++ s') := by
  induction first with
  | nil => exact second
  | cons shape apart _ ih =>
    rw [List.getLastD_cons] at second
    exact .cons shape apart (ih second)

theorem fit_split {last : Token} {ts : List Token} {s s' : List Shape} (fit : Fit last ts (s ++ s')) :
    ∃ ts₁ ts₂, ts = ts₁ ++ ts₂ ∧ Fit last ts₁ s ∧ Fit (ts₁.getLastD last) ts₂ s' := by
  induction s generalizing last ts with
  | nil => exact ⟨[], ts, rfl, .nil, fit⟩
  | cons k s ih =>
    cases fit with
    | cons shape apart rest =>
      obtain ⟨ts₁, ts₂, rfl, first, second⟩ := ih rest
      exact ⟨_ :: ts₁, ts₂, rfl, .cons shape apart first, by rwa [List.getLastD_cons]⟩

theorem fit_kinds {last : Token} {ts : List Token} {s : List Shape} (fit : Fit last ts s) :
    ts.map Token.kind = s.map Shape.kind := by
  induction fit with
  | nil => rfl
  | cons shape _ _ ih =>
    rw [List.map_cons, List.map_cons, ih]
    exact congrArg (· :: _) (congrArg Shape.kind shape)

/-! ## Where a token ends -/

/-- The text starts with nothing that a token could go on with: with a space, a tag or a hole. -/
def Ceases (t : Text) : Prop := ∀ g, t.head? = some g → g = .char ' ' ∨ g = .char '<' ∨ g = .char '\x7b'

/-- The shape is what is scanned first when its text stands in front of the rest. -/
def Shape.Before (k : Shape) (rest : Text) : Prop :=
  ∃ g tail, k.text = g :: tail ∧ isSpace g = false ∧
    classify g (tail ++ rest) = (.ok k.kind, tail.length)

/-- The first shape is scanned when the second follows it without a gap. -/
def Joins (k k' : Shape) : Prop := ∀ rest, k.Before (k'.text ++ rest)

/-- The shape of a token with something behind it: it can be written where a gap, a tag or a hole
follows. -/
structure Shape.Stands (k : Shape) : Prop where
  solid : k.text.Solid
  noComment : k.kind ≠ .comment
  before : ∀ rest, Ceases rest → k.Before rest

theorem run_append {p : Glyph → Bool} {t rest : Text} (inside : ∀ g ∈ t, p g = true)
    (stops : ∀ g, rest.head? = some g → p g = false) : run p (t ++ rest) = t.length := by
  induction t with
  | nil =>
    cases rest with
    | nil => rfl
    | cons g rest =>
      have stop := stops g rfl
      rw [List.nil_append, run, List.takeWhile_cons_of_neg (by simp [stop])]
  | cons g t ih =>
    obtain ⟨first, others⟩ := List.forall_mem_cons.1 inside
    have rest := ih others
    rw [run] at rest ⊢
    rw [List.cons_append, List.takeWhile_cons_of_pos first, List.length_cons, rest, List.length_cons]

/-- A run that ends in front of a glyph. -/
theorem run_stops {p : Glyph → Bool} {t rest : Text} {h : Glyph}
    (length : run p (t ++ h :: rest) = t.length) : (∀ g ∈ t, p g = true) ∧ p h = false := by
  induction t with
  | nil =>
    refine ⟨by simp, Bool.eq_false_iff.2 fun holds => ?_⟩
    rw [List.nil_append, run, List.takeWhile_cons_of_pos holds] at length
    cases length
  | cons g t ih =>
    rw [run, List.cons_append] at length
    by_cases holds : p g = true
    · rw [List.takeWhile_cons_of_pos holds] at length
      obtain ⟨inside, stops⟩ := ih (Nat.succ.inj length)
      exact ⟨List.forall_mem_cons.2 ⟨holds, inside⟩, stops⟩
    · rw [List.takeWhile_cons_of_neg holds] at length
      cases length

/-- A quotation that ends in front of a glyph is closed. -/
theorem stringTail_stops {tail rest : Text} {h : Glyph}
    (length : stringTail (tail ++ h :: rest) = tail.length) :
    ∃ inside q, tail = inside ++ [q] ∧ Glyph.is '"' q = true ∧ ∀ g ∈ inside, (!Glyph.is '"' g) = true := by
  have total : run (fun g => !Glyph.is '"' g) (tail ++ h :: rest) + 1 = tail.length := by
    simp only [stringTail, List.length_append, List.length_cons] at length
    omega
  obtain ⟨inside, q, rfl⟩ : ∃ inside q, tail = inside ++ [q] := by
    rcases List.eq_nil_or_concat tail with rfl | ⟨inside, q, same⟩
    · cases total
    · exact ⟨inside, q, by rw [same, List.concat_eq_append]⟩
  rw [List.length_append, List.length_singleton, List.append_assoc, List.singleton_append] at total
  obtain ⟨quoted, closes⟩ := run_stops (Nat.succ.inj total)
  exact ⟨inside, q, rfl, by simpa using closes, quoted⟩

/-- A token in front of a glyph is found again in front of that glyph and wherever the text ceases. -/
theorem Lexer.Classified.replaced {g h : Glyph} {tail rest rest' : Text} {kind : TokenKind}
    (found : Classified g (tail ++ h :: rest) kind tail.length) (noComment : kind ≠ .comment)
    (replaces : rest'.head? = some h ∨ Ceases rest') : Classified g (tail ++ rest') kind tail.length := by
  refine found.again ⟨fun g first => ?_, fun _ none => nomatch none⟩
  rcases replaces with same | ceases
  · exact .inl (same.symm.trans first)
  · refine .inr (.inr ⟨?_, noComment⟩)
    rcases ceases g first with rfl | rfl | rfl <;> rfl

/-! ### Tokens are encoded by themselves -/

theorem isAscii_of_le {c d : Char} (below : c ≤ d) (ascii : Text.isAscii d = true) :
    Text.isAscii c = true := by
  have le : c.toNat ≤ d.toNat := below
  have small : d.toNat < 0x80 := by simpa [Text.isAscii] using ascii
  simpa [Text.isAscii] using Nat.lt_of_le_of_lt le small

theorem isAscii_wordPart {c : Char} (part : isWordPart (.char c) = true) : Text.isAscii c = true := by
  simp only [isWordPart, isLetter, isDigit, Bool.or_eq_true, Bool.and_eq_true, decide_eq_true_eq,
    beq_iff_eq] at part
  rcases part with ((⟨_, small⟩ | ⟨_, capital⟩) | rfl) | ⟨_, digit⟩
  · exact isAscii_of_le small (by decide)
  · exact isAscii_of_le capital (by decide)
  · decide
  · exact isAscii_of_le digit (by decide)

/-- The glyph is an ASCII character. -/
def IsAscii (g : Glyph) : Prop := ∃ c, g = .char c ∧ Text.isAscii c = true

theorem ascii_wordPart {g : Glyph} (part : isWordPart g = true) : IsAscii g := by
  cases g with
  | char c => exact ⟨c, rfl, isAscii_wordPart part⟩
  | stray b => cases part

theorem ascii_single {c : Char} {s : Symbol} (single : Symbol.single? c = some s) : Text.isAscii c = true := by
  unfold Symbol.single? at single
  split at single <;> first | decide | cases single

theorem ascii_second {c d : Char} {s : Symbol} (double : Symbol.double? c d = some s) :
    Text.isAscii d = true := by
  unfold Symbol.double? at double
  split at double <;> first | decide | cases double

/-- A token in front of something ends in an ASCII character. -/
theorem Lexer.Classified.ascii {g h : Glyph} {tail rest : Text} {kind : TokenKind}
    (found : Classified g (tail ++ h :: rest) kind tail.length) (noComment : kind ≠ .comment) :
    ∃ g', (g :: tail).getLast? = some g' ∧ IsAscii g' := by
  have last : ∀ {g : Glyph} {t : Text}, (∀ d ∈ g :: t, isWordPart d = true) →
      ∃ g', (g :: t).getLast? = some g' ∧ IsAscii g' := fun {g t} parts =>
    ⟨_, List.getLast?_eq_some_getLast (List.cons_ne_nil g t), ascii_wordPart (parts _ (List.getLast_mem _))⟩
  generalize whole : tail ++ h :: rest = t at found
  generalize len : tail.length = n at found
  cases found with
  | word letter =>
    subst whole
    obtain ⟨parts, -⟩ := run_stops len.symm
    exact last (List.forall_mem_cons.2 ⟨by rw [isWordPart, letter, Bool.true_or], parts⟩)
  | number digit _ =>
    subst whole
    obtain ⟨digits, -⟩ := run_stops len.symm
    refine last (List.forall_mem_cons.2 ⟨by rw [isWordPart, digit, Bool.or_true], fun d inside => ?_⟩)
    rw [isWordPart, digits d inside, Bool.or_true]
  | quotation =>
    subst whole
    obtain ⟨inside, q, rfl, closes, -⟩ := stringTail_stops len.symm
    rw [is_eq closes]
    exact ⟨_, by rw [← List.cons_append, List.getLast?_concat], '"', rfl, by decide⟩
  | @atName h' _ letter =>
    cases tail with
    | nil =>
      have part : isWordPart h' = true := by rw [isWordPart, letter, Bool.true_or]
      rw [run, List.takeWhile_cons_of_pos part] at len
      cases len
    | cons h' tail =>
      obtain ⟨rfl, -⟩ := List.cons.inj whole
      rw [← whole] at len
      obtain ⟨parts, -⟩ := run_stops len.symm
      rw [List.getLast?_cons_cons]
      exact last parts
  | comment => exact absurd rfl noComment
  | @double c d s _ double =>
    -- A symbol of two characters ends in the second.
    obtain ⟨_, rfl⟩ := List.length_eq_one_iff.1 len
    cases whole
    exact ⟨.char d, rfl, d, rfl, ascii_second double⟩
  | @single c s _ single _ =>
    obtain rfl := List.length_eq_zero_iff.1 len
    exact ⟨.char c, rfl, c, rfl, ascii_single single⟩

theorem solid_of_last {t : Text} {g : Glyph} (settled : t.Settled) (last : t.getLast? = some g)
    (ascii : IsAscii g) : t.Solid := by
  obtain ⟨c, rfl, small⟩ := ascii
  obtain ⟨inside, rfl⟩ := List.getLast?_eq_some_iff.1 last
  exact Text.solid_of_settled (Text.settled_take settled) small

/-! ## Tokens that stand behind each other -/

/-- What scanning promises of a token and a later one: the first stands, and unless there is a gap they
join. -/
def Token.Woven (a b : Token) : Prop :=
  a.kind ≠ .comment → b.kind ≠ .endOfInput →
    a.shape.Stands ∧ (a.isApart b = false → Joins a.shape b.shape)

theorem width_eq_zero {t : Text} (none : t.width = 0) : t = [] := by
  cases t with
  | nil => rfl
  | cons g t =>
    have some_width := g.width_pos
    have total : Text.width (g :: t) = g.width + Text.width t := rfl
    omega

/-- A token is found in the text at the offset where it starts. -/
theorem Lexer.Scanned.starts {p : Position} {t : Text} {tokens : List Token} (scanned : Scanned p t tokens) :
    ∀ b ∈ tokens, b.kind ≠ .endOfInput → ∃ before g tail rest, t = before ++ g :: (tail ++ rest) ∧
      b.lexeme = g :: tail ∧ b.span.start = p.offset + Text.width before := by
  induction scanned with
  | done =>
    intro b found noEnd
    rw [List.mem_singleton.1 found] at noEnd
    exact absurd rfl noEnd
  | @space p g rest tokens _ _ ih =>
    intro b found noEnd
    obtain ⟨before, g', tail, more, rfl, lexeme, start⟩ := ih b found noEnd
    refine ⟨g :: before, g', tail, more, rfl, lexeme, ?_⟩
    rw [start, Position.offset_step, Nat.add_assoc]
    rfl
  | @token p g tail rest kind tokens _ _ _ ih =>
    intro b found noEnd
    rcases List.mem_cons.1 found with rfl | later
    · exact ⟨[], g, tail, rest, rfl, rfl, rfl⟩
    · obtain ⟨before, g', tail', behind, rfl, lexeme, start⟩ := ih b later noEnd
      refine ⟨g :: (tail ++ before), g', tail', behind, ?_, lexeme, ?_⟩
      · rw [List.cons_append, List.append_assoc]
      · rw [start, Position.offset_after, Nat.add_assoc, ← Text.width_append, List.cons_append]

/-- Tokens of a settled text are woven. -/
theorem Lexer.Scanned.woven {p : Position} {t : Text} {tokens : List Token} (scanned : Scanned p t tokens)
    (settled : t.Settled) : tokens.Pairwise Token.Woven := by
  induction scanned with
  | done => exact List.pairwise_singleton _ _
  | space _ _ ih => exact ih (Text.settled_cons settled).2
  | @token p g tail rest kind tokens visible classified more ih =>
    have split : g :: (tail ++ rest) = (g :: tail) ++ rest := rfl
    rw [split] at settled
    refine List.pairwise_cons.2 ⟨fun b later noComment noEnd => ?_, ih (Text.settled_drop settled)⟩
    obtain ⟨before, h, tail', behind, text, lexeme, start⟩ := more.starts b later noEnd
    obtain ⟨h', rest', first⟩ : ∃ h' rest', rest = h' :: rest' := by
      rw [text]
      cases before <;> exact ⟨_, _, rfl⟩
    rw [first] at classified
    refine ⟨⟨?_, noComment, fun r ceases => ?_⟩, fun together r => ?_⟩
    · obtain ⟨last, ends, ascii⟩ := classified.ascii noComment
      exact solid_of_last (Text.settled_take settled) ends ascii
    · exact ⟨g, tail, rfl, visible, classify_of_classified (classified.replaced noComment (.inr ceases))⟩
    · -- Without a gap, nothing stands between the two tokens.
      have none : Text.width before = 0 := by
        have near : ¬ (p.after (g :: tail)).offset < b.span.start := of_decide_eq_false together
        omega
      obtain rfl := width_eq_zero none
      have same : (b.lexeme ++ r).head? = some h' := by
        rw [lexeme]
        exact congrArg List.head? (text.symm.trans first)
      exact ⟨g, tail, rfl, visible, classify_of_classified (classified.replaced noComment (.inl same))⟩

/-! ## Runs -/

/-- The shape can be a part of a run. -/
structure Shape.IsPiece (k : Shape) : Prop where
  stands : k.Stands
  inText : Grammar.endsText k.kind = false

/-- The shapes can follow the piece in a run: pieces without a gap join. -/
def Follows (k : Shape) : List Shape → Prop
  | [] => True
  | k' :: ks => k'.IsPiece ∧ (k'.gap = some true ∨ k'.gap = some false ∧ Joins k k') ∧ Follows k' ks

/-- What can follow a piece does not depend on the gap in front of it. -/
theorem Follows.loose {k k' : Shape} {ks : List Shape} (follows : Follows k ks) (same : k.loose = k'.loose) :
    Follows k' ks := by
  obtain ⟨kind, text, gap⟩ := k
  obtain ⟨kind', text', gap'⟩ := k'
  cases same
  cases ks with
  | nil => trivial
  | cons k ks => exact follows

/-- The text of pieces, with a space for every gap. -/
def joined : List Shape → Text
  | [] => []
  | k :: ks => (if k.gap = some true then .char ' ' :: k.text else k.text) ++ joined ks

/-- The text is that of a run of pieces. -/
def IsRun (t : Text) : Prop :=
  ∃ k ks, k.gap = none ∧ k.IsPiece ∧ Follows k ks ∧ t = joined (k :: ks)

theorem IsRun.some_text {t : Text} (isRun : IsRun t) : ∃ g rest, t = g :: rest := by
  obtain ⟨k, ks, first, piece, follows, rfl⟩ := isRun
  obtain ⟨g, tail, text, -⟩ := piece.stands.before [] fun _ found => nomatch found
  rw [joined, first, if_neg (by decide), text]
  exact ⟨g, _, rfl⟩

theorem solid_piece {k : Shape} (piece : k.IsPiece) :
    Text.Solid (if k.gap = some true then .char ' ' :: k.text else k.text) := by
  split
  · exact Text.solid_append (s := [.char ' ']) (Text.solid_ascii (by decide)) piece.stands.solid
  · exact piece.stands.solid

theorem solid_joined {k : Shape} {ks : List Shape} (piece : k.IsPiece) (follows : Follows k ks) :
    Text.Solid (joined (k :: ks)) := by
  induction ks generalizing k with
  | nil => exact Text.solid_append (solid_piece piece) Text.solid_nil
  | cons k' ks ih => exact Text.solid_append (solid_piece piece) (ih follows.1 follows.2.2)

/-- The shapes of tokens behind the token `last`, with the gaps between them. -/
def Token.gapped (last : Token) : List Token → List Shape
  | [] => []
  | t :: ts => ⟨t.kind, t.lexeme, some (last.isApart t)⟩ :: gapped t ts

/-- The pieces of a run of text. -/
def Text.pieces (t : Text) : List Shape :=
  match t.tokens with
  | .ok (first :: rest) => first.shape :: Token.gapped first rest.dropLast
  | _ => []

theorem map_append {x : Except (ScanFault × Span) (List Token)} (ts ts' : List Token) :
    (x.map (ts' ++ ·)).map (ts ++ ·) = x.map (ts ++ ts' ++ ·) := by
  cases x with
  | error fault => rfl
  | ok more => simp only [Except.map, List.append_assoc]

/-- A shape is scanned in front of the rest, as a token that starts where it stands. -/
theorem Shape.Before.scan {k : Shape} {rest : Text} (before : k.Before rest) (p : Position) :
    ∃ t, Lexer.scan p (k.text ++ rest) = (Lexer.scan (p.after k.text) rest).map ([t] ++ ·) ∧
      t.shape = k.loose ∧ t.span = .between p (p.after k.text) := by
  obtain ⟨g, tail, text, visible, found⟩ := before
  refine ⟨⟨k.kind, g :: tail, .between p (p.after (g :: tail))⟩, ?_, ?_, by rw [text]⟩
  · rw [text, List.cons_append, Lexer.scan, if_neg (by rw [visible]; exact Bool.false_ne_true), found]
    simp only [List.take_left, List.drop_left]
    cases Lexer.scan (p.after (g :: tail)) rest <;> rfl
  · rw [Shape.loose, text]
    rfl

/-- What follows a piece in a run stands behind it. -/
theorem before_follows {k : Shape} {ks : List Shape} {rest : Text} (stands : k.Stands)
    (follows : Follows k ks) (ceases : Ceases rest) : k.Before (joined ks ++ rest) := by
  cases ks with
  | nil => exact stands.before rest ceases
  | cons k' ks =>
    rw [joined, List.append_assoc]
    rcases follows.2.1 with gap | ⟨gap, joins⟩
    · rw [if_pos gap]
      refine stands.before _ fun g first => ?_
      cases first
      exact .inl rfl
    · have noGap : ¬ k'.gap = some true := by
        rw [gap]
        decide
      rw [if_neg noGap]
      exact joins _

/-- Behind a token of its first piece, the rest of a run is scanned as its pieces. -/
theorem scan_follows {k : Shape} {ks : List Shape} {rest : Text} (follows : Follows k ks)
    (ceases : Ceases rest) (p : Position) : ∃ ts p',
      (∀ last : Token, last.span.stop = p.offset → Fit last ts ks) ∧ (∀ t ∈ ts, t.kind ≠ .comment) ∧
      scan p (joined ks ++ rest) = (scan p' rest).map (ts ++ ·) := by
  induction ks generalizing k p with
  | nil =>
    refine ⟨[], p, fun _ _ => .nil, by simp, ?_⟩
    rw [joined, List.nil_append]
    cases scan p rest <;> rfl
  | cons k' ks ih =>
    obtain ⟨piece, joint, more⟩ := follows
    -- The gap only moves the place where the piece starts.
    obtain ⟨gap, q, isGap, start, skipped⟩ : ∃ gap q, k'.gap = some gap ∧
        q.offset = p.offset + (if gap then 1 else 0) ∧
        scan p (joined (k' :: ks) ++ rest) = scan q (k'.text ++ (joined ks ++ rest)) := by
      rw [joined, List.append_assoc]
      rcases joint with isGap | ⟨isGap, -⟩
      · refine ⟨true, p.step (.char ' '), isGap, rfl, ?_⟩
        rw [if_pos isGap, List.cons_append, scan]
        rfl
      · refine ⟨false, p, isGap, rfl, ?_⟩
        rw [isGap, if_neg (by decide)]
    obtain ⟨t, scanned, shape, span⟩ := (before_follows piece.stands more ceases).scan q
    obtain ⟨ts, p', fit, noComment, behind⟩ := ih more (q.after k'.text)
    refine ⟨t :: ts, p', fun last stop => .cons shape (fun g same => ?_) (fit t (by rw [span]; rfl)), ?_, ?_⟩
    · have same : gap = g := Option.some.inj (isGap.symm.trans same)
      have starts : t.span.start = q.offset := by rw [span]; rfl
      rw [Token.isApart, stop, starts, start, ← same]
      cases gap <;> simp
    · have kind : t.kind = k'.kind := congrArg Shape.kind shape
      exact List.forall_mem_cons.2 ⟨by rw [kind]; exact piece.stands.noComment, noComment⟩
    · rw [skipped, scanned, behind, map_append]
      rfl

/-- A run is scanned as its pieces where a tag or a hole follows. -/
theorem scan_run {k : Shape} {ks : List Shape} {rest : Text} (first : k.gap = none) (piece : k.IsPiece)
    (follows : Follows k ks) (ceases : Ceases rest) (p : Position) : ∃ ts p',
      (∀ last, Fit last ts (k :: ks)) ∧ (∀ t ∈ ts, t.kind ≠ .comment) ∧
      scan p (joined (k :: ks) ++ rest) = (scan p' rest).map (ts ++ ·) := by
  obtain ⟨t, scanned, shape, span⟩ := (before_follows piece.stands follows ceases).scan p
  obtain ⟨ts, p', fit, noComment, behind⟩ := scan_follows follows ceases (p.after k.text)
  refine ⟨t :: ts, p', fun last => .cons shape (fun g same => ?_) (fit t (by rw [span]; rfl)), ?_, ?_⟩
  · rw [first] at same
    cases same
  · have kind : t.kind = k.kind := congrArg Shape.kind shape
    exact List.forall_mem_cons.2 ⟨by rw [kind]; exact piece.stands.noComment, noComment⟩
  · rw [joined, first, if_neg (by decide), List.append_assoc, scanned, behind, map_append]
    rfl

theorem gapped_of_fit {k : Shape} {ks : List Shape} {last : Token} {ts : List Token}
    (follows : Follows k ks) (fit : Fit last ts ks) : Token.gapped last ts = ks := by
  induction ks generalizing k last ts with
  | nil =>
    cases fit
    rfl
  | cons k' ks ih =>
    obtain ⟨-, joint, more⟩ := follows
    cases fit with
    | cons shape apart rest =>
      obtain ⟨gap, isGap⟩ : ∃ gap, k'.gap = some gap :=
        joint.elim (fun isGap => ⟨true, isGap⟩) fun isGap => ⟨false, isGap.1⟩
      obtain ⟨kind, text, g⟩ := k'
      obtain ⟨sameKind, sameText, -⟩ := Shape.mk.inj shape
      rw [Token.gapped, ih more rest, apart gap isGap, sameKind, sameText, ← isGap]

/-- The pieces of a run are found again by scanning it. -/
theorem pieces_joined {k : Shape} {ks : List Shape} (first : k.gap = none) (piece : k.IsPiece)
    (follows : Follows k ks) : Text.pieces (joined (k :: ks)) = k :: ks := by
  have ceases : Ceases [] := fun g found => nomatch found
  obtain ⟨ts, p', fit, -, scanned⟩ := scan_run first piece follows ceases Position.start
  rw [List.append_nil, scan] at scanned
  have tokens : (joined (k :: ks)).tokens = .ok (ts ++ [endToken p']) := scanned
  cases fit default with
  | cons shape apart rest =>
    obtain ⟨kind, text, g⟩ := k
    obtain ⟨sameKind, sameText, -⟩ := Shape.mk.inj shape
    rw [List.cons_append] at tokens
    rw [Text.pieces, tokens]
    dsimp only
    rw [List.dropLast_concat, gapped_of_fit follows rest, shape, Shape.loose, ← first]

end ClassScript
