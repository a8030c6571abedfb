import ClassScript.Proofs.Outlines
import ClassScript.Proofs.Promises

/-!
What readers cover. The significant tokens of a text stand in a row (`Token.row_of_tokens`). A reader that has taken
tokens has laid out the outlines of what it read between the first of them and the last (`Spans`), and the mark of a
construct covers exactly what has been laid out since its first token (`builds_markFrom`).
-/

namespace ClassScript

/-! ## Tokens in a row -/

/-- Tokens that follow each other in a text of `length` bytes; the last of them is the end of the input. -/
structure Token.Row (tokens : List Token) (length : Nat) : Prop where
  ordered : tokens.Pairwise fun t u => t.span.stop ≤ u.span.start
  forward : ∀ t ∈ tokens, t.span.start ≤ t.span.stop
  filled : ∀ t ∈ tokens, t.kind ≠ .endOfInput → t.span.start < t.span.stop
  lined : ∀ t ∈ tokens, 0 < t.span.line
  ends : ∀ t ∈ tokens, t.span.stop ≤ length
  closed : ∀ t ∈ tokens, t.kind = .endOfInput → t.span.stop ≤ t.span.start
  inner : ∀ t ∈ tokens.dropLast, t.kind ≠ .endOfInput
  last : tokens.getLast?.map Token.kind = some .endOfInput

/-- Nothing lies behind the end of the input. -/
theorem Token.Row.stop_le {tokens : List Token} {length : Nat} (row : Token.Row tokens length) {t u : Token}
    (found : t ∈ tokens) (atEnd : t.kind = .endOfInput) (other : u ∈ tokens) : u.span.stop ≤ t.span.start := by
  rcases List.eq_nil_or_concat tokens with rfl | ⟨before, last, rfl⟩
  · cases found
  · rw [List.concat_eq_append] at row found other
    have inner := row.inner
    rw [List.dropLast_concat] at inner
    obtain rfl : t = last := by
      rcases List.mem_append.1 found with early | late
      · exact absurd atEnd (inner t early)
      · exact List.mem_singleton.1 late
    rcases List.mem_append.1 other with early | late
    · exact (List.pairwise_append.1 row.ordered).2.2 u early t List.mem_cons_self
    · rw [List.mem_singleton.1 late]
      exact row.closed t found atEnd

/-! ## Scanned tokens -/

namespace Lexer

theorem line_step (p : Position) (g : Glyph) : p.line ≤ (p.step g).line := by
  unfold Position.step
  split
  · exact Nat.le_succ _
  · exact Nat.le_refl _

theorem line_after (p : Position) (t : Text) : p.line ≤ (p.after t).line := by
  induction t generalizing p with
  | nil => exact Nat.le_refl _
  | cons g t ih => exact Nat.le_trans (line_step p g) (ih _)

/-- A token that was found is not the end of the input. -/
theorem Classified.inside {g : Glyph} {rest : Text} {kind : TokenKind} {n : Nat}
    (classified : Classified g rest kind n) : kind ≠ .endOfInput := by
  cases classified with
  | word => 
    rcases ofWord_cases (Text.shown (g :: rest.take (run isWordPart rest))) with ⟨kind, -⟩ | ⟨k, kind, -⟩ | kind <;>
      rw [kind] <;> nofun
  | _ => nofun

/-- Where the tokens of a text stand that starts at a position. -/
structure Stands (p : Position) (t : Text) (u : Token) : Prop where
  after : p.offset ≤ u.span.start
  before : u.span.stop ≤ p.offset + t.width
  forward : u.span.start ≤ u.span.stop
  filled : u.kind ≠ .endOfInput → u.span.start < u.span.stop
  closed : u.kind = .endOfInput → u.span.stop ≤ u.span.start
  lined : 0 < u.span.line

theorem Scanned.stands {p : Position} {t : Text} {tokens : List Token} (scanned : Scanned p t tokens)
    (lined : 0 < p.line) :
    (∀ u ∈ tokens, Stands p t u) ∧ tokens.Pairwise (fun u v => u.span.stop ≤ v.span.start) ∧
      ∃ (before : List Token) (last : Token), tokens = before ++ [last] ∧ last.kind = .endOfInput ∧
        ∀ u ∈ before, u.kind ≠ .endOfInput := by
  induction scanned with
  | @done p =>
    refine ⟨fun u found => ?_, List.pairwise_singleton _ _, [], endToken p, rfl, rfl, nofun⟩
    rw [List.mem_singleton.1 found]
    exact ⟨Nat.le_refl _, Nat.le_refl _, Nat.le_refl _, fun inside => absurd rfl inside, fun _ => Nat.le_refl _, lined⟩
  | @space p g rest tokens blank _ ih =>
    obtain ⟨stands, ordered, ends⟩ := ih (Nat.lt_of_lt_of_le lined (line_step p g))
    refine ⟨fun u found => ?_, ordered, ends⟩
    obtain ⟨after, before, forward, filled, closed, lined⟩ := stands u found
    rw [Position.offset_step] at after before
    exact ⟨by omega, by rw [Text.width]; omega, forward, filled, closed, lined⟩
  | @token p g tail rest kind tokens visible classified _ ih =>
    obtain ⟨stands, ordered, before, last, rfl, isEnd, inner⟩ :=
      ih (Nat.lt_of_lt_of_le lined (line_after p (g :: tail)))
    have stop : (p.after (g :: tail)).offset = p.offset + (g.width + Text.width tail) := Position.offset_after p (g :: tail)
    have wide := g.width_pos
    have whole : Text.width (g :: (tail ++ rest)) = g.width + (Text.width tail + Text.width rest) := by
      rw [Text.width, Text.width_append]
    refine ⟨List.forall_mem_cons.2 ⟨?_, fun u found => ?_⟩, List.pairwise_cons.2 ⟨fun u found => ?_, ordered⟩,
      _ :: before, last, rfl, isEnd, List.forall_mem_cons.2 ⟨classified.inside, inner⟩⟩
    · refine ⟨Nat.le_refl _, ?_, ?_, fun _ => ?_, fun isEnd => absurd isEnd classified.inside, lined⟩ <;>
        dsimp only [Span.between] <;> omega
    · obtain ⟨after, before, forward, filled, closed, lined⟩ := stands u found
      exact ⟨by omega, by omega, forward, filled, closed, lined⟩
    · exact (stands u found).after

end Lexer

theorem Token.significant_concat {before : List Token} {last : Token} (isEnd : last.kind = .endOfInput) :
    Token.significant (before ++ [last]) = before.filter (fun t => t.kind != .comment) ++ [last] := by
  have kept : (before ++ [last]).filter (fun t => t.kind != .comment) =
      before.filter (fun t => t.kind != .comment) ++ [last] := by
    rw [List.filter_append, List.filter_cons_of_pos (by rw [isEnd]; rfl), List.filter_nil]
  unfold Token.significant
  dsimp only
  rw [kept, List.getLast?_concat]
  dsimp only
  rw [isEnd]
  rfl

/-- The significant tokens of a text stand in a row. -/
theorem Token.row_of_tokens {source : Text} {tokens : List Token} (scanned : source.tokens = .ok tokens) :
    Token.Row (Token.significant tokens) source.width := by
  obtain ⟨stands, ordered, before, last, rfl, isEnd, inner⟩ :=
    (Lexer.scanned_of_scan scanned).stands (show 0 < Position.start.line by decide)
  rw [significant_concat isEnd]
  have fewer : (before.filter (fun t => t.kind != .comment) ++ [last]).Sublist (before ++ [last]) :=
    List.filter_sublist.append (.refl _)
  have found {t : Token} (t_mem : t ∈ before.filter (fun t => t.kind != .comment) ++ [last]) :
      Lexer.Stands Position.start source t := stands t (fewer.subset t_mem)
  refine ⟨ordered.sublist fewer, fun t h => (found h).forward, fun t h => (found h).filled, fun t h => (found h).lined,
    fun t h => ?_, fun t h => (found h).closed, fun t h => ?_, ?_⟩
  · have before := (found h).before
    have start : Position.start.offset = 0 := rfl
    omega
  · rw [List.dropLast_concat] at h
    exact inner t (List.mem_filter.1 h).1
  · rw [List.getLast?_concat, Option.map_some, isEnd]

namespace Cursor

/-- The token ahead. -/
def head (c : Cursor) : Token := c.ahead.headD c.last

/-- The tokens ahead are the last ones of a list. -/
structure On (tokens : List Token) (c : Cursor) : Prop where
  ahead : c.ahead ≠ []
  suffix : c.ahead <:+ tokens

/-- A cursor has taken tokens since it stood at another place. -/
structure Past (tokens : List Token) (s c : Cursor) : Prop where
  mem : c.last ∈ tokens
  after : s.head.span.start ≤ c.last.span.start
  reaches : s.head.span.stop ≤ c.last.span.stop
  before : c.last.span.stop ≤ c.head.span.start

/-- What has been laid out since a cursor stood at another place. If nothing is said to have been taken, it may still
stand there. -/
def Covers (tokens : List Token) (length : Nat) (moved : Bool) (s c : Cursor) (nodes : List Outline) : Prop :=
  (moved = false ∧ c = s ∧ nodes = []) ∨
    (Past tokens s c ∧ Outline.Laid tokens length s.head.span.start c.last.span.stop nodes)

variable {tokens : List Token} {length : Nat}

theorem On.head_mem {c : Cursor} (on : c.On tokens) : c.head ∈ tokens := by
  obtain ⟨last, ahead⟩ := c
  cases ahead with
  | nil => exact absurd rfl on.ahead
  | cons t rest => exact on.suffix.subset List.mem_cons_self

theorem Covers.weaken {moved : Bool} {s c : Cursor} {nodes : List Outline}
    (covers : Covers tokens length true s c nodes) : Covers tokens length moved s c nodes :=
  covers.imp (fun still => by simp at still) id

/-- What is read on is laid out behind. -/
theorem Covers.append {moved : Bool} {s c c' : Cursor} {nodes more : List Outline} (row : Token.Row tokens length)
    (first : Covers tokens length moved s c nodes) (second : Covers tokens length false c c' more) :
    Covers tokens length moved s c' (nodes ++ more) := by
  rcases second with ⟨-, rfl, rfl⟩ | ⟨past, laid⟩
  · rwa [List.append_nil]
  · rcases first with ⟨-, rfl, rfl⟩ | ⟨past', laid'⟩
    · exact .inr ⟨past, laid⟩
    · have forward := row.forward _ past'.mem
      have forward' := row.forward _ past.mem
      have start := past'.after
      have between := past'.before
      have stop := past.after
      have reach := past'.reaches
      exact .inr ⟨⟨past.mem, by omega, by omega, past.before⟩,
        laid'.append laid between (by omega) (by omega)⟩

/-- What was laid out stays when tokens are taken. -/
theorem Covers.step {moved : Bool} {s c c' : Cursor} {nodes : List Outline} (row : Token.Row tokens length)
    (first : Covers tokens length moved s c nodes) (past : Past tokens c c') : Covers tokens length true s c' nodes := by
  have further : Covers tokens length moved s c' (nodes ++ []) := first.append row (.inr ⟨past, .nil⟩)
  rw [List.append_nil] at further
  rcases further with ⟨-, rfl, -⟩ | past'
  · rcases first with ⟨-, rfl, rfl⟩ | ⟨past', laid⟩
    · exact .inr ⟨past, .nil⟩
    · have start := past'.after
      have forward := row.forward _ past'.mem
      have between := past'.before
      have stop := past.after
      have forward' := row.forward _ past.mem
      have reach := past'.reaches
      exact .inr ⟨⟨past.mem, by omega, by omega, past.before⟩, laid.mono (Nat.le_refl _) (by omega)⟩
  · exact .inr past'

/-- Something has been taken if something has been laid out. -/
theorem Covers.moved {moved : Bool} {s c : Cursor} {nodes : List Outline} (covers : Covers tokens length moved s c nodes)
    (some : nodes ≠ []) : Covers tokens length true s c nodes :=
  covers.imp (fun still => absurd still.2.2 some) id

/-- Nothing is laid out at the end of the input. -/
theorem Covers.inside {moved : Bool} {s c : Cursor} {nodes : List Outline} (row : Token.Row tokens length)
    (on : s.On tokens) (covers : Covers tokens length moved s c nodes) (some : nodes ≠ []) :
    s.head.kind ≠ .endOfInput := by
  intro atEnd
  obtain ⟨past, laid⟩ := (covers.moved some).resolve_left (by simp)
  obtain ⟨n, rest, rfl⟩ := List.exists_cons_of_ne_nil some
  obtain ⟨start, stop⟩ := laid.inside n List.mem_cons_self
  have last := row.stop_le on.head_mem atEnd past.mem
  cases laid.sound n List.mem_cons_self with
  | node _ filled =>
    simp only [Outline.span] at start stop
    omega

theorem Covers.perm {moved : Bool} {s c : Cursor} {nodes more : List Outline}
    (covers : Covers tokens length moved s c nodes) (same : nodes.Perm more) : Covers tokens length moved s c more :=
  covers.imp (fun still => ⟨still.1, still.2.1, (still.2.2 ▸ same).nil_eq.symm⟩) fun past => ⟨past.1, past.2.perm same⟩

end Cursor

/-! ## Rules -/

namespace Reader

variable {α β : Type} (tokens : List Token) (length : Nat)

/-- What is read is laid out between the first token that is taken and the last. -/
def Spans (x : Reader α) (φ : α → List Outline) : Prop :=
  ∀ c a c', c.On tokens → x c = .ok (a, c') → c'.On tokens ∧ Cursor.Covers tokens length false c c' (φ a)

/-- What is read from tokens of which `t` is the first. -/
def SpansAt (t : Token) (x : Reader α) (φ : α → List Outline) : Prop :=
  ∀ c a c', c.On tokens → c.head = t → x c = .ok (a, c') → c'.On tokens ∧ Cursor.Covers tokens length false c c' (φ a)

/-- What is laid out from `s` on, if `nodes` are laid out already. -/
def Builds (moved : Bool) (s : Cursor) (nodes : List Outline) (x : Reader α) (φ : α → List Outline) : Prop :=
  ∀ c a c', c.On tokens → Cursor.Covers tokens length moved s c nodes → x c = .ok (a, c') →
    c'.On tokens ∧ Cursor.Covers tokens length moved s c' (φ a)

/-- What is laid out from `s` on by tokens of which `t` is the first. -/
def BuildsAt (t : Token) (moved : Bool) (s : Cursor) (nodes : List Outline) (x : Reader α) (φ : α → List Outline) :
    Prop :=
  ∀ c a c', c.On tokens → c.head = t → Cursor.Covers tokens length moved s c nodes → x c = .ok (a, c') →
    c'.On tokens ∧ Cursor.Covers tokens length moved s c' (φ a)

variable {tokens length} {moved : Bool} {s : Cursor} {nodes : List Outline} {t : Token} {x : Reader α}
  {f : α → Reader β} {φ : α → List Outline} {ψ : β → List Outline}

theorem builds_bind (first : Builds tokens length moved s nodes x φ)
    (rest : ∀ a, Builds tokens length moved s (φ a) (f a) ψ) : Builds tokens length moved s nodes (x >>= f) ψ := by
  intro c b c' on covers run
  obtain ⟨a, mid, ran, run⟩ := bind_ok run
  obtain ⟨onMid, coversMid⟩ := first c a mid on covers ran
  exact rest a mid b c' onMid coversMid run

theorem builds_pure {a : α} (same : nodes.Perm (φ a)) : Builds tokens length moved s nodes (pure a) φ := by
  intro c a' c' on covers run
  cases run
  exact ⟨on, covers.perm same⟩

theorem builds_failAt {fault : SyntaxFault} : Builds tokens length moved s nodes (failAt fault t) φ := by
  intro c a c' on covers run
  cases run

theorem builds_failAt_bind {fault : SyntaxFault} : Builds tokens length moved s nodes (failAt fault t >>= f) ψ := by
  intro c a c' on covers run
  cases run

theorem Spans.builds (row : Token.Row tokens length) (spans : Spans tokens length x φ) :
    Builds tokens length moved s nodes x fun a => nodes ++ φ a := by
  intro c a c' on covers run
  obtain ⟨on', more⟩ := spans c a c' on run
  exact ⟨on', covers.append row more⟩

theorem spans_of_builds (builds : ∀ s, Builds tokens length false s [] x φ) : Spans tokens length x φ :=
  fun c a c' on run => builds c c a c' on (.inl ⟨rfl, rfl, rfl⟩) run

theorem spansAt_of_builds (builds : ∀ s, s.head = t → t ∈ tokens → Builds tokens length false s [] x φ) :
    SpansAt tokens length t x φ :=
  fun c a c' on here run => builds c here (here ▸ on.head_mem) c a c' on (.inl ⟨rfl, rfl, rfl⟩) run

theorem Spans.at (spans : Spans tokens length x φ) : SpansAt tokens length t x φ :=
  fun c a c' on _ run => spans c a c' on run

theorem spans_peek_bind {f : Token → Reader α} (rest : ∀ t, SpansAt tokens length t (f t) φ) :
    Spans tokens length (peek >>= f) φ := by
  intro c a c' on run
  exact rest c.head c a c' on rfl run

theorem spansAt_peek_bind {f : Token → Reader α} (rest : SpansAt tokens length t (f t) φ) :
    SpansAt tokens length t (peek >>= f) φ := by
  intro c a c' on here run
  have run : f c.head c = .ok (a, c') := run
  rw [here] at run
  exact rest c a c' on here run

/-- What is read behind a construct that starts with the token `t`. -/
theorem spansAt_bind (row : Token.Row tokens length) (first : SpansAt tokens length t x φ) (some : ∀ a, φ a ≠ [])
    (rest : ∀ a s, s.head = t → t ∈ tokens → t.kind ≠ .endOfInput → Builds tokens length true s (φ a) (f a) ψ) :
    SpansAt tokens length t (x >>= f) ψ := by
  intro c b c' on here run
  obtain ⟨a, mid, ran, run⟩ := bind_ok run
  obtain ⟨onMid, coversMid⟩ := first c a mid on here ran
  have inside := coversMid.inside row on (some a)
  rw [here] at inside
  obtain ⟨on', covers⟩ :=
    rest a c here (here ▸ on.head_mem) inside mid b c' onMid (coversMid.moved (some a)) run
  exact ⟨on', covers.weaken⟩

/-- The token ahead is taken, unless it is the last. -/
theorem next_past (row : Token.Row tokens length) {c c' : Cursor} (on : c.On tokens)
    (inside : c.head.kind ≠ .endOfInput) (run : next c = .ok (t, c')) :
    t = c.head ∧ c'.On tokens ∧ c'.last = t ∧ Cursor.Past tokens c c' := by
  obtain ⟨last, ahead⟩ := c
  match ahead with
  | [] => exact absurd rfl on.ahead
  | [u] =>
    have ends := row.last
    obtain ⟨before, rfl⟩ := on.suffix
    rw [List.getLast?_concat, Option.map_some] at ends
    exact absurd (Option.some.inj ends) inside
  | u :: v :: rest =>
    cases run
    have later : v ∈ tokens := on.suffix.subset (List.mem_cons_of_mem _ List.mem_cons_self)
    have ordered := row.ordered.sublist on.suffix.sublist
    have between : t.span.stop ≤ v.span.start := (List.pairwise_cons.1 ordered).1 v List.mem_cons_self
    exact ⟨rfl, ⟨nofun, (List.suffix_cons _ _).trans on.suffix⟩, rfl, on.head_mem, Nat.le_refl _, Nat.le_refl _, between⟩

/-- At the end of the input the token ahead stays ahead. -/
theorem next_still {c c' : Cursor} (row : Token.Row tokens length) (on : c.On tokens)
    (atEnd : c.head.kind = .endOfInput) (run : next c = .ok (t, c')) : t = c.head ∧ c'.head = c.head := by
  obtain ⟨last, ahead⟩ := c
  match ahead with
  | [] => exact absurd rfl on.ahead
  | [u] =>
    cases run
    exact ⟨rfl, rfl⟩
  | u :: v :: rest =>
    obtain ⟨before, rfl⟩ := on.suffix
    have inner : u ∈ (before ++ u :: v :: rest).dropLast := by
      rw [List.dropLast_append_of_ne_nil (by simp)]
      simp
    exact absurd atEnd (row.inner u inner)

/-- A token as a node. -/
theorem sound_leaf (row : Token.Row tokens length) (found : t ∈ tokens) (inside : t.kind ≠ .endOfInput) :
    (Outline.leaf t).Sound tokens length :=
  .node ⟨t, found, rfl, rfl, rfl⟩ (row.filled t found inside) (row.ends t found) nofun .nil nofun

/-- A construct starts with the token that is taken. -/
theorem spansAt_next_bind {f : Token → Reader α} (row : Token.Row tokens length) (inside : t.kind ≠ .endOfInput)
    (rest : ∀ s, s.head = t → t ∈ tokens → Builds tokens length true s [] (f t) φ) :
    SpansAt tokens length t (next >>= f) φ := by
  intro c a c' on here run
  obtain ⟨t', mid, taken, run⟩ := bind_ok run
  obtain ⟨rfl, onMid, -, past⟩ := next_past row on (here ▸ inside) taken
  rw [here] at run
  obtain ⟨on', covers⟩ := rest c here (here ▸ on.head_mem) mid a c' onMid (.inr ⟨past, .nil⟩) run
  exact ⟨on', covers.weaken⟩

theorem Builds.at (builds : Builds tokens length moved s nodes x φ) : BuildsAt tokens length t moved s nodes x φ :=
  fun c a c' on _ covers run => builds c a c' on covers run

theorem builds_peek_bind {f : Token → Reader α} (rest : ∀ t, BuildsAt tokens length t moved s nodes (f t) φ) :
    Builds tokens length moved s nodes (peek >>= f) φ := by
  intro c a c' on covers run
  exact rest c.head c a c' on rfl covers run

theorem builds_peekIs_bind {k : TokenKind} {f : Bool → Reader α}
    (rest : ∀ t, BuildsAt tokens length t moved s nodes (f (t.kind == k)) φ) :
    Builds tokens length moved s nodes (peekIs k >>= f) φ :=
  builds_peek_bind rest

/-- The token that was looked at is taken. -/
theorem buildsAt_next_bind {f : Token → Reader α} (row : Token.Row tokens length) (inside : t.kind ≠ .endOfInput)
    (rest : Builds tokens length true s nodes (f t) φ) : BuildsAt tokens length t moved s nodes (next >>= f) φ := by
  intro c a c' on here covers run
  obtain ⟨t', mid, taken, run⟩ := bind_ok run
  obtain ⟨rfl, onMid, -, past⟩ := next_past row on (here ▸ inside) taken
  rw [here] at run
  obtain ⟨on', covers'⟩ := rest mid a c' onMid (covers.step row past) run
  exact ⟨on', covers'.weaken⟩

/-- The token that was looked at is taken, as a node. -/
theorem buildsAt_next_leaf_bind {f : Token → Reader α} (row : Token.Row tokens length) (inside : t.kind ≠ .endOfInput)
    (rest : Builds tokens length true s (nodes ++ [Outline.leaf t]) (f t) φ) :
    BuildsAt tokens length t moved s nodes (next >>= f) φ := by
  intro c a c' on here covers run
  obtain ⟨t', mid, taken, run⟩ := bind_ok run
  obtain ⟨rfl, onMid, isLast, past⟩ := next_past row on (here ▸ inside) taken
  rw [here] at run
  have leaf := Outline.Laid.single (sound_leaf row on.head_mem (here ▸ inside)) (Nat.le_refl _)
    (Nat.le_of_eq (congrArg (·.span.stop) isLast.symm))
  have covers := (covers.append row (.inr ⟨past, leaf⟩)).moved (by simp)
  rw [here] at covers
  obtain ⟨on', covers'⟩ := rest mid a c' onMid covers run
  exact ⟨on', covers'.weaken⟩

/-- A token that is taken on the way; at the end of the input the reader fails. -/
theorem builds_next_bind {f : Token → Reader α} (row : Token.Row tokens length)
    (atEnd : ∀ c a c', c.On tokens → c.head.kind = .endOfInput → (next >>= f) c ≠ .ok (a, c'))
    (rest : ∀ t ∈ tokens, t.kind ≠ .endOfInput → Builds tokens length true s nodes (f t) φ) :
    Builds tokens length moved s nodes (next >>= f) φ := by
  intro c a c' on covers run
  by_cases inside : c.head.kind = .endOfInput
  · exact absurd run (atEnd c a c' on inside)
  · obtain ⟨t, mid, taken, run⟩ := bind_ok run
    obtain ⟨rfl, onMid, -, past⟩ := next_past row on inside taken
    obtain ⟨on', covers'⟩ := rest _ on.head_mem inside mid a c' onMid (covers.step row past) run
    exact ⟨on', covers'.weaken⟩

/-- A token that is not the last is taken behind what was read. -/
theorem builds_bind_next (row : Token.Row tokens length) (first : Builds tokens length moved s nodes x φ)
    (stops : ∀ {c a c'}, x c = .ok (a, c') → c'.head.kind ≠ .endOfInput)
    (rest : ∀ a, Builds tokens length true s (φ a) (f a) ψ) :
    Builds tokens length moved s nodes (x >>= fun a => next >>= fun _ => f a) ψ := by
  intro c b c' on covers run
  obtain ⟨a, mid, read, run⟩ := bind_ok run
  obtain ⟨onMid, coversMid⟩ := first c a mid on covers read
  obtain ⟨t, last, taken, run⟩ := bind_ok run
  obtain ⟨-, onLast, -, past⟩ := next_past row onMid (stops read) taken
  obtain ⟨on', covers'⟩ := rest a last b c' onLast (coversMid.step row past) run
  exact ⟨on', covers'.weaken⟩

theorem builds_perm {nodes' : List Outline} (same : nodes.Perm nodes')
    (rest : Builds tokens length moved s nodes' x φ) : Builds tokens length moved s nodes x φ :=
  fun c a c' on covers run => rest c a c' on (covers.perm same) run

/-- A token of a kind is taken on the way. -/
theorem builds_expect_bind {f : Token → Reader α} {k : TokenKind} (row : Token.Row tokens length)
    (inside : k ≠ .endOfInput)
    (rest : ∀ t ∈ tokens, t.kind = k → Builds tokens length true s nodes (f t) φ) :
    Builds tokens length moved s nodes (expect k >>= f) φ := by
  intro c a c' on covers run
  obtain ⟨t, mid, taken, run⟩ := bind_ok run
  obtain ⟨_, _, looked, taken⟩ := bind_ok taken
  cases looked
  split at taken
  · next found =>
    have kind : c.head.kind = k := beq_iff_eq.1 found
    obtain ⟨rfl, onMid, -, past⟩ := next_past row on (kind ▸ inside) taken
    obtain ⟨on', covers'⟩ := rest _ on.head_mem kind mid a c' onMid (covers.step row past) run
    exact ⟨on', covers'.weaken⟩
  · cases taken

/-- A construct starts with a token of a kind. -/
theorem spans_expect_bind {f : Token → Reader α} {k : TokenKind} (row : Token.Row tokens length)
    (inside : k ≠ .endOfInput)
    (rest : ∀ t s, s.head = t → t ∈ tokens → t.kind = k → Builds tokens length true s [] (f t) φ) :
    Spans tokens length (expect k >>= f) φ := by
  intro c a c' on run
  obtain ⟨t, mid, taken, run⟩ := bind_ok run
  obtain ⟨_, _, looked, taken⟩ := bind_ok taken
  cases looked
  split at taken
  · next found =>
    have kind : c.head.kind = k := beq_iff_eq.1 found
    obtain ⟨rfl, onMid, -, past⟩ := next_past row on (kind ▸ inside) taken
    obtain ⟨on', covers⟩ := rest _ c rfl on.head_mem kind mid a c' onMid (.inr ⟨past, .nil⟩) run
    exact ⟨on', covers.weaken⟩
  · cases taken

/-- A token of a kind is taken on the way, as a node. -/
theorem builds_expect_leaf_bind {f : Token → Reader α} {k : TokenKind} (row : Token.Row tokens length)
    (inside : k ≠ .endOfInput)
    (rest : ∀ t ∈ tokens, t.kind = k → Builds tokens length true s (nodes ++ [Outline.leaf t]) (f t) φ) :
    Builds tokens length moved s nodes (expect k >>= f) φ := by
  intro c a c' on covers run
  obtain ⟨t, mid, taken, run⟩ := bind_ok run
  obtain ⟨_, _, looked, taken⟩ := bind_ok taken
  cases looked
  split at taken
  · next found =>
    have kind : c.head.kind = k := beq_iff_eq.1 found
    obtain ⟨rfl, onMid, isLast, past⟩ := next_past row on (kind ▸ inside) taken
    have sound := sound_leaf row on.head_mem (kind ▸ inside)
    have leaf := Outline.Laid.single sound (Nat.le_refl _) (Nat.le_of_eq (congrArg (·.span.stop) isLast.symm))
    have covers := (covers.append row (.inr ⟨past, leaf⟩)).moved (by simp)
    obtain ⟨on', covers'⟩ := rest _ on.head_mem kind mid a c' onMid covers run
    exact ⟨on', covers'.weaken⟩
  · cases taken

/-- The first token of a construct is a node itself. -/
theorem builds_first_leaf (row : Token.Row tokens length) (first : s.head = t) (found : t ∈ tokens)
    (inside : t.kind ≠ .endOfInput) (rest : Builds tokens length true s [.leaf t] x φ) :
    Builds tokens length true s [] x φ := by
  intro c a c' on covers run
  obtain ⟨past, -⟩ := covers.resolve_left (by simp)
  subst first
  exact rest c a c' on (.inr ⟨past, .single (sound_leaf row found inside) (Nat.le_refl _) past.reaches⟩) run

/-- A node that has been laid out can be taken apart. -/
theorem builds_parts {span : Span} (rest : Builds tokens length true s nodes x φ) :
    Builds tokens length true s [.node span nodes] x φ :=
  fun c a c' on covers run =>
    rest c a c' on (covers.imp (fun still => by simp at still) fun past => ⟨past.1, past.2.parts⟩) run

theorem spans_peekIs_bind {k : TokenKind} {f : Bool → Reader α}
    (rest : ∀ t, SpansAt tokens length t (f (t.kind == k)) φ) : Spans tokens length (peekIs k >>= f) φ :=
  spans_peek_bind rest

theorem spans_pure {a : α} (none : φ a = []) : Spans tokens length (pure a) φ := by
  intro c a' c' on run
  cases run
  exact ⟨on, .inl ⟨rfl, rfl, none⟩⟩

theorem spans_get : Spans tokens length (get : Reader Cursor) fun _ => [] := by
  intro c a c' on run
  cases run
  exact ⟨on, .inl ⟨rfl, rfl, rfl⟩⟩

theorem spans_peek : Spans tokens length peek fun _ => [] := by
  intro c t c' on run
  cases run
  exact ⟨on, .inl ⟨rfl, rfl, rfl⟩⟩

theorem spans_peekIs (k : TokenKind) : Spans tokens length (peekIs k) fun _ => [] := by
  intro c found c' on run
  cases run
  exact ⟨on, .inl ⟨rfl, rfl, rfl⟩⟩

theorem spans_accept {k : TokenKind} (row : Token.Row tokens length) (inside : k ≠ .endOfInput) :
    Spans tokens length (accept k) fun _ => [] := by
  intro c found c' on run
  obtain ⟨_, _, looked, run⟩ := bind_ok run
  cases looked
  split at run
  · next same =>
    obtain ⟨t, mid, taken, run⟩ := bind_ok run
    obtain ⟨-, onMid, -, past⟩ := next_past row on (beq_iff_eq.1 same ▸ inside) taken
    cases run
    exact ⟨onMid, .inr ⟨past, .nil⟩⟩
  · cases run
    exact ⟨on, .inl ⟨rfl, rfl, rfl⟩⟩

/-- A construct covers what has been laid out since its first token. -/
theorem builds_spanFrom (row : Token.Row tokens length) (first : s.head = t) (found : t ∈ tokens)
    (inside : t.kind ≠ .endOfInput) :
    Builds tokens length true s nodes (spanFrom t) fun span => [.node span nodes] := by
  intro c span c' on covers run
  cases run
  obtain ⟨past, laid⟩ := covers.resolve_left (by simp)
  rw [first] at laid
  obtain ⟨mem, after, reaches, before⟩ := past
  rw [first] at after reaches
  have covered : t.span.cover c.last.span = ⟨t.span.start, c.last.span.stop, t.span.line, t.span.column⟩ := by
    have line := row.lined t found
    have line' := row.lined _ mem
    have here : t.span.isNone = false := by simp [Span.isNone]; omega
    have there : c.last.span.isNone = false := by simp [Span.isNone]; omega
    rw [Span.cover, here, there, Nat.max_eq_right reaches, if_neg (Nat.not_lt.2 after)]
    rfl
  rw [covered]
  have filled := row.filled t found inside
  have sound : (Outline.node ⟨t.span.start, c.last.span.stop, t.span.line, t.span.column⟩ nodes).Sound tokens length :=
    .node ⟨t, found, rfl, rfl, rfl⟩ (Nat.lt_of_lt_of_le filled reaches) (row.ends _ mem) laid.inside laid.apart
      laid.sound
  refine ⟨on, .inr ⟨⟨mem, first ▸ after, first ▸ reaches, before⟩, ?_⟩⟩
  exact .single sound (Nat.le_of_eq (congrArg (·.span.start) first)) (Nat.le_refl _)

/-- The mark of a construct covers what has been laid out since its first token. -/
theorem builds_markFrom {head : Token} (row : Token.Row tokens length) (first : s.head = t) (found : t ∈ tokens)
    (inside : t.kind ≠ .endOfInput) :
    Builds tokens length true s nodes (markFrom head t) fun m => [.node m.span nodes] :=
  builds_bind (builds_spanFrom row first found inside) fun _ => builds_pure (.refl _)

theorem spans_commaRest {p : Reader α} {ω : α → Outline} (row : Token.Row tokens length)
    (item : Spans tokens length p fun a => [ω a]) (fuel : Nat) :
    Spans tokens length (commaRest p fuel) fun items => items.map ω := by
  induction fuel with
  | zero => exact spans_pure rfl
  | succ fuel ih =>
    refine spans_of_builds fun s => builds_bind ((spans_accept row (by decide)).builds row) fun found => ?_
    split
    · refine builds_bind (item.builds row) fun a => builds_bind (ih.builds row) fun more => ?_
      exact builds_pure (.refl _)
    · exact builds_pure (.refl _)

theorem spans_commaList {p : Reader α} {ω : α → Outline} (row : Token.Row tokens length)
    (item : Spans tokens length p fun a => [ω a]) : Spans tokens length (commaList p) fun items => items.map ω := by
  refine spans_of_builds fun s => builds_bind (item.builds row) fun a => ?_
  refine builds_bind (spans_get.builds row) fun _ => ?_
  refine builds_bind ((spans_commaRest row item _).builds row) fun more => ?_
  exact builds_pure (.refl _)

theorem spans_untilRest {p : Reader α} {ω : α → Outline} (row : Token.Row tokens length) (stop : TokenKind)
    (item : Spans tokens length p fun a => [ω a]) (fuel : Nat) :
    Spans tokens length (untilRest stop p fuel) fun items => items.map ω := by
  induction fuel with
  | zero => exact spans_of_builds fun s => builds_bind (spans_peek.builds row) fun t => builds_failAt
  | succ fuel ih =>
    refine spans_of_builds fun s => builds_bind (spans_peek.builds row) fun t => ?_
    split
    · exact builds_pure (.refl _)
    · split
      · exact builds_failAt
      · refine builds_bind (item.builds row) fun a => builds_bind (ih.builds row) fun more => ?_
        exact builds_pure (.refl _)

theorem untilRest_stops {p : Reader α} {stop : TokenKind} {fuel : Nat} {c c' : Cursor} {items : List α}
    (run : untilRest stop p fuel c = .ok (items, c')) : c'.head.kind = stop := by
  induction fuel generalizing c items with
  | zero => cases run
  | succ fuel ih =>
    obtain ⟨_, _, looked, run⟩ := bind_ok run
    cases looked
    split at run
    · next found =>
      cases run
      exact beq_iff_eq.1 found
    · split at run
      · cases run
      · obtain ⟨a, mid, -, run⟩ := bind_ok run
        obtain ⟨more, last, read, run⟩ := bind_ok run
        cases run
        exact ih read

theorem spans_untilToken {p : Reader α} {ω : α → Outline} {stop : TokenKind} (row : Token.Row tokens length)
    (inside : stop ≠ .endOfInput) (item : Spans tokens length p fun a => [ω a]) :
    Spans tokens length (untilToken stop p) fun items => items.map ω := by
  refine spans_of_builds fun s => builds_bind (spans_get.builds row) fun _ => ?_
  refine builds_bind_next row ((spans_untilRest row stop item _).builds row) (fun read => ?_) fun _ =>
    builds_pure (.refl _)
  rw [untilRest_stops read]
  exact inside

end Reader

end ClassScript
