import ClassScript.Proofs.FailingTokens

/-!
The line and the underline of a failure. The line that is shown is the one around the start of the span, without the
carriage returns at its end (`Text.lines_around`), and there is a mark for every byte of the span on it
(`markCount_eq`). Columns count characters, so the underline fits the span exactly where bytes and characters agree:
in what is marked, and up to the last tab in front of it (`padding_eq_blanks_iff`). Put together they say when the
underline of a failure of scanning or reading marks its span (`Diagnostic.underline_marks_span`).
-/

namespace ClassScript

namespace Text

/-! ## Lines -/

/-- A text up to its first line feed. -/
def firstLine (t : Text) : Text := t.takeWhile fun g => !g.is '\n'

theorem lines_head (t : Text) : ∃ more, t.lines = t.firstLine :: more := by
  unfold lines firstLine
  induction t with
  | nil => exact ⟨[], rfl⟩
  | cons g t ih =>
    obtain ⟨more, split⟩ := ih
    cases feed : g.is '\n' with
    | true => exact ⟨splitOn '\n' t, by simp [splitOn, feed]⟩
    | false => exact ⟨more, by simp [splitOn, feed, split]⟩

/-- A line feed parts the lines in front of it from those behind. -/
theorem lines_append (s t : Text) : lines (s ++ .char '\n' :: t) = lines s ++ lines t := splitOn_append '\n' s t

theorem length_lines (t : Text) : (lines t).length = t.countP (Glyph.is '\n') + 1 := length_splitOn '\n' t

/-- The lines of a text, each with a line feed, take one byte more than the text. -/
theorem offsetAfter_lines (t : Text) : Diagnostic.offsetAfter (lines t) = t.width + 1 := by
  have grows (ls : List Text) (n : Nat) :
      ls.foldl (fun offset l => offset + l.width + 1) n = n + Diagnostic.offsetAfter ls := by
    unfold Diagnostic.offsetAfter
    induction ls generalizing n with
    | nil => rfl
    | cons l ls ih =>
      rw [List.foldl_cons, List.foldl_cons, ih, ih (0 + l.width + 1)]
      omega
  have cons (l : Text) (ls : List Text) : Diagnostic.offsetAfter (l :: ls) = l.width + 1 + Diagnostic.offsetAfter ls := by
    rw [← Nat.zero_add l.width, ← grows]
    rfl
  unfold lines
  induction t with
  | nil => rfl
  | cons g t ih =>
    rw [splitOn]
    cases feed : g.is '\n' with
    | true =>
      rw [if_pos rfl, cons, ih, Lexer.is_eq feed]
      change 0 + 1 + (width t + 1) = 1 + width t + 1
      omega
    | false =>
      rw [if_neg (by simp), width]
      cases split : splitOn '\n' t with
      | nil => exact absurd split (splitOn_ne_nil '\n' t)
      | cons l more =>
        rw [split, cons] at ih
        change Diagnostic.offsetAfter ((g :: l) :: more) = _
        rw [cons, width]
        omega

/-- The last line of a text is all of it, or stands behind a line feed. -/
theorem exists_lastLine (t : Text) : (∀ g ∈ t.lastLine, g.is '\n' = false) ∧
    (t = t.lastLine ∨ ∃ earlier, t = earlier ++ .char '\n' :: t.lastLine) := by
  induction t using List.reverseRecOn with
  | nil => exact ⟨nofun, .inl rfl⟩
  | append_singleton t g ih =>
    obtain ⟨inside, split⟩ := ih
    rw [lastLine_concat]
    cases feed : g.is '\n' with
    | true => exact ⟨nofun, .inr ⟨t, by rw [if_pos rfl, Lexer.is_eq feed]⟩⟩
    | false =>
      rw [if_neg (by simp)]
      refine ⟨fun h member => ?_, split.imp (congrArg (· ++ [g])) fun ⟨earlier, whole⟩ => ⟨earlier, ?_⟩⟩
      · rcases List.mem_append.1 member with within | last
        · exact inside h within
        · rwa [List.mem_singleton.1 last]
      · rw [← List.cons_append, ← List.append_assoc, ← whole]

/-- Around a place stands its line: what is behind the last line feed in front of it, and up to the next one. The lines
before it take the bytes in front of that. -/
theorem lines_around (before behind : Text) :
    (lines (before ++ behind))[(Position.start.after before).line - 1]? = some (before.lastLine ++ behind.firstLine) ∧
      Diagnostic.offsetAfter ((lines (before ++ behind)).take ((Position.start.after before).line - 1)) + before.lastLine.width =
        before.width := by
  obtain ⟨inside, split⟩ := exists_lastLine before
  rw [(Position.after_start before).1, Nat.add_sub_cancel]
  have onLine : firstLine (before.lastLine ++ behind) = before.lastLine ++ behind.firstLine :=
    List.takeWhile_append_of_pos fun g member => by rw [inside g member]; rfl
  have none : before.lastLine.countP (Glyph.is '\n') = 0 :=
    List.countP_eq_zero.2 fun g member => by rw [inside g member]; simp
  obtain ⟨more, first⟩ := lines_head (before.lastLine ++ behind)
  rcases split with all | ⟨earlier, whole⟩
  · have same : before ++ behind = before.lastLine ++ behind := congrArg (· ++ behind) all
    rw [same, first, onLine, congrArg (List.countP (Glyph.is '\n')) all, none, congrArg width all]
    exact ⟨rfl, Nat.zero_add _⟩
  · have feeds : before.countP (Glyph.is '\n') = (lines earlier).length := by
      rw [length_lines, congrArg (List.countP (Glyph.is '\n')) whole, List.countP_append, List.countP_cons_of_pos rfl, none]
    have split : lines (before ++ behind) = lines earlier ++ lines (before.lastLine ++ behind) := by
      rw [← lines_append, ← List.cons_append, ← List.append_assoc, ← whole]
    rw [feeds, split, List.take_left, List.getElem?_append_right (Nat.le_refl _), Nat.sub_self, first, onLine,
      offsetAfter_lines]
    refine ⟨rfl, ?_⟩
    rw [congrArg width whole, width_append, width]
    exact Nat.add_assoc _ _ _

/-! ## Widths -/

theorem width_le_of_front {s t : Text} (front : s <+: t) : s.width ≤ t.width := by
  obtain ⟨behind, rfl⟩ := front
  rw [width_append]
  exact Nat.le_add_right _ _

theorem trimReturns_front (t : Text) : t.trimReturns <+: t := by
  rw [← List.reverse_suffix, trimReturns, List.reverse_reverse]
  exact List.dropWhile_suffix _

end Text

namespace Glyph

/-- Whether a glyph takes one byte. -/
def isNarrow (g : Glyph) : Bool := g.width == 1

/-- The byte in the row below a glyph: a tab below a tab. -/
def blank (g : Glyph) : UInt8 := if g.is '\t' then 0x09 else 0x20

end Glyph

namespace Text

theorem length_le_width (t : Text) : t.length ≤ t.width := by
  induction t with
  | nil => exact Nat.le_refl _
  | cons g t ih =>
    have := g.width_pos
    rw [List.length_cons, width]
    omega

theorem width_eq_length_iff {t : Text} : t.width = t.length ↔ ∀ g ∈ t, g.isNarrow = true := by
  induction t with
  | nil => simp [width]
  | cons g t ih =>
    have := g.width_pos
    have := length_le_width t
    rw [List.forall_mem_cons, ← ih, width, List.length_cons, Glyph.isNarrow, beq_iff_eq]
    omega

theorem max_width_iff {t : Text} : max 1 t.width = max 1 t.length ↔ ∀ g ∈ t, g.isNarrow = true := by
  rw [← width_eq_length_iff]
  have := length_le_width t
  cases t with
  | nil => exact iff_of_true rfl rfl
  | cons g t =>
    rw [List.length_cons] at *
    omega

/-! ## Marks -/

/-- There is a mark for each byte of the span on the line that is shown, and at least one. The span may go on behind the
line, or start behind it. -/
theorem markCount_eq {front spanned behind line : Text} (span : Span) {lineStart : Nat}
    (shown : line <+: front ++ firstLine (spanned ++ behind)) (start : span.start = lineStart + front.width)
    (stop : span.stop = lineStart + front.width + spanned.width) :
    Diagnostic.markCount span line lineStart = max 1 (width ((line.drop front.length).take spanned.length)) := by
  have inLine : spanned.width = span.stop - span.start := by omega
  have ahead : span.start - lineStart = front.width := by omega
  unfold Diagnostic.markCount
  dsimp only
  rw [← inLine, ahead, decide_eq_true (show span.start ≥ lineStart by omega), Bool.true_and, Nat.max_comm]
  simp only [decide_eq_true_eq]
  congr 1
  rcases List.prefix_or_prefix_of_prefix shown (List.prefix_append front _) with cut | ⟨rest, rfl⟩
  · -- the line ends in front of the span
    have narrower := width_le_of_front cut
    rw [List.drop_eq_nil_of_le cut.length_le, List.take_nil, width]
    split <;> omega
  · have follows : rest <+: spanned ++ behind :=
      ((List.prefix_append_right_inj front).1 shown).trans (List.takeWhile_prefix _)
    rw [List.drop_left, width_append]
    rcases List.prefix_or_prefix_of_prefix follows (List.prefix_append spanned behind) with inside | ⟨more, rfl⟩
    · -- the span goes on behind the line
      have narrower := width_le_of_front inside
      rw [List.take_of_length_le inside.length_le]
      split <;> omega
    · rw [List.take_left, width_append, if_neg (by omega)]

/-! ## Blanks -/

/-- The row below a text: a tab below each tab, and else blanks. -/
def blanks (t : Text) : Bytes := t.map Glyph.blank

/-- The byte in the row below a byte. -/
def byteBlank (b : UInt8) : UInt8 := if b == 0x09 then 0x09 else 0x20

theorem bytes_of_isNarrow {g : Glyph} (large : ∀ b, g = .stray b → ¬ b < 0x80) (narrow : g.isNarrow = true) :
    ∃ b, g.bytes = [b] ∧ byteBlank b = g.blank := by
  obtain ⟨b, one⟩ := List.length_eq_one_iff.1 (g.length_bytes.trans (beq_iff_eq.1 narrow))
  refine ⟨b, one, ?_⟩
  rw [byteBlank, Glyph.blank]
  rcases ascii_bytes (a := '\t') rfl large with ⟨isTab, bytes⟩ | ⟨other, bytes⟩
  · rw [isTab]
    rw [one] at bytes
    rw [(List.cons.inj bytes).1]
    rfl
  · have : b ≠ 9 := bytes b (one ▸ List.mem_cons_self)
    rw [other, beq_eq_false_iff_ne.2 this]

/-- Where no glyph is a tab, neither is a byte. -/
theorem byteBlank_of_noTab {t : Text} (large : ∀ b, .stray b ∈ t → ¬ b < 0x80) (noTab : ∀ g ∈ t, g.is '\t' = false) :
    ∀ b ∈ t.bytes, byteBlank b = 0x20 := by
  intro b member
  obtain ⟨g, inside, within⟩ := List.mem_flatMap.1 member
  rcases ascii_bytes (a := '\t') rfl (g := g) fun b same => large b (same ▸ inside) with ⟨isTab, -⟩ | ⟨-, bytes⟩
  · rw [noTab g inside] at isTab
    cases isTab
  · exact if_neg (by simpa using bytes b within)

/-- The bytes at the start of a text are blanked as its glyphs are, exactly if no tab stands behind a wide glyph. -/
theorem take_byteBlank_iff {t : Text} (large : ∀ b, .stray b ∈ t → ¬ b < 0x80) :
    (t.bytes.take t.length).map byteBlank = t.map Glyph.blank ↔
      ∀ g ∈ t.dropWhile Glyph.isNarrow, g.is '\t' = false := by
  induction t with
  | nil => simp [bytes]
  | cons g t ih =>
    have large' : ∀ b, .stray b ∈ t → ¬ b < 0x80 := fun b found => large b (List.mem_cons_of_mem g found)
    cases narrow : g.isNarrow with
    | true =>
      obtain ⟨b, one, same⟩ := bytes_of_isNarrow (fun b same => large b (same ▸ List.mem_cons_self)) narrow
      rw [bytes_cons, one, List.dropWhile_cons_of_pos narrow, ← ih large', List.length_cons, List.singleton_append,
        List.take_succ_cons, List.map_cons, List.map_cons, same, List.cons_inj_right]
    | false =>
      rw [List.dropWhile_cons_of_neg (by simp [narrow])]
      constructor
      · intro same
        by_contra tabbed
        -- the glyphs in front of the first tab have more bytes than there are of them
        simp only [not_forall, Bool.not_eq_false] at tabbed
        obtain ⟨h, member, isTab⟩ := tabbed
        obtain ⟨h, first⟩ := Option.isSome_iff_exists.1 (List.find?_isSome.2 ⟨h, member, isTab⟩)
        obtain ⟨isTab, before, behind, split, others⟩ := List.find?_eq_some_iff_append.1 first
        have noTab : ∀ g ∈ before, g.is '\t' = false := fun g member => by simpa using others g member
        have wide : before.length < width before := by
          cases before with
          | nil =>
            rw [(List.cons.inj split).1, Lexer.is_eq isTab] at narrow
            cases narrow
          | cons g' before =>
            have isWide : ¬ g'.isNarrow = true := by rw [← (List.cons.inj split).1, narrow]; simp
            refine Nat.lt_of_le_of_ne (length_le_width _) fun same => isWide ?_
            exact width_eq_length_iff.1 same.symm g' List.mem_cons_self
        have inBytes : before.length < (bytes before).length := by rwa [length_bytes]
        have here := congrArg (fun row => row[before.length]?) same
        rw [split, List.map_append, List.map_cons, List.getElem?_append_right (by simp), List.length_map, Nat.sub_self,
          List.getElem?_cons_zero, List.getElem?_map, List.getElem?_take_of_lt (by simp), bytes_append,
          List.getElem?_append_left inBytes, List.getElem?_eq_getElem inBytes, Option.map_some, Option.some_inj,
          byteBlank_of_noTab (fun b found => large b (split ▸ List.mem_append_left _ found)) noTab _
            (List.getElem_mem inBytes), Glyph.blank, if_pos isTab] at here
        cases here
      · intro noTab
        have blank : ∀ h ∈ g :: t, h.blank = 0x20 := fun h member => if_neg (by simp [noTab h member])
        have enough := length_le_width (g :: t)
        rw [List.map_congr_left fun b member => byteBlank_of_noTab large noTab b (List.mem_of_mem_take member),
          List.map_congr_left blank, List.map_const', List.map_const', List.length_take, length_bytes,
          Nat.min_eq_left enough]

theorem bytes_front {s t : Text} (front : s <+: t) : s.bytes <+: t.bytes := by
  obtain ⟨behind, rfl⟩ := front
  rw [bytes_append]
  exact List.prefix_append _ _

/-- The blanks below a line fit the text in front of the span, exactly if it has no more characters than the line has
bytes, and no tab behind a wide character. -/
theorem padding_eq_blanks_iff {front line raw : Text} (large : ∀ b, .stray b ∈ front → ¬ b < 0x80) (shown : line <+: raw)
    (inFront : front <+: raw) :
    Diagnostic.padding line front.length = front.blanks ↔
      front.length ≤ line.width ∧ ∀ g ∈ front.dropWhile Glyph.isNarrow, g.is '\t' = false := by
  rw [← take_byteBlank_iff large]
  have same : Diagnostic.padding line front.length = (line.bytes.take front.length).map byteBlank := rfl
  rw [same, blanks]
  have enough := length_le_width front
  rw [← length_bytes] at enough ⊢
  have alike (short : front.length ≤ line.bytes.length) :
      line.bytes.take front.length = front.bytes.take front.length := by
    rw [List.prefix_iff_eq_take.1 (bytes_front shown), List.prefix_iff_eq_take.1 (bytes_front inFront), List.take_take,
      List.take_take, Nat.min_eq_left short, Nat.min_eq_left enough]
  constructor
  · intro fits
    have length := congrArg List.length fits
    rw [List.length_map, List.length_map, List.length_take] at length
    have short : front.length ≤ line.bytes.length := by omega
    exact ⟨short, alike short ▸ fits⟩
  · rintro ⟨short, fits⟩
    rwa [alike short]

end Text

/-! ## Parts of a source -/

namespace Span

variable {s : Span} {source : Bytes} {before spanned behind : Text}

/-- The characters in front of the span on the line where it starts. -/
def leftOf (s : Span) (source : Bytes) : Text := Bytes.text ((source.take s.start).rtakeWhile (· != 0x0A))

/-- The characters of the span on that line, as it is shown. -/
def marked (s : Span) (source : Bytes) (line : Text) : Text :=
  (line.drop (s.leftOf source).length).take (Bytes.text (s.excerpt source)).length

theorem Parts.start (parts : s.Parts source.text before spanned behind) : s.start = before.width := by
  rw [parts.2]
  exact (Position.offset_after _ _).trans (Nat.zero_add _)

theorem Parts.stop (parts : s.Parts source.text before spanned behind) : s.stop = before.width + spanned.width := by
  rw [parts.2, ← Text.width_append]
  exact (Position.offset_after _ _).trans (Nat.zero_add _)

theorem Parts.settled (parts : s.Parts source.text before spanned behind) :
    before.Settled ∧ before.lastLine.Settled ∧ spanned.Settled := by
  have whole : Text.Settled (before ++ (spanned ++ behind)) := parts.1 ▸ Text.settled_ofBytes source
  have front := Text.settled_take whole
  exact ⟨front, front.lastLine, Text.settled_take (Text.settled_drop whole)⟩

theorem Parts.leftOf (parts : s.Parts source.text before spanned behind) : s.leftOf source = before.lastLine := by
  have bytes : source = before.bytes ++ Text.bytes (spanned ++ behind) := by
    rw [← Text.bytes_append, ← parts.1, Bytes.bytes_text]
  obtain ⟨settled, onLine, -⟩ := parts.settled
  rw [Span.leftOf, parts.start, ← Text.length_bytes, bytes, List.take_left,
    (Text.newlines_bytes settled.stray_large).2, Bytes.text, onLine]

theorem Parts.excerpt (parts : s.Parts source.text before spanned behind) : Bytes.text (s.excerpt source) = spanned := by
  have bytes : source = before.bytes ++ (spanned.bytes ++ behind.bytes) := by
    rw [← Text.bytes_append, ← Text.bytes_append, ← parts.1, Bytes.bytes_text]
  rw [Span.excerpt, parts.stop, parts.start, Nat.add_sub_cancel_left, ← Text.length_bytes, ← Text.length_bytes, bytes,
    List.drop_left, List.take_left, Bytes.text, parts.settled.2.2]

end Span

namespace Diagnostic

variable {d : Diagnostic} {source : Bytes} {before spanned behind : Text}

/-- The diagnostic with a line, and marks below it behind the characters in front of the span. -/
def underlined (d : Diagnostic) (line front : Text) (count : Nat) : Bytes :=
  d.placed ++ "\n" ++ line.bytes ++ "\n" ++ front.blanks ++ marks count

/-- What is shown of a part of a source: its line, the blanks of as many bytes as there are characters in front of it, and
a mark for each byte of it on the line. -/
theorem format_of_parts (parts : d.span.Parts source.text before spanned behind) :
    ∃ line raw, source.text.lines[d.span.line - 1]? = some raw ∧ line = raw.trimReturns ∧ before.lastLine <+: raw ∧
      d.rendered source.text = d.placed ++ "\n" ++ line.bytes ++ "\n" ++ padding line before.lastLine.length ++
        marks (max 1 (d.span.marked source line).width) := by
  obtain ⟨shown, offset⟩ := Text.lines_around before (spanned ++ behind)
  obtain ⟨line, column⟩ := Position.after_start before
  have onLine : d.span.line = (Position.start.after before).line := by rw [parts.2]; rfl
  have inColumn : d.span.column = before.lastLine.length + 1 := by rw [parts.2]; exact column
  rw [← onLine, ← parts.1] at shown offset
  refine ⟨_, _, shown, rfl, List.prefix_append _ _, ?_⟩
  have lined : (d.span.line == 0) = false := by rw [onLine, line]; rfl
  have count := Text.markCount_eq d.span
    (Text.trimReturns_front (before.lastLine ++ Text.firstLine (spanned ++ behind)))
    (by rw [offset]; exact parts.start) (by rw [offset]; exact parts.stop)
  rw [Span.marked, parts.leftOf, parts.excerpt, ← count]
  unfold rendered sourceLine
  simp only [lined, shown, inColumn]
  rfl

/-- Blanks and the marks behind them are told apart. -/
theorem append_marks_iff (front : Bytes) {p q : Bytes} (blank : 0x5E ∉ p) (blank' : 0x5E ∉ q) (m n : Nat) :
    front ++ p ++ marks m = front ++ q ++ marks n ↔ p = q ∧ m = n := by
  have behind {p : Bytes} (blank : 0x5E ∉ p) (n : Nat) : (p ++ marks n).takeWhile (· != 0x5E) = p := by
    rw [List.takeWhile_append_of_pos fun c member => bne_iff_ne.2 (ne_of_mem_of_not_mem member blank), marks]
    cases n <;> simp [List.replicate_succ]
  rw [List.append_assoc, List.append_assoc, List.append_right_inj]
  constructor
  · intro same
    have blanks := congrArg (List.takeWhile (· != 0x5E)) same
    rw [behind blank, behind blank'] at blanks
    subst blanks
    exact ⟨rfl, by simpa [marks] using congrArg List.length same⟩
  · rintro ⟨rfl, rfl⟩
    rfl

theorem noMark_of_blanked {α : Type} (isTab : α → Bool) (items : List α) :
    (0x5E : UInt8) ∉ items.map fun a => if isTab a then 0x09 else 0x20 := by
  intro found
  obtain ⟨a, -, same⟩ := List.mem_map.1 found
  cases h : isTab a <;> simp [h] at same

/-- The underline of a failure of scanning or reading is the one of its span exactly if there are no more characters in
front of the span than bytes on the line, none of them that is wider than a byte is followed by a tab in front of the
span, and what is marked has no character wider than a byte. -/
theorem underline_marks_span {file : String}
    (failed : Token.ofSource file source.text = .error d ∨ Program.ofSource file source.text = .error d) :
    ∃ line, (source.text.lines[d.span.line - 1]?).map Text.trimReturns = some line ∧ 0 < d.span.line ∧
      d.span.column = (d.span.leftOf source).length + 1 ∧
      (d.rendered source.text = d.underlined line (d.span.leftOf source) (max 1 (d.span.marked source line).length) ↔
        (d.span.leftOf source).length ≤ line.width ∧
          (∀ g ∈ (d.span.leftOf source).dropWhile Glyph.isNarrow, g.is '\t' = false) ∧
          ∀ g ∈ d.span.marked source line, g.isNarrow = true) := by
  obtain ⟨before, spanned, behind, parts⟩ :
      ∃ before spanned behind, d.span.Parts source.text before spanned behind :=
    failed.elim Token.ofSource_fails Program.ofSource_fails
  obtain ⟨line, raw, shown, rfl, inFront, formatted⟩ := format_of_parts parts
  obtain ⟨onLine, inColumn⟩ := Position.after_start before
  have lined : d.span.line = before.countP (Glyph.is '\n') + 1 := by rw [parts.2]; exact onLine
  refine ⟨raw.trimReturns, by rw [shown]; rfl, lined ▸ Nat.succ_pos _, ?_, ?_⟩
  · rw [parts.leftOf, parts.2]
    exact inColumn
  · have told := append_marks_iff (d.placed ++ "\n" ++ raw.trimReturns.bytes ++ "\n")
      (noMark_of_blanked (fun b : UInt8 => b == 0x09) (raw.trimReturns.bytes.take before.lastLine.length))
      (noMark_of_blanked (Glyph.is '\t') before.lastLine)
      (max 1 (d.span.marked source raw.trimReturns).width) (max 1 (d.span.marked source raw.trimReturns).length)
    rw [parts.leftOf, formatted, ← and_assoc, ← Text.max_width_iff,
      ← Text.padding_eq_blanks_iff parts.settled.2.1.stray_large (Text.trimReturns_front raw) inFront]
    exact told

/-- The failure that reading a source ends with. -/
def ofReading? (file : String) (source : Bytes) : Option Diagnostic :=
  match Program.ofSource file source.text with
  | .error d => some d
  | .ok _ => none

theorem failed_of_ofReading? {file : String} (failure : ofReading? file source = some d) :
    Program.ofSource file source.text = .error d := by
  unfold ofReading? at failure
  split at failure
  · next failed => rw [failed, Option.some.inj failure]
  · cases failure

/-- A string over two lines where a parenthesis should close. In front of it stand a tab, and then a wide character. -/
def brokenCall : Bytes := Bytes.ofString "// é\r\n\tf(\"é\", x \"two\r\nlines\")"

theorem brokenCall_is_underlined : ∃ d, Program.ofSource "main.clasp" brokenCall.text = .error d ∧
    d.span = ⟨18, 30, 2, 11⟩ ∧
    d.rendered brokenCall.text = "[ParserError] expected ), got \"\\\"two\\r\\nlines\\\"\"\nat main.clasp:2:11\n" ++
      "\tf(\"é\", x \"two\n" ++ "\t         ^^^^" := by
  have failure : ofReading? "main.clasp" brokenCall = some
      ⟨.syntactic, "P001", "expected ), got \"\\\"two\\r\\nlines\\\"\"", ⟨18, 30, 2, 11⟩, "main.clasp"⟩ := by decide +kernel
  have failed := failed_of_ofReading? failure
  obtain ⟨line, shown, -, -, fits⟩ := underline_marks_span (.inr failed)
  have isLine : (brokenCall.text.lines[1]?).map Text.trimReturns = some ("\tf(\"é\", x \"two" : Text) := by decide +kernel
  obtain rfl := Option.some.inj (isLine.symm.trans shown)
  refine ⟨_, failed, rfl, (fits.2 ?_).trans ?_⟩
  · decide +kernel
  · decide +kernel

/-- The source cannot be read, and the underline of the failure is not the one of its span. -/
def IsMisplaced (source : Bytes) : Prop :=
  ∃ d line, Program.ofSource "" source.text = .error d ∧
    (source.text.lines[d.span.line - 1]?).map Text.trimReturns = some line ∧
    d.rendered source.text ≠ d.underlined line (d.span.leftOf source) (max 1 (d.span.marked source line).length)

theorem isMisplaced_of_tested (source : Bytes) (tested : ((ofReading? "" source).any fun d =>
    ((source.text.lines[d.span.line - 1]?).map Text.trimReturns).any fun line =>
      d.rendered source.text ≠ d.underlined line (d.span.leftOf source) (max 1 (d.span.marked source line).length)) = true) :
    IsMisplaced source := by
  obtain ⟨d, failure, misplaced⟩ := (Option.any_eq_true _ _).1 tested
  obtain ⟨line, shown, misplaced⟩ := (Option.any_eq_true _ _).1 misplaced
  exact ⟨d, line, failed_of_ofReading? failure, shown, of_decide_eq_true misplaced⟩

/-- A wide character to mark, one in front of a tab in front of the mark, and a carriage return in front of the end. -/
theorem misfits_are_misplaced : IsMisplaced (Bytes.ofString "é") ∧ IsMisplaced (Bytes.ofString "\"é\t\" #") ∧
    IsMisplaced (Bytes.ofString "let a\r") :=
  ⟨isMisplaced_of_tested _ (by decide +kernel), isMisplaced_of_tested _ (by decide +kernel),
    isMisplaced_of_tested _ (by decide +kernel)⟩

end Diagnostic

end ClassScript
