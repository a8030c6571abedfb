import ClassScript.Proofs.Tidy

/-!
# Scanning a layout

`Spells t s` says that the text `t`, wherever it stands, is scanned as tokens of the shapes `s`, provided
that what follows does not run into its last token. Texts that spell shapes are put together by a few
rules, and every part of the layout of a tidy tree spells the shapes of that tree
(`Layout.toplevel_spells`).
-/

namespace ClassScript

open Lexer

/-- The text does not go on with a word, a number or an operator. -/
def Quiet (t : Text) : Prop := ∀ g, t.head? = some g → isWordPart g = false ∧ g.is '=' = false

/-- In front of every text of the kind `ok`, the text is scanned as tokens of those shapes, none of
them a comment. -/
structure SpellsBefore (ok : Text → Prop) (t : Text) (s : List Shape) : Prop where
  solid : t.Solid
  scans : ∀ p rest, ok rest → ∃ ts p', (∀ last, Fit last ts s) ∧ (∀ k ∈ ts, k.kind ≠ .comment) ∧
    scan p (t ++ rest) = (scan p' rest).map (ts ++ ·)

/-- The text is scanned as tokens of those shapes in front of a quiet text. -/
abbrev Spells : Text → List Shape → Prop := SpellsBefore Quiet

/-- The text is scanned as tokens of those shapes, whatever follows. -/
abbrev SpellsFreely : Text → List Shape → Prop := SpellsBefore fun _ => True

/-! ## Rules -/

theorem spellsBefore_mono {ok ok' : Text → Prop} {t : Text} {s : List Shape} (spelled : SpellsBefore ok t s)
    (stronger : ∀ rest, ok' rest → ok rest) : SpellsBefore ok' t s :=
  ⟨spelled.solid, fun p rest holds => spelled.scans p rest (stronger rest holds)⟩

theorem spells_of_free {ok : Text → Prop} {t : Text} {s : List Shape} (freely : SpellsFreely t s) :
    SpellsBefore ok t s := spellsBefore_mono freely fun _ _ => trivial

/-- Whether a text starts with something quiet. -/
def startsQuiet : Text → Bool
  | [] => false
  | g :: _ => !isWordPart g && !g.is '='

theorem quiet_nil : Quiet [] := fun _ found => nomatch found

theorem quiet_append {t u : Text} (starts : startsQuiet t = true) : Quiet (t ++ u) := by
  cases t with
  | nil => cases starts
  | cons g t =>
    intro h found
    cases found
    simpa [startsQuiet] using starts

theorem quiet_of_starts {t : Text} (starts : startsQuiet t = true) : Quiet t := by
  have quiet := quiet_append (u := []) starts
  rwa [List.append_nil] at quiet

theorem quiet_append_quiet {t u : Text} (first : Quiet t) (second : Quiet u) : Quiet (t ++ u) := by
  cases t with
  | nil => exact second
  | cons g t => exact first

theorem startsQuiet_append {t u : Text} (first : Quiet t) (second : startsQuiet u = true) :
    startsQuiet (t ++ u) = true := by
  cases t with
  | nil => exact second
  | cons g t => simpa [startsQuiet] using first g rfl

/-- What is scanned behind a text is scanned behind its tokens. -/
theorem spellsBefore_append {ok ok' : Text → Prop} {t u : Text} {s s' : List Shape}
    (first : SpellsBefore ok t s) (fits : ∀ rest, ok' rest → ok (u ++ rest))
    (second : SpellsBefore ok' u s') : SpellsBefore ok' (t ++ u) (s ++ s') := by
  refine ⟨Text.solid_append first.solid second.solid, fun p rest holds => ?_⟩
  obtain ⟨ts, p', shapes, kinds, scanned⟩ := first.scans p (u ++ rest) (fits rest holds)
  obtain ⟨ts', p'', shapes', kinds', scanned'⟩ := second.scans p' rest holds
  refine ⟨ts ++ ts', p'', fun last => fit_append (shapes last) (shapes' _), ?_, ?_⟩
  · exact List.forall_mem_append.2 ⟨kinds, kinds'⟩
  · rw [List.append_assoc, scanned, scanned', map_append]

theorem free_append {ok : Text → Prop} {t u : Text} {s s' : List Shape} (first : SpellsFreely t s)
    (second : SpellsBefore ok u s') : SpellsBefore ok (t ++ u) (s ++ s') :=
  spellsBefore_append first (fun _ _ => trivial) second

theorem spells_append {t u : Text} {s s' : List Shape} (first : Spells t s) (quiet : Quiet u)
    (second : Spells u s') : Spells (t ++ u) (s ++ s') :=
  spellsBefore_append first (fun _ quietRest => quiet_append_quiet quiet quietRest) second

theorem spells_append_free {t u : Text} {s s' : List Shape} (first : Spells t s)
    (quiet : startsQuiet u = true) (second : SpellsFreely u s') : SpellsFreely (t ++ u) (s ++ s') :=
  spellsBefore_append first (fun _ _ => quiet_append quiet) second

theorem blank_append {ok : Text → Prop} {t u : Text} {s : List Shape} (blank : SpellsFreely t [])
    (rest : SpellsBefore ok u s) : SpellsBefore ok (t ++ u) s := free_append blank rest

theorem free_nil : SpellsFreely [] [] := by
  refine ⟨Text.solid_nil, fun p rest _ => ⟨[], p, fun _ => .nil, by simp, ?_⟩⟩
  rw [List.nil_append]
  cases scan p rest <;> rfl

/-! ## Single tokens -/

/-- A token is scanned when it is classified as such. -/
theorem spellsBefore_token {ok : Text → Prop} {g : Glyph} {t : Text} {kind : TokenKind}
    (whole : Text.Solid (g :: t)) (visible : isSpace g = false) (noComment : kind ≠ .comment)
    (found : ∀ rest, ok rest → Classified g (t ++ rest) kind t.length) :
    SpellsBefore ok (g :: t) [⟨kind, g :: t, none⟩] := by
  refine ⟨whole, fun p rest holds => ?_⟩
  have before : Shape.Before ⟨kind, g :: t, none⟩ rest := ⟨g, t, rfl, visible, classify_of_classified (found rest holds)⟩
  obtain ⟨token, scanned, shape, _⟩ := before.scan p
  refine ⟨[token], _, fun last => .cons shape (fun _ gap => nomatch gap) .nil, ?_, scanned⟩
  have isKind : token.kind = kind := congrArg Shape.kind shape
  simpa [isKind] using noComment

/-! ### Words and numbers -/

theorem isSpace_wordPart {g : Glyph} (part : isWordPart g = true) : isSpace g = false := by
  cases g with
  | stray b => rfl
  | char c =>
    have differs : ∀ d : Char, isWordPart (.char d) = false → (Glyph.char c).is d = false := by
      intro d other
      rw [Glyph.is, beq_eq_false_iff_ne]
      rintro rfl
      rw [part] at other
      cases other
    simp only [isSpace, differs ' ' (by decide), differs '\t' (by decide), differs '\n' (by decide),
      differs '\r' (by decide), Bool.or_self]

/-- The text does not go on with a word or a number. -/
def EndsWord (t : Text) : Prop := ∀ g, t.head? = some g → isWordPart g = false

theorem word_spells {word : String} (isWord : IsWord word) :
    SpellsBefore EndsWord (Text.ofString word) [.word word] := by
  obtain ⟨c, cs, chars, letter, parts⟩ := isWord
  have text : Text.ofString word = .char c :: cs.map Glyph.char := by
    rw [Text.ofString, chars, List.map_cons]
  have first : isWordPart (.char c) = true := by rw [isWordPart, letter, Bool.true_or]
  have solid : Text.Solid (Text.ofString word) := by
    refine Text.solid_ofString fun d found => isAscii_wordPart ?_
    rw [chars] at found
    rcases List.mem_cons.1 found with rfl | later
    · exact first
    · exact parts d later
  have inside : ∀ g ∈ cs.map Glyph.char, isWordPart g = true := by
    intro g found
    obtain ⟨d, mem, rfl⟩ := List.mem_map.1 found
    exact parts d mem
  have shown : Text.shown (.char c :: cs.map Glyph.char) = word := by
    rw [← text, Text.shown_ofString]
  rw [Shape.word, text]
  rw [text] at solid
  refine spellsBefore_token solid (isSpace_wordPart first) ?_ ?_
  · rcases ofWord_cases word with ⟨kind, _⟩ | ⟨k, kind, _⟩ | kind <;> rw [kind] <;> exact ne_of_beq_false rfl
  · intro rest ends
    have found : Classified (.char c) (cs.map Glyph.char ++ rest) _ _ := .word letter
    rwa [run_append inside ends, List.take_left, shown] at found

theorem spells_word {word : String} (isWord : IsWord word) :
    Spells (Text.ofString word) [.word word] :=
  spellsBefore_mono (word_spells isWord) fun _ quiet g found => (quiet g found).1

theorem spells_name {word : String} (isName : IsName word) :
    Spells (Text.ofString word) [.name word] := by
  have spelled := spells_word isName.1
  rwa [Shape.word, isName.2] at spelled

theorem spells_truth {word : String} (truth : word = "true" ∨ word = "false") :
    Spells (Text.ofString word) [.boolean word] := by
  have spelled := spells_word (isWord_truth truth)
  rcases truth with rfl | rfl <;> exact spelled

theorem spells_keyword (k : Keyword) : Spells (Text.ofString k.spelling) [.keyword k] := by
  have spelled := spells_word (isWord_keyword k).1
  rwa [Shape.word, (isWord_keyword k).2] at spelled

theorem spells_number {digits : String} (numeral : IsNumeral digits) :
    Spells (Text.ofString digits) [.number digits] := by
  obtain ⟨c, cs, chars, isDigits, small⟩ := numeral
  obtain ⟨first, others⟩ := List.forall_mem_cons.1 isDigits
  have text : Text.ofString digits = .char c :: cs.map Glyph.char := by
    rw [Text.ofString, chars, List.map_cons]
  have part : ∀ {d : Char}, isDigit (.char d) = true → isWordPart (.char d) = true := by
    intro d digit
    rw [isWordPart, digit, Bool.or_true]
  have solid : Text.Solid (Text.ofString digits) := by
    refine Text.solid_ofString fun d found => isAscii_wordPart (part ?_)
    rw [chars] at found
    exact isDigits d found
  have inside : ∀ g ∈ cs.map Glyph.char, isDigit g = true := by
    intro g found
    obtain ⟨d, mem, rfl⟩ := List.mem_map.1 found
    exact others d mem
  rw [text] at small solid
  rw [Shape.number, text]
  refine spellsBefore_token solid (isSpace_wordPart (part first)) (ne_of_beq_false rfl) fun rest quiet => ?_
  have stops : ∀ g, rest.head? = some g → isDigit g = false := by
    intro g found
    have noPart := (quiet g found).1
    rw [isWordPart, Bool.or_eq_false_iff] at noPart
    exact noPart.2
  have length := run_append inside stops
  have found : Classified (.char c) (cs.map Glyph.char ++ rest) .number _ :=
    .number first (by rwa [length, List.take_left])
  rwa [length] at found

/-! ### Quotations and annotations -/

theorem free_quoted {t : Text} (quotable : IsQuotable t) :
    SpellsFreely (Layout.quoted t) [.quoted t] := by
  have text : Layout.quoted t = .char '"' :: (t ++ [Glyph.char '"']) := rfl
  have solid : Text.Solid (.char '"' :: (t ++ [Glyph.char '"'])) :=
    Text.solid_append (s := [.char '"']) (Text.solid_ascii (by decide))
      (Text.solid_of_settled quotable.2 (by decide))
  rw [Shape.quoted, text]
  refine spellsBefore_token solid rfl (ne_of_beq_false rfl) fun rest _ => ?_
  have length : stringTail (t ++ [Glyph.char '"'] ++ rest) = (t ++ [Glyph.char '"']).length := by
    have inside : ∀ g ∈ t, (!Glyph.is '"' g) = true := fun g found => by rw [quotable.1 g found]; rfl
    have stops : ∀ g, (Glyph.char '"' :: rest).head? = some g → (!Glyph.is '"' g) = false := by
      intro g found
      cases found
      rfl
    have len := run_append inside stops
    rw [List.append_assoc, List.singleton_append, stringTail, len]
    simp only [List.length_append, List.length_cons, List.length_nil]
    omega
  have found : Classified (.char '"') (t ++ [Glyph.char '"'] ++ rest) .string _ := .quotation
  rwa [length] at found

theorem spells_atName {word : String} (isWord : IsWord word) :
    Spells (.char '@' :: Text.ofString word) [.atName word] := by
  obtain ⟨c, cs, chars, letter, parts⟩ := isWord
  have text : Text.ofString word = .char c :: cs.map Glyph.char := by
    rw [Text.ofString, chars, List.map_cons]
  have first : isWordPart (.char c) = true := by rw [isWordPart, letter, Bool.true_or]
  have isParts : ∀ d ∈ c :: cs, isWordPart (.char d) = true := List.forall_mem_cons.2 ⟨first, parts⟩
  have solid : Text.Solid ([Glyph.char '@'] ++ Text.ofString word) := by
    refine Text.solid_append (Text.solid_ascii (by decide)) (Text.solid_ofString fun d found => ?_)
    rw [chars] at found
    exact isAscii_wordPart (isParts d found)
  have inside : ∀ g ∈ (c :: cs).map Glyph.char, isWordPart g = true := by
    intro g found
    obtain ⟨d, mem, rfl⟩ := List.mem_map.1 found
    exact isParts d mem
  rw [Shape.atName]
  refine spellsBefore_token solid rfl (ne_of_beq_false rfl) fun rest quiet => ?_
  have length := run_append inside fun g found => (quiet g found).1
  have found : Classified (.char '@') (.char c :: (cs.map Glyph.char ++ rest)) .atName _ := .atName letter
  rw [List.map_cons, List.cons_append] at length
  rw [length] at found
  rwa [text]

/-! ### Operators and delimiters -/

theorem solid_spelling (s : Symbol) : Text.Solid (Text.ofString s.spelling) :=
  Text.solid_ofString (List.all_eq_true.1 (by cases s <;> decide))

/-- Every operator and delimiter is found in front of a space. -/
theorem classify_spaced (s : Symbol) : ∃ c tail, Text.ofString s.spelling = .char c :: tail ∧
    isSpace (.char c) = false ∧
    ∀ rest, classify (.char c) (tail ++ .char ' ' :: rest) = (.ok (.symbol s), tail.length) := by
  cases s <;> exact ⟨_, _, rfl, rfl, fun _ => rfl⟩

/-- Whether a symbol is never a part of a longer one. -/
def isLone : Symbol → Bool
  | .comma | .semicolon | .colon | .dot | .question | .leftParen | .rightParen | .leftBrace
  | .rightBrace | .leftBracket | .rightBracket => true
  | _ => false

theorem free_lone (s : Symbol) (lone : isLone s = true) :
    SpellsFreely (Text.ofString s.spelling) [.symbol s] := by
  have found : ∃ c, Text.ofString s.spelling = [.char c] ∧ isSpace (.char c) = false ∧
      ∀ rest, classify (.char c) rest = (.ok (.symbol s), 0) := by
    cases s <;> first | exact ⟨_, rfl, rfl, fun _ => rfl⟩ | cases lone
  obtain ⟨c, text, visible, classified⟩ := found
  have solid := solid_spelling s
  rw [Shape.symbol, text] at *
  exact spellsBefore_token solid visible (ne_of_beq_false rfl) fun rest _ =>
    classified_of_classify (classified rest)

/-! ### Blanks -/

theorem free_blank {t : Text} (blank : ∀ g ∈ t, g = .char ' ' ∨ g = .char '\n') : SpellsFreely t [] := by
  induction t with
  | nil => exact free_nil
  | cons g t ih =>
    obtain ⟨first, others⟩ := List.forall_mem_cons.1 blank
    obtain ⟨solid, scans⟩ := ih others
    have space : isSpace g = true := by rcases first with rfl | rfl <;> rfl
    have ascii : Text.Solid [g] := by
      rcases first with rfl | rfl <;> exact Text.solid_ascii (by decide)
    refine ⟨Text.solid_append (s := [g]) ascii solid, fun p rest _ => ?_⟩
    obtain ⟨ts, p', shapes, kinds, scanned⟩ := scans (p.step g) rest trivial
    refine ⟨ts, p', shapes, kinds, ?_⟩
    rw [List.cons_append, scan, if_pos space, scanned]

theorem free_space : SpellsFreely (Text.ofString " ") [] := free_blank (by decide)

theorem free_newline : SpellsFreely (Text.ofString "\n") [] := free_blank (by decide)

theorem free_indentation (level : Nat) : SpellsFreely (Text.ofString (Layout.indentation level)) [] := by
  have spaces : ∀ n : Nat, ∀ c ∈ ("".pushn ' ' n).toList, c = ' ' := by
    intro n
    rw [String.pushn_eq_repeat_push]
    induction n with
    | zero => simp [Nat.repeat]
    | succ n ih =>
      intro c found
      rw [Nat.repeat, String.toList_push, List.mem_append] at found
      rcases found with early | last
      · exact ih c early
      · exact List.mem_singleton.1 last
  refine free_blank fun g found => ?_
  obtain ⟨c, mem, rfl⟩ := List.mem_map.1 found
  exact .inl (by rw [spaces _ c mem])

/-- A symbol between two spaces. -/
theorem free_spaced (s : Symbol) :
    SpellsFreely (Text.ofString " " ++ (Text.ofString s.spelling ++ Text.ofString " ")) [.symbol s] := by
  obtain ⟨c, tail, text, visible, classified⟩ := classify_spaced s
  have solid := solid_spelling s
  have spelled : SpellsBefore (fun rest => ∃ more, rest = .char ' ' :: more)
      (Text.ofString s.spelling) [.symbol s] := by
    rw [Shape.symbol, text] at *
    refine spellsBefore_token solid visible (ne_of_beq_false rfl) fun rest follows => ?_
    obtain ⟨more, rfl⟩ := follows
    exact classified_of_classify (classified more)
  exact free_append free_space (spellsBefore_append spelled (fun rest _ => ⟨rest, rfl⟩) free_space)

/-- A reserved word with a space behind it. -/
theorem free_keyword (k : Keyword) :
    SpellsFreely (Text.ofString k.spelling ++ Text.ofString " ") [.keyword k] :=
  spells_append_free (spells_keyword k) rfl free_space

/-! ## Texts that may follow an operator directly -/

/-- Whether a text starts with a character that no operator goes on with. -/
def opens : Text → Bool
  | .char c :: _ => c != '=' && c != '/' && c != '>'
  | _ => false

theorem opens_append {t u : Text} (first : opens t = true) : opens (t ++ u) = true := by
  cases t with
  | nil => cases first
  | cons g t => cases g <;> exact first

theorem opens_wordPart {c : Char} {t : Text} (part : isWordPart (.char c) = true) :
    opens (.char c :: t) = true := by
  have differs : ∀ d : Char, isWordPart (.char d) = false → (c != d) = true := by
    intro d other
    rw [bne_iff_ne]
    rintro rfl
    rw [part] at other
    cases other
  simp only [opens, differs '=' (by decide), differs '/' (by decide), differs '>' (by decide),
    Bool.and_self]

theorem opens_word {word : String} (isWord : IsWord word) : opens (Text.ofString word) = true := by
  obtain ⟨c, cs, chars, letter, _⟩ := isWord
  rw [Text.ofString, chars, List.map_cons]
  exact opens_wordPart (by rw [isWordPart, letter, Bool.true_or])

theorem opens_numeral {digits : String} (numeral : IsNumeral digits) :
    opens (Text.ofString digits) = true := by
  obtain ⟨c, cs, chars, isDigits, _⟩ := numeral
  rw [Text.ofString, chars, List.map_cons]
  exact opens_wordPart (by rw [isWordPart, isDigits c List.mem_cons_self, Bool.or_true])

/-- The operators that stand directly in front of something. -/
def isPrefixed : Symbol → Bool
  | .less | .minus | .bang | .assign => true
  | _ => false

theorem classified_in_front {s : Symbol} (fits : isPrefixed s = true) : ∃ c,
    Text.ofString s.spelling = [.char c] ∧ isSpace (.char c) = false ∧
    ∀ rest, opens rest = true → Classified (.char c) rest (.symbol s) 0 := by
  obtain ⟨c, text, visible, single, which⟩ : ∃ c, Text.ofString s.spelling = [.char c] ∧
      isSpace (.char c) = false ∧ Symbol.single? c = some s ∧ (c = '<' ∨ c = '-' ∨ c = '!' ∨ c = '=') := by
    cases s <;> first | exact ⟨_, rfl, rfl, rfl, by decide⟩ | cases fits
  refine ⟨c, text, visible, fun rest opening => .single single fun d first => ?_⟩
  obtain ⟨tail, rfl⟩ := List.head?_eq_some_iff.1 first
  simp only [opens, Bool.and_eq_true, bne_iff_ne] at opening
  obtain ⟨⟨noEqual, noSlash⟩, noGreater⟩ := opening
  refine ⟨?_, fun slashes => noSlash slashes.2⟩
  rcases which with rfl | rfl | rfl | rfl <;> unfold Symbol.double? <;> split <;> simp_all

/-- An operator directly in front of a text that does not run into it. -/
theorem spells_in_front {ok : Text → Prop} {s : Symbol} {t : Text} {shapes : List Shape}
    (fits : isPrefixed s = true) (opening : opens t = true) (rest : SpellsBefore ok t shapes) :
    SpellsBefore ok (Text.ofString s.spelling ++ t) (.symbol s :: shapes) := by
  obtain ⟨c, text, visible, classified⟩ := classified_in_front fits
  have solid := solid_spelling s
  have spelled : SpellsBefore (fun rest => opens rest = true) (Text.ofString s.spelling) [.symbol s] := by
    rw [Shape.symbol, text] at *
    exact spellsBefore_token solid visible (ne_of_beq_false rfl) fun rest opens => classified rest opens
  exact spellsBefore_append spelled (fun _ _ => opens_append opening) rest

/-- The text does not start with an equals sign. -/
def NoEqual (t : Text) : Prop := ∀ g, t.head? = some g → g.is '=' = false

theorem greater_spells : SpellsBefore NoEqual (Text.ofString ">") [.symbol .greater] := by
  have text : Text.ofString ">" = [.char '>'] := rfl
  have solid := solid_spelling .greater
  rw [Shape.symbol, Symbol.spelling] at *
  rw [text] at *
  refine spellsBefore_token solid rfl (ne_of_beq_false rfl) fun rest noEqual => ?_
  refine .single rfl fun d first => ⟨?_, fun slashes => nomatch slashes.1⟩
  have noEqual : d ≠ '=' := beq_eq_false_iff_ne.1 (noEqual _ first)
  unfold Symbol.double?
  split <;> simp_all

theorem noEqual_of_quiet {t : Text} (quiet : Quiet t) : NoEqual t := fun g found => (quiet g found).2

theorem spells_greater : Spells (Text.ofString ">") [.symbol .greater] :=
  spellsBefore_mono greater_spells fun _ => noEqual_of_quiet

/-- The symbols that end a tag without children and start a closing tag. -/
theorem free_tag {s : Symbol} (tag : s = .slashGreater ∨ s = .lessSlash) :
    SpellsFreely (Text.ofString s.spelling) [.symbol s] := by
  have solid := solid_spelling s
  rcases tag with rfl | rfl <;>
    exact spellsBefore_token solid rfl (ne_of_beq_false rfl) fun rest _ => .double rfl

/-! ## Fixed parts of a layout -/

theorem Text.ofString_append (a b : String) :
    Text.ofString (a ++ b) = Text.ofString a ++ Text.ofString b := by
  rw [Text.ofString, String.toList_append, List.map_append, Text.ofString, Text.ofString]

namespace Layout

theorem leftParen_spells : SpellsFreely (Text.ofString "(") [.symbol .leftParen] :=
  free_lone .leftParen rfl

theorem rightParen_spells : SpellsFreely (Text.ofString ")") [.symbol .rightParen] :=
  free_lone .rightParen rfl

theorem semicolon_spells : SpellsFreely (Text.ofString ";") [.symbol .semicolon] :=
  free_lone .semicolon rfl

theorem comma_spells : SpellsFreely (Text.ofString ", ") [.symbol .comma] :=
  free_append (free_lone .comma rfl) free_space

theorem colon_spells : SpellsFreely (Text.ofString ": ") [.symbol .colon] :=
  free_append (free_lone .colon rfl) free_space

theorem closed_spells : SpellsFreely (Text.ofString ") ") [.symbol .rightParen] :=
  free_append (free_lone .rightParen rfl) free_space

theorem openBrace_spells : SpellsFreely (Text.ofString openBrace) [.symbol .leftBrace] :=
  free_append (free_lone .leftBrace rfl) free_newline

theorem closeBrace_spells (level : Nat) :
    SpellsFreely (Text.ofString (closeBrace level)) [.symbol .rightBrace] := by
  rw [closeBrace, Text.ofString_append]
  exact free_append (free_indentation level) (free_lone .rightBrace rfl)

theorem emptyBraces_spells :
    SpellsFreely (Text.ofString emptyBraces) [.symbol .leftBrace, .symbol .rightBrace] :=
  free_append (free_lone .leftBrace rfl) (free_append free_space (free_lone .rightBrace rfl))

/-! ## Lists -/

/-- Texts with commas between them. -/
def separated : List Text → Text
  | [] => []
  | [t] => t
  | t :: t' :: ts => t ++ Text.ofString ", " ++ separated (t' :: ts)

theorem spells_separated {α : Type} {f : α → Text} {g : α → List Shape} {l : List α}
    (each : ∀ a ∈ l, Spells (f a) (g a)) : Spells (separated (l.map f)) (commas (l.map g)) := by
  induction l with
  | nil => exact spells_of_free free_nil
  | cons a l ih =>
    obtain ⟨first, rest⟩ := List.forall_mem_cons.1 each
    cases l with
    | nil => exact first
    | cons b l =>
      simp only [List.map_cons, separated, commas, List.append_assoc]
      exact spells_append first (quiet_append rfl) (free_append comma_spells (ih rest))

theorem intercalate_separated (words : List String) :
    Text.ofString (", ".intercalate words) = separated (words.map Text.ofString) := by
  induction words with
  | nil => rfl
  | cons word words ih =>
    cases words with
    | nil => rw [String.intercalate_singleton, List.map_cons, List.map_nil, separated]
    | cons word' words =>
      rw [String.intercalate_cons_cons, Text.ofString_append, Text.ofString_append, ih]
      rfl

theorem names_spell {names : List Name} (isNames : ∀ n ∈ names, IsName n.text) :
    Spells (Text.ofString (", ".intercalate (names.map Name.text))) (nameShapes names) := by
  rw [intercalate_separated, List.map_map, nameShapes]
  exact spells_separated fun n found => spells_name (isNames n found)

theorem opens_separated {t : Text} {ts : List Text} (first : opens t = true) :
    opens (separated (t :: ts)) = true := by
  cases ts with
  | nil => exact first
  | cons t' ts => exact opens_append (opens_append first)

theorem typeParams_spell {names : List Name} (isNames : ∀ n ∈ names, IsName n.text) :
    Spells (Text.ofString (typeParams names)) (typeParamShapes names) := by
  unfold typeParams typeParamShapes
  cases names with
  | nil => exact spells_of_free free_nil
  | cons n names =>
    rw [List.isEmpty_cons, if_neg Bool.false_ne_true, if_neg Bool.false_ne_true, Text.ofString_append,
      Text.ofString_append, List.append_assoc]
    have opening : opens (Text.ofString (", ".intercalate ((n :: names).map Name.text))) = true := by
      rw [intercalate_separated, List.map_cons]
      exact opens_separated (opens_word (isNames n List.mem_cons_self).1)
    refine spells_in_front (s := .less) rfl (opens_append opening) ?_
    exact spells_append (names_spell isNames) (quiet_of_starts rfl) spells_greater

/-! ## Types -/

theorem question_spells (nullable : Bool) :
    SpellsFreely (Text.ofString (if nullable then "?" else "")) (questionShapes nullable) := by
  cases nullable
  · exact free_nil
  · exact free_lone .question rfl

theorem quiet_question (nullable : Bool) : Quiet (Text.ofString (if nullable then "?" else "")) := by
  cases nullable
  · exact quiet_nil
  · exact quiet_of_starts rfl

end Layout

theorem TypeExpr.opens {t : TypeExpr} (tidy : t.Tidy) : opens (Text.ofString t.text) = true := by
  cases t with
  | simple m name nullable =>
    rw [text, Text.ofString_append]
    exact opens_append (opens_word (tidy : IsName name).1)
  | generic m name args nullable =>
    simp only [text, Text.ofString_append, List.append_assoc]
    exact opens_append (opens_word tidy.1.1)
  | function m ps result nullable =>
    rw [text, tidy.1, if_neg Bool.false_ne_true, Text.ofString_append, Text.ofString_append,
      Text.ofString_append]
    exact opens_append (opens_append (opens_append rfl))

mutual

theorem TypeExpr.spells : ∀ t : TypeExpr, t.Tidy → Spells (Text.ofString t.text) t.shapes
  | .simple _ name nullable, tidy => by
    rw [text, Text.ofString_append]
    refine spells_append (spells_name tidy) ?_ (spells_of_free (Layout.question_spells nullable))
    exact Layout.quiet_question nullable
  | .generic _ name args nullable, ⟨isName, some_args, tidy⟩ => by
    have inside := TypeExpr.spellAll args tidy
    have opening : ClassScript.opens (Text.ofString (", ".intercalate (texts args))) = true := by
      cases args with
      | nil => exact absurd rfl some_args
      | cons t ts =>
        rw [Layout.intercalate_separated]
        exact Layout.opens_separated (TypeExpr.opens tidy.1)
    simp only [text, Text.ofString_append, List.append_assoc]
    refine spells_append (spells_name isName) (quiet_append rfl)
      (spells_in_front (s := .less) rfl (opens_append opening) (spells_append inside (quiet_append rfl)
        (spells_append spells_greater (Layout.quiet_question nullable)
          (spells_of_free (Layout.question_spells nullable)))))
  | .function _ params result nullable, ⟨notNullable, tidyParams, tidyResult⟩ => by
    have inside := TypeExpr.spellAll params tidyParams
    have arrow : SpellsFreely (Text.ofString ") -> ") [.symbol .rightParen, .symbol .arrow] :=
      free_append (free_lone .rightParen rfl) (free_spaced .arrow)
    rw [text, notNullable, if_neg Bool.false_ne_true]
    simp only [Text.ofString_append, List.append_assoc]
    exact free_append Layout.leftParen_spells (spells_append inside (quiet_append rfl)
      (free_append arrow (TypeExpr.spells result tidyResult)))

theorem TypeExpr.spellAll : ∀ ts : List TypeExpr, TypeExpr.TidyAll ts →
    Spells (Text.ofString (", ".intercalate (texts ts))) (commas (TypeExpr.shapesAll ts))
  | [], _ => spells_of_free free_nil
  | [t], tidy => by
    rw [texts, texts, String.intercalate_singleton]
    exact TypeExpr.spells t tidy.1
  | t :: t' :: ts, tidy => by
    have rest := TypeExpr.spellAll (t' :: ts) tidy.2
    rw [texts] at rest
    rw [texts, texts, String.intercalate_cons_cons, Text.ofString_append, Text.ofString_append,
      List.append_assoc]
    exact spells_append (TypeExpr.spells t tidy.1) (quiet_append rfl)
      (free_append Layout.comma_spells rest)

end

namespace Layout

theorem typeSuffix_spells {type : Option TypeExpr} (tidy : TypeExpr.TidyOption type) :
    Spells (Text.ofString (typeSuffix type)) (typeSuffixShapes type) := by
  cases type with
  | none => exact spells_of_free free_nil
  | some t =>
    rw [typeSuffix, Text.ofString_append]
    exact free_append colon_spells (t.spells tidy)

theorem quiet_typeSuffix (type : Option TypeExpr) : Quiet (Text.ofString (typeSuffix type)) := by
  cases type with
  | none => exact quiet_nil
  | some t =>
    rw [typeSuffix, Text.ofString_append]
    exact quiet_append rfl

theorem quiet_typeParams (names : List Name) : Quiet (Text.ofString (typeParams names)) := by
  unfold typeParams
  split
  · exact quiet_nil
  · rw [Text.ofString_append, Text.ofString_append, List.append_assoc]
    exact quiet_append rfl

/-! ## Declarations up to their members -/

theorem annotations_spell {as : List Annotation} (isWords : ∀ a ∈ as, IsWord a.name) :
    SpellsFreely (Text.ofString (annotations as)) (annotationShapes as) := by
  induction as with
  | nil => exact free_nil
  | cons a as ih =>
    obtain ⟨first, rest⟩ := List.forall_mem_cons.1 isWords
    have text : annotations (a :: as) = ("@" ++ a.name ++ " ") ++ annotations as := by
      simp only [annotations, List.map_cons, String.join_cons]
    rw [text, Text.ofString_append, Text.ofString_append, Text.ofString_append, List.append_assoc]
    exact spells_append_free (spells_atName first) rfl (free_append free_space (ih rest))

theorem words_eq (m : Modifiers) : m.words = m.keywords.map Keyword.spelling := by
  obtain ⟨a, b, c, d, e⟩ := m
  cases a <;> cases b <;> cases c <;> cases d <;> cases e <;> rfl

theorem modifiers_spell (m : Modifiers) : SpellsFreely (Text.ofString (modifiers m)) m.shapes := by
  rw [modifiers, Modifiers.text, words_eq, Modifiers.shapes]
  generalize m.keywords = ks
  induction ks with
  | nil => exact free_nil
  | cons k ks ih =>
    rw [List.map_cons, List.isEmpty_cons, if_neg Bool.false_ne_true]
    cases ks with
    | nil =>
      rw [List.map_nil, String.intercalate_singleton, Text.ofString_append]
      exact free_keyword k
    | cons k' ks =>
      rw [List.map_cons, List.isEmpty_cons, if_neg Bool.false_ne_true] at ih
      rw [List.map_cons, String.intercalate_cons_cons, Text.ofString_append, Text.ofString_append,
        Text.ofString_append, List.append_assoc, ← Text.ofString_append (" ".intercalate _)]
      exact free_append (free_keyword k) ih

theorem types_spell {ts : List TypeExpr} (tidy : TypeExpr.TidyAll ts) :
    Spells (Text.ofString (types ts)) (commas (TypeExpr.shapesAll ts)) := by
  rw [types]
  exact TypeExpr.spellAll ts tidy

/-- Types behind a word with spaces around it, if there are any. -/
theorem typesBehind_spell {ts : List TypeExpr} (word : Keyword) (tidy : TypeExpr.TidyAll ts) :
    Spells (Text.ofString (if ts.isEmpty then "" else (" " ++ word.spelling ++ " ") ++ types ts))
      (typesBehind word ts) := by
  unfold typesBehind
  split
  · exact spells_of_free free_nil
  · simp only [Text.ofString_append, List.append_assoc]
    rw [← List.append_assoc (Text.ofString word.spelling)]
    exact free_append free_space (free_append (free_keyword word) (types_spell tidy))

theorem quiet_typesBehind (ts : List TypeExpr) (word : String) :
    Quiet (Text.ofString (if ts.isEmpty then "" else (" " ++ word ++ " ") ++ types ts)) := by
  split
  · exact quiet_nil
  · simp only [Text.ofString_append, List.append_assoc]
    exact quiet_append rfl

theorem extends_spells (parent : Option TypeExpr) : TypeExpr.TidyOption parent →
    Spells (Text.ofString (match parent with
        | none => ""
        | some t => " extends " ++ t.text)) (extendsShapes parent) := by
  intro tidy
  cases parent with
  | none => exact spells_of_free free_nil
  | some t =>
    have word : SpellsFreely (Text.ofString " extends ") [.keyword .extendsWord] :=
      free_append free_space (free_keyword .extendsWord)
    rw [Text.ofString_append]
    exact free_append word (t.spells tidy)

theorem quiet_extends (parent : Option TypeExpr) : Quiet (Text.ofString (match parent with
    | none => ""
    | some t => " extends " ++ t.text)) := by
  cases parent with
  | none => exact quiet_nil
  | some t =>
    rw [Text.ofString_append]
    exact quiet_append rfl

theorem heading_spells {d : Declaration} (tidyHeading : d.heading.Tidy) (isName : IsName d.name.text)
    (isNames : ∀ n ∈ d.typeParams, IsName n.text) :
    Spells (Text.ofString (heading d)) (headingShapes d.heading d.name d.typeParams) := by
  obtain ⟨mark, annotated, head, name, tps, fs, ms⟩ := d
  have named : ∀ {t : Text} {s : List Shape}, Quiet t → Spells t s →
      Spells (Text.ofString name.text ++ (Text.ofString (typeParams tps) ++ t))
        (.name name.text :: (typeParamShapes tps ++ s)) := by
    intro t s quiet rest
    exact spells_append (spells_name isName) (quiet_append_quiet (quiet_typeParams tps) quiet)
      (spells_append (typeParams_spell isNames) quiet rest)
  cases head with
  | ofClass isOpen parent interfaces =>
    have implementing : (if interfaces.isEmpty then "" else " implements " ++ types interfaces) =
        if interfaces.isEmpty then ""
        else (" " ++ Keyword.implementsWord.spelling ++ " ") ++ types interfaces := rfl
    have opening : SpellsFreely (Text.ofString (if isOpen then "open " else ""))
        (if isOpen then [.keyword .openWord] else []) := by
      cases isOpen
      · exact free_nil
      · exact free_keyword .openWord
    simp only [heading, headingShapes, implementing]
    rw [Text.ofString_append, Text.ofString_append, Text.ofString_append, Text.ofString_append,
      Text.ofString_append]
    simp only [List.append_assoc]
    refine free_append opening (free_append (free_keyword .classWord) (named ?_ ?_))
    · exact quiet_append_quiet (quiet_extends parent) (quiet_typesBehind interfaces _)
    · exact spells_append (extends_spells parent tidyHeading.1) (quiet_typesBehind interfaces _)
        (typesBehind_spell .implementsWord tidyHeading.2)
  | ofInterface parents =>
    have extending : (if parents.isEmpty then "" else " extends " ++ types parents) =
        if parents.isEmpty then ""
        else (" " ++ Keyword.extendsWord.spelling ++ " ") ++ types parents := rfl
    simp only [heading, headingShapes, extending]
    rw [Text.ofString_append, Text.ofString_append, Text.ofString_append]
    simp only [List.append_assoc]
    exact free_append (free_keyword .interfaceWord)
      (named (quiet_typesBehind parents _) (typesBehind_spell .extendsWord tidyHeading))

theorem methodName_spells {m : Method}
    (named : if m.isConstructor then m.name.text = "constructor" else IsName m.name.text) :
    Spells (Text.ofString m.name.text) [m.nameShape] := by
  unfold Method.nameShape
  split at named
  · next isConstructor =>
    rw [named, if_pos isConstructor]
    exact spells_keyword .constructorWord
  · next other =>
    rw [if_neg other]
    exact spells_name named

/-- A method up to its parameters. -/
theorem methodHead_spells {m : Method} (isWords : ∀ a ∈ m.annotations, IsWord a.name)
    (named : if m.isConstructor then m.name.text = "constructor" else IsName m.name.text)
    (isNames : ∀ n ∈ m.typeParams, IsName n.text) :
    Spells (Text.ofString (methodHead m)) (annotationShapes m.annotations ++
      (m.shownModifiers.shapes ++ m.nameShape :: typeParamShapes m.typeParams)) := by
  simp only [methodHead]
  rw [Text.ofString_append, Text.ofString_append, Text.ofString_append, List.append_assoc,
    List.append_assoc]
  exact free_append (annotations_spell isWords) (free_append (modifiers_spell _)
    (spells_append (methodName_spells named) (quiet_typeParams _) (typeParams_spell isNames)))

/-! ## Expressions -/

theorem opens_in_context {level : Nat} {e : Expr} (opening : opens (expr level 0 e) = true)
    (context : Nat) : opens (expr level context e) = true := by
  rw [expr_in_context]
  split
  · rw [List.append_assoc]
    exact opens_append rfl
  · exact opening

theorem isParent_eq {e : Expr} (isParent : e.isParent = true) : ∃ m, e = .parent m := by
  cases e <;> first | exact ⟨_, rfl⟩ | cases isParent

theorem expr_opens (level : Nat) : ∀ e : Expr, e.Tidy → opens (expr level 0 e) = true
  | .name id, tidy => by
    rw [expr, if_neg (Nat.not_lt_zero _)]
    exact opens_word (tidy : IsName id.text).1
  | .number _ digits, tidy => by
    rw [expr, if_neg (Nat.not_lt_zero _)]
    exact opens_numeral tidy
  | .string _, _ | .null _, _ | .self _, _ => by
    rw [expr, if_neg (Nat.not_lt_zero _)]
    rfl
  | .boolean _ value, tidy => by
    rw [expr, if_neg (Nat.not_lt_zero _), (tidy : _ = _)]
    cases value <;> rfl
  | .create .., _ | .array .., _ | .lambda .., _ | .markup _, _ => by
    simp only [expr, Nat.not_lt_zero, if_false, List.append_assoc]
    exact opens_append rfl
  | .binary _ op left _, ⟨tidy, _⟩ => by
    simp only [expr, Nat.not_lt_zero, if_false, List.append_assoc]
    exact opens_append (opens_in_context (expr_opens level left tidy) _)
  | .unary _ op _, _ => by
    simp only [expr, Nat.not_lt_zero, if_false]
    cases op <;> exact opens_append rfl
  | .assign _ target _, ⟨_, tidy, _⟩ => by
    simp only [expr, Nat.not_lt_zero, if_false, List.append_assoc]
    exact opens_append (opens_in_context (expr_opens level target tidy) _)
  | .member _ object _, ⟨tidy, _⟩ => by
    simp only [expr, Nat.not_lt_zero, if_false, List.append_assoc]
    rcases tidy with isParent | tidy
    · obtain ⟨m, rfl⟩ := isParent_eq isParent
      exact opens_append rfl
    · exact opens_append (opens_in_context (expr_opens level object tidy) _)
  | .index _ object _, ⟨tidy, _⟩ => by
    simp only [expr, Nat.not_lt_zero, if_false, List.append_assoc]
    exact opens_append (opens_in_context (expr_opens level object tidy) _)
  | .call _ callee _, ⟨tidy, _⟩ => by
    simp only [expr, Nat.not_lt_zero, if_false, List.append_assoc]
    rcases tidy with isParent | tidy
    · obtain ⟨m, rfl⟩ := isParent_eq isParent
      exact opens_append rfl
    · exact opens_append (opens_in_context (expr_opens level callee tidy) _)

theorem operand_spells {level : Nat} {e : Expr} (inside : Spells (expr level 0 e) e.shapes)
    (context : Nat) :
    Spells (expr level context e) (operandShapes context (exprStrength e) e.shapes) := by
  rw [expr_in_context]
  unfold operandShapes
  split
  · rw [List.append_assoc]
    exact free_append leftParen_spells
      (spells_of_free (spells_append_free inside rfl rightParen_spells))
  · exact inside

theorem parent_spells {level : Nat} {e : Expr} (isParent : e.isParent = true) :
    Spells (expr level 9 e) (operandShapes 9 (exprStrength e) e.shapes) := by
  obtain ⟨m, rfl⟩ := isParent_eq isParent
  exact spells_keyword .superWord

theorem op_spelling (op : BinaryOp) : Text.ofString op.spelling = Text.ofString op.symbol.spelling := rfl

theorem initialiser_quiet (level : Nat) (e : Option Expr) : Quiet (initialiser level e) := by
  cases e with
  | none => exact quiet_nil
  | some e => exact quiet_append rfl

theorem assign_spells : SpellsFreely (Text.ofString " = ") [.symbol .assign] := free_spaced .assign

theorem exprs_eq (level : Nat) (es : List Expr) : exprs level es = separated (es.map (expr level 0)) := by
  induction es with
  | nil => rfl
  | cons e es ih =>
    cases es with
    | nil => rfl
    | cons e' es =>
      rw [exprs, ih]
      · rfl
      · exact List.cons_ne_nil _ _

theorem params_eq (level : Nat) (ps : List Param) : params level ps = separated (ps.map (param level)) := by
  induction ps with
  | nil => rfl
  | cons p ps ih =>
    cases ps with
    | nil => rfl
    | cons p' ps =>
      rw [params, ih]
      · rfl
      · exact List.cons_ne_nil _ _

end Layout

theorem Expr.shapesAll_eq (es : List Expr) : Expr.shapesAll es = es.map Expr.shapes := by
  induction es with
  | nil => rfl
  | cons e es ih => rw [shapesAll, ih, List.map_cons]

theorem Param.shapesAll_eq (ps : List Param) : Param.shapesAll ps = ps.map Param.shapes := by
  induction ps with
  | nil => rfl
  | cons p ps ih => rw [shapesAll, ih, List.map_cons]

namespace Layout

theorem exprs_spell {level : Nat} {es : List Expr} (each : ∀ e ∈ es, Spells (expr level 0 e) e.shapes) :
    Spells (exprs level es) (commas (Expr.shapesAll es)) := by
  rw [exprs_eq, Expr.shapesAll_eq]
  exact spells_separated each

theorem params_spell {level : Nat} {ps : List Param} (each : ∀ p ∈ ps, Spells (param level p) p.shapes) :
    Spells (params level ps) (commas (Param.shapesAll ps)) := by
  rw [params_eq, Param.shapesAll_eq]
  exact spells_separated each

theorem imports_spell {names : List Name} (isNames : ∀ n ∈ names, IsName n.text) :
    SpellsFreely (Text.ofString (if names.isEmpty then ""
      else "\x7b " ++ ", ".intercalate (names.map Name.text) ++ " \x7d from ")) (importShapes names) := by
  unfold importShapes
  split
  · exact free_nil
  · have opening : SpellsFreely (Text.ofString "\x7b ") [.symbol .leftBrace] :=
      free_append (free_lone .leftBrace rfl) free_space
    have closing : SpellsFreely (Text.ofString " \x7d from ") [.symbol .rightBrace, .keyword .fromWord] :=
      free_append free_space (free_append (free_append (free_lone .rightBrace rfl) free_space)
        (free_keyword .fromWord))
    rw [Text.ofString_append, Text.ofString_append, List.append_assoc]
    exact free_append opening (spells_append_free (names_spell isNames) rfl closing)

/-! ### Markup -/

/-- A run is scanned as its pieces in front of a tag or a hole. -/
theorem run_spells {t : Text} (isRun : IsRun t) : SpellsBefore Ceases t t.pieces := by
  obtain ⟨k, ks, first, piece, follows, rfl⟩ := isRun
  rw [pieces_joined first piece follows]
  exact ⟨solid_joined piece follows, fun p rest ceases => scan_run first piece follows ceases p⟩

/-- The text goes on with a tag. -/
def BeforeTag (t : Text) : Prop := t.head? = some (.char '<')

/-- The values in markup: bare, or in braces. -/
def braced (bare : Bool) (t : Text) : Text :=
  if bare then t else Text.ofString "\x7b" ++ (t ++ Text.ofString "\x7d")

theorem braced_spells {t : Text} {s : List Shape} (inside : Spells t s) (bare : Bool)
    (alone : bare = true → SpellsFreely t s) : SpellsFreely (braced bare t) (braceShapes bare s) := by
  unfold braced braceShapes
  cases bare with
  | true => exact alone rfl
  | false => exact free_append (free_lone .leftBrace rfl) (spells_append_free inside rfl (free_lone .rightBrace rfl))

theorem quoted_spells (level : Nat) {e : Expr} (tidy : e.Tidy) (isQuoted : e.isQuoted = true) :
    SpellsFreely (expr level 0 e) e.shapes := by
  cases e with
  | string q =>
    rw [expr, if_neg (Nat.not_lt_zero _)]
    exact free_quoted tidy
  | _ => cases isQuoted

theorem braced_opens (level : Nat) (e : Expr) : opens (braced e.isQuoted (expr level 0 e)) = true := by
  cases e <;> simp only [Expr.isQuoted, braced, expr, Nat.not_lt_zero, if_false, if_true] <;> rfl

theorem attrs_cons (level : Nat) (m : Mark) (name : String) (value : Expr) (rest : List Attribute) :
    attrs level (⟨m, name, value⟩ :: rest) = Text.ofString " " ++ (Text.ofString name ++
      (Text.ofString "=" ++ (braced value.isQuoted (expr level 0 value) ++ attrs level rest))) := by
  cases value <;>
    simp only [attrs, braced, Expr.isQuoted, expr, Nat.not_lt_zero, if_false, if_true, List.append_assoc,
      Bool.false_eq_true]

theorem attrs_quiet (level : Nat) (as : List Attribute) : Quiet (attrs level as) := by
  cases as with
  | nil => exact quiet_nil
  | cons a as =>
    obtain ⟨m, name, value⟩ := a
    rw [attrs_cons]
    exact quiet_append rfl

theorem element_first (level : Nat) (e : Element) (r : Text) : BeforeTag (element level e ++ r) := by
  obtain ⟨m, tag, attributes, children, selfClosing⟩ := e
  cases selfClosing <;> simp only [element, Bool.false_eq_true, if_false, if_true, List.append_assoc] <;> rfl

theorem ceases_of_tag {t : Text} (tag : BeforeTag t) : Ceases t := by
  intro g found
  cases tag.symm.trans found
  exact .inr (.inl rfl)

/-- A text ends in front of children that do not start with a text. -/
theorem children_cease (level : Nat) {cs : List Child} {r : Text} (noText : Child.startsText cs = false)
    (tag : BeforeTag r) : Ceases (children level cs ++ r) := by
  cases cs with
  | nil => exact ceases_of_tag tag
  | cons c cs =>
    cases c with
    | element e =>
      rw [children, List.append_assoc]
      exact ceases_of_tag (element_first level e _)
    | text m t => cases noText
    | hole m e =>
      simp only [children, List.append_assoc]
      intro g found
      cases found
      exact .inr (.inr rfl)

theorem noEqual_of_ceases {t : Text} (ceases : Ceases t) : NoEqual t := by
  intro g found
  rcases ceases g found with rfl | rfl | rfl <;> rfl

/-- An angle bracket stays by itself in front of children that do not start with an equals sign. -/
theorem children_noEqual (level : Nat) {cs : List Child} {r : Text} (tidy : Child.TidyAll cs)
    (noEqual : Child.startsEqual cs = false) (tag : BeforeTag r) : NoEqual (children level cs ++ r) := by
  cases starts : Child.startsText cs with
  | false => exact noEqual_of_ceases (children_cease level starts tag)
  | true =>
    cases cs with
    | nil => cases starts
    | cons c cs =>
      cases c with
      | element | hole => cases starts
      | text m t =>
        obtain ⟨g, rest, rfl⟩ := IsRun.some_text tidy.1
        intro h found
        cases found
        simpa [Child.startsEqual] using noEqual

mutual

theorem expr_spells (level : Nat) : ∀ e : Expr, e.Tidy → Spells (expr level 0 e) e.shapes
  | .name id, tidy => by
    rw [expr, if_neg (Nat.not_lt_zero _)]
    exact spells_name tidy
  | .number _ _, tidy => by
    rw [expr, if_neg (Nat.not_lt_zero _)]
    exact spells_number tidy
  | .string _, tidy => by
    rw [expr, if_neg (Nat.not_lt_zero _)]
    exact spells_of_free (free_quoted tidy)
  | .boolean m value, tidy => by
    rw [expr, if_neg (Nat.not_lt_zero _)]
    refine spells_truth ?_
    rw [(tidy : m.head.word = _)]
    cases value
    · exact .inr rfl
    · exact .inl rfl
  | .null _, _ => by
    rw [expr, if_neg (Nat.not_lt_zero _)]
    exact spells_keyword .nullWord
  | .self _, _ => by
    rw [expr, if_neg (Nat.not_lt_zero _)]
    exact spells_keyword .thisWord
  | .binary _ op left right, ⟨tidyLeft, tidyRight, _⟩ => by
    have first := operand_spells (expr_spells level left tidyLeft) (strength op)
    have second := operand_spells (expr_spells level right tidyRight) (strength op + 1)
    simp only [expr, exprStrength, Nat.not_lt_zero, if_false, List.append_assoc, op_spelling]
    refine spells_append first (quiet_append rfl) ?_
    rw [← List.append_assoc (Text.ofString op.symbol.spelling), ← List.append_assoc (Text.ofString " ")]
    exact free_append (free_spaced op.symbol) second
  | .unary _ op operand, ⟨tidy, _⟩ => by
    have inside := operand_spells (expr_spells level operand tidy) 8
    have opening := opens_in_context (expr_opens level operand tidy) 8
    simp only [expr, Nat.not_lt_zero, if_false]
    cases op
    · exact spells_in_front (s := .minus) rfl opening inside
    · exact spells_in_front (s := .bang) rfl opening inside
  | .assign _ target value, ⟨_, tidyTarget, tidyValue, _⟩ => by
    have first := operand_spells (expr_spells level target tidyTarget) 2
    have second := operand_spells (expr_spells level value tidyValue) 1
    simp only [expr, exprStrength, Nat.not_lt_zero, if_false, List.append_assoc]
    exact spells_append first (quiet_append rfl) (free_append assign_spells second)
  | .member _ object property, ⟨tidy, isName, _⟩ => by
    have first : Spells (expr level 9 object) (operandShapes 9 (exprStrength object) object.shapes) :=
      tidy.elim parent_spells fun tidy => operand_spells (expr_spells level object tidy) 9
    simp only [expr, Nat.not_lt_zero, if_false, List.append_assoc]
    exact spells_append first (quiet_append rfl) (free_append (free_lone .dot rfl) (spells_name isName))
  | .index _ object i, ⟨tidyObject, tidyIndex, _⟩ => by
    have first := operand_spells (expr_spells level object tidyObject) 9
    have second := spells_append_free (expr_spells level i tidyIndex) rfl (free_lone .rightBracket rfl)
    simp only [expr, Nat.not_lt_zero, if_false, List.append_assoc]
    exact spells_append first (quiet_append rfl)
      (spells_of_free (free_append (free_lone .leftBracket rfl) second))
  | .call _ callee args, ⟨tidy, tidyArgs, _⟩ => by
    have first : Spells (expr level 9 callee) (operandShapes 9 (exprStrength callee) callee.shapes) :=
      tidy.elim parent_spells fun tidy => operand_spells (expr_spells level callee tidy) 9
    have second := spells_append_free (exprs_spell (exprs_each level args tidyArgs)) rfl rightParen_spells
    simp only [expr, Nat.not_lt_zero, if_false, List.append_assoc]
    exact spells_append first (quiet_append rfl) (spells_of_free (free_append leftParen_spells second))
  | .create _ type args, ⟨_, tidyType, tidyArgs⟩ => by
    have second := spells_append_free (exprs_spell (exprs_each level args tidyArgs)) rfl rightParen_spells
    simp only [expr, Nat.not_lt_zero, if_false, List.append_assoc]
    exact free_append (free_keyword .newWord) (spells_append (type.spells tidyType) (quiet_append rfl)
      (spells_of_free (free_append leftParen_spells second)))
  | .array _ elements, tidy => by
    have inside := spells_append_free (exprs_spell (exprs_each level elements tidy)) rfl (free_lone .rightBracket rfl)
    simp only [expr, Nat.not_lt_zero, if_false, List.append_assoc]
    exact spells_of_free (free_append (free_lone .leftBracket rfl) inside)
  | .lambda _ ps result body, ⟨tidyParams, tidyResult, tidyBody, _⟩ => by
    have arrow := free_append (free_spaced .arrow) (lambdaBody_spells level body tidyBody)
    have suffix := spells_append (typeSuffix_spells tidyResult) (quiet_append rfl) arrow
    have inside := spells_append (params_spell (params_each level ps tidyParams)) (quiet_append rfl)
      (free_append rightParen_spells suffix)
    simp only [expr, Nat.not_lt_zero, if_false, List.append_assoc]
    exact free_append leftParen_spells inside
  | .markup e, tidy => by
    simp only [expr, Nat.not_lt_zero, if_false]
    refine free_append (free_keyword .vdomWord) (spellsBefore_mono (element_spells level e tidy) ?_)
    exact fun rest quiet => .inr (noEqual_of_quiet quiet)

theorem element_spells (level : Nat) : ∀ e : Element, e.Tidy →
    SpellsBefore (fun rest => e.selfClosing = true ∨ NoEqual rest) (element level e) e.shapes
  | ⟨_, tag, attributes, cs, selfClosing⟩, ⟨isWord, tidyAttributes, tidyChildren, noEqual, _⟩ => by
    have named := attrs_spell level attributes tidyAttributes
    have opening := opens_word isWord
    cases selfClosing with
    | true =>
      have quiet := startsQuiet_append (attrs_quiet level attributes) (u := Text.ofString "/>") rfl
      have inside := spells_append_free (spells_word isWord) quiet
        (free_append named (free_tag (.inl rfl)))
      simp only [element, if_true, List.append_assoc]
      exact spells_of_free (spells_in_front (s := .less) rfl (opens_append opening) inside)
    | false =>
      have closing : SpellsBefore NoEqual (Text.ofString "</" ++ (Text.ofString tag ++ Text.ofString ">"))
          [.symbol .lessSlash, .word tag, .symbol .greater] :=
        free_append (free_tag (.inr rfl))
          (spellsBefore_append (spells_word isWord) (fun _ _ => quiet_append rfl) greater_spells)
      have tagged : ∀ rest, NoEqual rest →
          BeforeTag (Text.ofString "</" ++ (Text.ofString tag ++ Text.ofString ">") ++ rest) := fun _ _ => rfl
      have inner := spellsBefore_append (children_spell level cs tidyChildren) tagged closing
      have behind := spellsBefore_append greater_spells
        (fun rest _ => by
          rw [List.append_assoc]
          exact children_noEqual level tidyChildren noEqual rfl) inner
      have inside := spellsBefore_append (spells_word isWord)
        (fun rest _ => quiet_append (startsQuiet_append (attrs_quiet level attributes) rfl))
        (free_append named behind)
      have whole := spells_in_front (s := .less) rfl (opens_append opening) inside
      simp only [element, Bool.false_eq_true, if_false, List.append_assoc, Element.shapes] at whole ⊢
      exact spellsBefore_mono whole fun rest holds => holds.elim (fun other => nomatch other) id

theorem attrs_spell (level : Nat) : ∀ as : List Attribute, Attribute.TidyAll as →
    SpellsFreely (attrs level as) (Attribute.shapesAll as)
  | [], _ => free_nil
  | ⟨_, name, value⟩ :: rest, ⟨isWord, tidy, tidyRest⟩ => by
    have valued := braced_spells (expr_spells level value tidy) value.isQuoted (quoted_spells level tidy)
    have more := free_append valued (attrs_spell level rest tidyRest)
    have assigned := spells_in_front (s := .assign) rfl (opens_append (braced_opens level value)) more
    have named := spellsBefore_append (word_spells isWord)
      (fun _ (_ : True) g found => by cases found; rfl) assigned
    rw [attrs_cons, Attribute.shapesAll]
    exact free_append free_space named

theorem children_spell (level : Nat) : ∀ cs : List Child, Child.TidyAll cs →
    SpellsBefore BeforeTag (children level cs) (Child.shapesAll cs)
  | [], _ => spells_of_free free_nil
  | .element e :: rest, ⟨tidy, tidyRest, apart⟩ => by
    rw [children, Child.shapesAll]
    refine spellsBefore_append (element_spells level e tidy) (fun r tag => ?_)
      (children_spell level rest tidyRest)
    exact apart.imp_right fun noEqual => children_noEqual level tidyRest noEqual tag
  | .text _ t :: rest, ⟨isRun, tidyRest, noText⟩ => by
    rw [children, Child.shapesAll]
    exact spellsBefore_append (run_spells isRun) (fun r tag => children_cease level noText tag)
      (children_spell level rest tidyRest)
  | .hole _ e :: rest, ⟨tidy, tidyRest⟩ => by
    have inside := braced_spells (expr_spells level e tidy) false fun other => nomatch other
    simp only [children, Child.shapesAll, List.append_assoc]
    rw [← List.append_assoc (expr level 0 e), ← List.append_assoc (Text.ofString "\x7b")]
    exact free_append inside (children_spell level rest tidyRest)

theorem exprs_each (level : Nat) : ∀ es : List Expr, Expr.TidyAll es →
    ∀ e ∈ es, Spells (expr level 0 e) e.shapes
  | [], _ => by simp
  | e :: es, ⟨first, rest⟩ =>
    List.forall_mem_cons.2 ⟨expr_spells level e first, exprs_each level es rest⟩

theorem lambdaBody_spells (level : Nat) : ∀ b : LambdaBody, b.Tidy → Spells (lambdaBody level b) b.shapes
  | .block b, tidy => spells_of_free (block_spells level b tidy)
  | .value e, tidy => expr_spells level e tidy

theorem initialiser_spells (level : Nat) : ∀ e : Option Expr, Expr.TidyOption e →
    Spells (initialiser level e) (Expr.initialiserShapes e)
  | none, _ => spells_of_free free_nil
  | some e, tidy => free_append assign_spells (expr_spells level e tidy)

theorem param_spells (level : Nat) : ∀ p : Param, p.Tidy → Spells (param level p) p.shapes
  | ⟨_, _, type, fallback⟩, ⟨isName, tidyType, tidyFallback⟩ => by
    have quiet := initialiser_quiet level fallback
    have value := initialiser_spells level fallback tidyFallback
    simp only [param, List.append_assoc]
    exact spells_append (spells_name isName) (quiet_append_quiet (quiet_typeSuffix type) quiet)
      (spells_append (typeSuffix_spells tidyType) quiet value)

theorem params_each (level : Nat) : ∀ ps : List Param, Param.TidyAll ps →
    ∀ p ∈ ps, Spells (param level p) p.shapes
  | [], _ => by simp
  | p :: ps, ⟨first, rest⟩ =>
    List.forall_mem_cons.2 ⟨param_spells level p first, params_each level ps rest⟩

theorem block_spells (level : Nat) : ∀ b : Block, b.Tidy → SpellsFreely (block level b) b.shapes
  | ⟨_, []⟩, _ => emptyBraces_spells
  | ⟨_, s :: ss⟩, tidy => by
    have inside := stmts_spell (level + 1) (s :: ss) tidy
    simp only [block, List.isEmpty_cons, Bool.false_eq_true, if_false, List.append_assoc]
    exact free_append openBrace_spells (free_append inside (closeBrace_spells level))

theorem stmts_spell (level : Nat) : ∀ ss : List Stmt, Stmt.TidyAll ss →
    SpellsFreely (stmts level ss) (Stmt.shapesAll ss)
  | [], _ => free_nil
  | s :: ss, ⟨first, rest⟩ => by
    have more := free_append free_newline (stmts_spell level ss rest)
    simp only [stmts, List.append_assoc]
    exact blank_append (free_indentation level)
      (spells_append_free (stmt_spells level s first) rfl more)

theorem arms_spell (level : Nat) : ∀ as : List Arm, Arm.TidyAll as →
    SpellsFreely (arms level as) (Arm.shapesAll as)
  | [], _ => free_nil
  | ⟨_, value, body⟩ :: rest, ⟨⟨tidyValue, tidyBody⟩, tidyRest⟩ => by
    have more := free_append free_newline (arms_spell level rest tidyRest)
    have behind := free_append (free_spaced .fatArrow) (free_append (block_spells level body tidyBody) more)
    have whole := spells_append_free (expr_spells level value tidyValue) rfl behind
    simp only [arms, Arm.shapesAll, Arm.shapes, List.append_assoc]
    exact blank_append (free_indentation level) whole

theorem fallbackArm_spells (level : Nat) : ∀ b : Option Block, Block.TidyOption b →
    SpellsFreely (fallbackArm level b) (Block.fallbackShapes b)
  | none, _ => free_nil
  | some b, tidy => by
    have word : SpellsFreely (Text.ofString "default => ") [.keyword .defaultWord, .symbol .fatArrow] :=
      spells_append_free (spells_keyword .defaultWord) rfl (free_spaced .fatArrow)
    have body := free_append (block_spells level b tidy) free_newline
    rw [List.append_nil] at body
    simp only [fallbackArm, List.append_assoc]
    exact free_append (free_indentation level) (free_append word body)

theorem otherwise_spells (level : Nat) : ∀ s : Option Stmt, Stmt.TidyOtherwise s →
    Spells (otherwise level s) (Stmt.otherwiseShapes s)
  | none, _ => spells_of_free free_nil
  | some s, ⟨_, tidy⟩ => by
    have word : SpellsFreely (Text.ofString " else ") [.keyword .elseWord] :=
      free_append free_space (free_keyword .elseWord)
    exact free_append word (stmt_spells level s tidy)

theorem stmt_spells (level : Nat) : ∀ s : Stmt, s.Tidy → Spells (stmt level s) s.shapes
  | .uses _ names path, ⟨isNames, quotable⟩ => by
    simp only [stmt, List.append_assoc]
    exact free_append (free_keyword .importWord) (free_append (imports_spell isNames)
      (spells_of_free (free_append (free_quoted quotable) semicolon_spells)))
  | .binds _ name type value, ⟨isName, tidyType, tidyValue⟩ => by
    have quiet := quiet_append_quiet (initialiser_quiet level value) (quiet_of_starts (t := ";") rfl)
    have valued := spells_append (initialiser_spells level value tidyValue) (quiet_of_starts rfl)
      (spells_of_free semicolon_spells)
    simp only [stmt, List.append_assoc]
    exact free_append (free_keyword .letWord) (spells_append (spells_name isName)
      (quiet_append_quiet (quiet_typeSuffix type) quiet)
      (spells_append (typeSuffix_spells tidyType) quiet valued))
  | .block b, tidy => spells_of_free (block_spells level b tidy)
  | .branch _ condition yes no, ⟨tidyCondition, tidyYes, tidyNo⟩ => by
    have word : SpellsFreely (Text.ofString "if (") [.keyword .ifWord, .symbol .leftParen] :=
      free_append (free_keyword .ifWord) leftParen_spells
    have sides := free_append (block_spells level yes tidyYes) (otherwise_spells level no tidyNo)
    simp only [stmt, List.append_assoc]
    exact free_append word (spells_append (expr_spells level condition tidyCondition) (quiet_append rfl)
      (free_append closed_spells sides))
  | .select _ subject as fallback, ⟨tidySubject, tidyArms, tidyFallback⟩ => by
    have word : SpellsFreely (Text.ofString "match (") [.keyword .matchWord, .symbol .leftParen] :=
      free_append (free_keyword .matchWord) leftParen_spells
    have inside := free_append (arms_spell (level + 1) as tidyArms)
      (free_append (fallbackArm_spells (level + 1) fallback tidyFallback) (closeBrace_spells level))
    have behind := free_append closed_spells (free_append openBrace_spells inside)
    simp only [stmt, List.append_assoc]
    exact free_append word (spells_of_free
      (spells_append_free (expr_spells level subject tidySubject) rfl behind))
  | .each _ item iterable body, ⟨isName, tidyIterable, tidyBody⟩ => by
    have word : SpellsFreely (Text.ofString "foreach (") [.keyword .foreachWord, .symbol .leftParen] :=
      free_append (free_keyword .foreachWord) leftParen_spells
    have inWord : SpellsFreely (Text.ofString " in ") [.keyword .inWord] :=
      free_append free_space (free_keyword .inWord)
    have behind := spells_append_free (expr_spells level iterable tidyIterable) rfl
      (free_append closed_spells (block_spells level body tidyBody))
    simp only [stmt, List.append_assoc]
    exact free_append word (spells_append (spells_name isName) (quiet_append rfl)
      (spells_of_free (free_append inWord behind)))
  | .returns _ none, _ =>
    spells_of_free (spells_append_free (spells_keyword .returnWord) rfl semicolon_spells)
  | .returns _ (some e), tidy => by
    have value := spells_append_free (expr_spells level e tidy) rfl semicolon_spells
    simp only [stmt, List.append_assoc]
    exact spells_of_free (free_append (free_keyword .returnWord) value)
  | .does _ e, tidy =>
    spells_of_free (spells_append_free (expr_spells level e tidy) rfl semicolon_spells)
  | .declares d, tidy => spells_of_free (declaration_spells level d tidy)

theorem fields_spell (level : Nat) : ∀ fs : List Field, Field.TidyAll fs →
    SpellsFreely (fields level fs) (Field.shapesAll fs)
  | [], _ => free_nil
  | ⟨_, annotated, mods, name, type, init⟩ :: rest,
      ⟨⟨isWords, _, isName, tidyType, tidyInit⟩, tidyRest⟩ => by
    have ending : SpellsFreely (Text.ofString ";\n") [.symbol .semicolon] :=
      free_append semicolon_spells free_newline
    have more := free_append ending (fields_spell level rest tidyRest)
    have quiet : startsQuiet (initialiser level init ++ (Text.ofString ";\n" ++ fields level rest)) = true :=
      startsQuiet_append (initialiser_quiet level init) rfl
    have valued := spells_append_free (initialiser_spells level init tidyInit) rfl more
    have typed := spells_append_free (typeSuffix_spells tidyType) quiet valued
    have named := spells_append_free (spells_name isName)
      (startsQuiet_append (quiet_typeSuffix type) quiet) typed
    have whole := free_append (annotations_spell isWords) (free_append (modifiers_spell mods) named)
    simp only [fields, Field.shapesAll, Field.shapes, List.append_assoc, List.cons_append,
      List.nil_append] at whole ⊢
    exact blank_append (free_indentation level) whole

theorem methodBody_spells (level : Nat) : ∀ b : Option Block, Block.TidyOption b →
    SpellsFreely (methodBody level b) (Block.bodyShapes b)
  | none, _ => semicolon_spells
  | some b, tidy => blank_append free_space (block_spells level b tidy)

theorem methods_spell (level : Nat) (first : Bool) : ∀ ms : List Method, Method.TidyAll ms →
    SpellsFreely (methods level first ms) (Method.shapesAll ms)
  | [], _ => free_nil
  | ⟨mark, annotated, mods, name, isConstructor, tps, ps, result, body⟩ :: rest,
      ⟨⟨isWords, _, named, isNames, tidyParams, tidyResult, tidyBody⟩, tidyRest⟩ => by
    have gap : ∀ b : Bool, SpellsFreely (Text.ofString (if b then "\n" else "")) [] := by
      intro b
      cases b
      · exact free_nil
      · exact free_newline
    have head := methodHead_spells
      (m := ⟨mark, annotated, mods, name, isConstructor, tps, ps, result, body⟩) isWords named isNames
    have more := blank_append free_newline (methods_spell level false rest tidyRest)
    have behind := free_append (methodBody_spells level body tidyBody) more
    have quiet : startsQuiet (methodBody level body ++
        (Text.ofString "\n" ++ methods level false rest)) = true := by
      cases body <;> rfl
    have typed := free_append rightParen_spells (spells_append_free (typeSuffix_spells tidyResult) quiet behind)
    have inside := free_append leftParen_spells
      (spells_append_free (params_spell (params_each level ps tidyParams)) rfl typed)
    have whole := spells_append_free head rfl inside
    simp only [methods, method, Method.shapesAll, Method.shapes, List.append_assoc, List.cons_append,
      List.nil_append] at whole ⊢
    exact blank_append (gap _) (blank_append (free_indentation level) whole)

theorem declaration_spells (level : Nat) : ∀ d : Declaration, d.Tidy →
    SpellsFreely (declaration level d) d.shapes
  | ⟨mark, annotated, head, name, tps, fs, ms⟩,
      ⟨isWords, tidyHeading, isName, isNames, tidyFields, tidyMethods, _⟩ => by
    have headed := heading_spells (d := ⟨mark, annotated, head, name, tps, fs, ms⟩) tidyHeading isName isNames
    have opening : ∀ {t : Text} {s : List Shape}, SpellsFreely t s →
        SpellsFreely (Text.ofString (annotations annotated ++
          heading ⟨mark, annotated, head, name, tps, fs, ms⟩ ++ " ") ++ t)
          (annotationShapes annotated ++ (headingShapes head name tps ++ s)) := by
      intro t s rest
      rw [Text.ofString_append, Text.ofString_append, List.append_assoc, List.append_assoc]
      exact free_append (annotations_spell isWords)
        (spells_append_free headed rfl (blank_append free_space rest))
    have members := free_append openBrace_spells (free_append (fields_spell (level + 1) fs tidyFields)
      (free_append (methods_spell (level + 1) fs.isEmpty ms tidyMethods) (closeBrace_spells level)))
    simp only [declaration]
    split
    · next none =>
      rw [Bool.and_eq_true, List.isEmpty_iff, List.isEmpty_iff] at none
      obtain ⟨rfl, rfl⟩ := none
      exact opening emptyBraces_spells
    · simp only [List.append_assoc]
      exact opening members

end

theorem gap_spells (before : Option Stmt) (s : Stmt) :
    SpellsFreely (match before with
      | some b => if separates b s then Text.ofString "\n" else Text.ofString ""
      | none => Text.ofString "") [] := by
  cases before with
  | none => exact free_nil
  | some b =>
    dsimp only
    split
    · exact free_newline
    · exact free_nil

theorem toplevel_spells (before : Option Stmt) {ss : List Stmt} (tidy : Stmt.TidyAll ss) :
    SpellsFreely (toplevel before ss) (Stmt.shapesAll ss) := by
  induction ss generalizing before with
  | nil => exact free_nil
  | cons s ss ih =>
    have more := blank_append free_newline (ih (some s) tidy.2)
    simp only [toplevel, List.append_assoc]
    exact blank_append (gap_spells before s) (spells_append_free (stmt_spells 0 s tidy.1) rfl more)

end Layout

end ClassScript
