import ClassScript.Token.Lexer

/-!
# What scanning finds

`Classified` has one case for each kind of token: which glyphs it starts with and how far it goes, and
`classify` finds a token exactly if one of the cases applies (`classify_iff`). `Scanned` follows the
scanner from token to token, so that what holds of every token is shown by induction on it
(`scanned_of_scan`).
-/

namespace ClassScript.Lexer

/-! ## Single tokens -/

/-- The class of the token that starts with a glyph, and how many of the glyphs behind it belong to it. -/
inductive Classified : Glyph → Text → TokenKind → Nat → Prop
  | word {g : Glyph} {rest : Text} (letter : isLetter g = true) :
    Classified g rest (.ofWord (Text.shown (g :: rest.take (run isWordPart rest)))) (run isWordPart rest)
  | number {g : Glyph} {rest : Text} (digit : isDigit g = true)
    (small : Token.decimal (g :: rest.take (run isDigit rest)) ≤ maxInteger) :
    Classified g rest .number (run isDigit rest)
  | quotation {rest : Text} : Classified (.char '"') rest .string (stringTail rest)
  | atName {h : Glyph} {rest : Text} (letter : isLetter h = true) :
    Classified (.char '@') (h :: rest) .atName (run isWordPart (h :: rest))
  | comment {rest : Text} :
    Classified (.char '/') (.char '/' :: rest) .comment (run (fun h => !h.is '\n') (.char '/' :: rest))
  | double {c d : Char} {s : Symbol} {rest : Text} (double : Symbol.double? c d = some s) :
    Classified (.char c) (.char d :: rest) (.symbol s) 1
  | single {c : Char} {s : Symbol} {rest : Text} (single : Symbol.single? c = some s)
    (alone : ∀ d, rest.head? = some (.char d) → Symbol.double? c d = none ∧ ¬ (c = '/' ∧ d = '/')) :
    Classified (.char c) rest (.symbol s) 0

theorem is_eq {c : Char} {g : Glyph} (same : g.is c = true) : g = .char c := by
  cases g with
  | char d => rw [beq_iff_eq.1 (show (d == c) = true from same)]
  | stray b => cases same

theorem isLetter_digit {g : Glyph} (digit : isDigit g = true) : ¬ isLetter g = true := by
  cases g with
  | stray b => cases digit
  | char c =>
    simp only [isDigit, Bool.and_eq_true, decide_eq_true_eq] at digit
    simp only [isLetter, Bool.or_eq_true, Bool.and_eq_true, decide_eq_true_eq, beq_iff_eq]
    have below : c.toNat ≤ 57 := digit.2
    rintro ((⟨small, _⟩ | ⟨capital, _⟩) | rfl)
    · have above : 97 ≤ c.toNat := small
      omega
    · have above : 65 ≤ c.toNat := capital
      omega
    · exact absurd below (by decide)

theorem double?_second {c d : Char} {s : Symbol} (double : Symbol.double? c d = some s) :
    d ≠ ' ' ∧ d ≠ '\uFFFD' := by
  unfold Symbol.double? at double
  split at double <;> first | decide | cases double

/-- What is shown of the next glyph tells it, unless it is a space or a replacement. -/
theorem next_char {rest : Text} {d : Char} (next : (rest.head?.map Glyph.shown).getD ' ' = d)
    (visible : d ≠ ' ' ∧ d ≠ '\uFFFD') : ∃ tail, rest = .char d :: tail := by
  cases rest with
  | nil => exact absurd next.symm visible.1
  | cons g tail =>
    cases g with
    | char c =>
      obtain rfl : c = d := next
      exact ⟨tail, rfl⟩
    | stray b => exact absurd next.symm visible.2

theorem classified_of_classify {g : Glyph} {rest : Text} {kind : TokenKind} {n : Nat}
    (found : classify g rest = (.ok kind, n)) : Classified g rest kind n := by
  unfold classify at found
  split at found
  · next letter =>
    cases found
    exact .word letter
  · split at found
    · next digit =>
      dsimp only at found
      split at found
      · next small =>
        cases found
        exact .number digit small
      · cases found
    · split at found
      · next quote =>
        cases found
        rw [is_eq quote]
        exact .quotation
      · split at found
        · next at_ =>
          rw [is_eq at_]
          split at found
          · split at found
            · next letter =>
              cases found
              exact .atName letter
            · cases found
          · cases found
        · dsimp only at found
          generalize next : (rest.head?.map Glyph.shown).getD ' ' = d at found
          split at found
          · next slashes =>
            cases found
            obtain ⟨slash, isSlash⟩ := Bool.and_eq_true_iff.1 slashes
            obtain rfl := beq_iff_eq.1 isSlash
            obtain ⟨tail, rfl⟩ := next_char next (by decide)
            rw [is_eq slash]
            exact .comment
          · next noSlashes =>
            split at found
            · cases found
            · split at found
              · next s double =>
                cases found
                obtain ⟨tail, rfl⟩ := next_char next (double?_second double)
                exact .double double
              · next none =>
                split at found
                · next s single =>
                  cases found
                  refine .single single fun d' first => ?_
                  rw [first] at next
                  obtain rfl : d' = d := next
                  refine ⟨none, ?_⟩
                  rintro ⟨rfl, rfl⟩
                  exact noSlashes rfl
                · cases found

theorem classify_of_classified {g : Glyph} {rest : Text} {kind : TokenKind} {n : Nat}
    (classified : Classified g rest kind n) : classify g rest = (.ok kind, n) := by
  cases classified with
  | word letter =>
    unfold classify
    rw [if_pos letter]
  | number digit small =>
    unfold classify
    rw [if_neg (isLetter_digit digit), if_pos digit]
    dsimp only
    rw [if_pos small]
  | quotation => rfl
  | @atName h rest letter =>
    have unfolded : classify (.char '@') (h :: rest) =
        if isLetter h then (.ok .atName, run isWordPart (h :: rest)) else (.error .annotationName, 0) := rfl
    rw [unfolded, if_pos letter]
  | comment => rfl
  | double double =>
    unfold Symbol.double? at double
    split at double <;> cases double <;> rfl
  | @single c s rest single alone =>
    obtain ⟨noLetter, noDigit, noQuote, noAt⟩ : isLetter (.char c) = false ∧ isDigit (.char c) = false ∧
        c ≠ '"' ∧ c ≠ '@' := by
      unfold Symbol.single? at single
      split at single <;> first | decide | cases single
    generalize next : (rest.head?.map Glyph.shown).getD ' ' = d
    have noDouble : Symbol.double? c d = none := by
      refine Option.eq_none_iff_forall_ne_some.2 fun s double => ?_
      obtain ⟨tail, rfl⟩ := next_char next (double?_second double)
      rw [(alone d rfl).1] at double
      cases double
    have noSlashes : ¬ (c = '/' ∧ d = '/') := by
      rintro ⟨slash, rfl⟩
      obtain ⟨tail, rfl⟩ := next_char next (by decide)
      exact (alone '/' rfl).2 ⟨slash, rfl⟩
    simp [classify, noLetter, noDigit, Glyph.is, noQuote, noAt, next, noSlashes, noDouble, single]

theorem classify_iff {g : Glyph} {rest : Text} {kind : TokenKind} {n : Nat} :
    classify g rest = (.ok kind, n) ↔ Classified g rest kind n :=
  ⟨classified_of_classify, classify_of_classified⟩

theorem run_le (p : Glyph → Bool) (t : Text) : run p t ≤ t.length := (List.takeWhile_prefix p).length_le

/-- A token takes no more than there is. -/
theorem Classified.le {g : Glyph} {rest : Text} {kind : TokenKind} {n : Nat}
    (classified : Classified g rest kind n) : n ≤ rest.length := by
  cases classified with
  | word | number | atName | comment => exact run_le _ _
  | quotation => exact Nat.min_le_right _ _
  | double => exact Nat.succ_pos _
  | single => exact Nat.zero_le _

/-! ## Tokens in front of another text -/

theorem run_append_iff {p : Glyph → Bool} {tail rest : Text} :
    run p (tail ++ rest) = tail.length ↔ (∀ g ∈ tail, p g = true) ∧ ∀ h, rest.head? = some h → p h = false := by
  induction tail with
  | nil =>
    cases rest with
    | nil => simp [run]
    | cons h rest => cases holds : p h <;> simp [run, holds]
  | cons g tail ih => cases holds : p g <;> simp_all [run]

/-- A run that ends early ends there whatever follows. -/
theorem run_of_lt {p : Glyph → Bool} {tail rest : Text} (rest' : Text) (early : run p (tail ++ rest) < tail.length) :
    run p (tail ++ rest') = run p (tail ++ rest) := by
  unfold run at early ⊢
  rw [List.takeWhile_append] at early ⊢
  split at early
  · rw [List.length_append] at early
    omega
  · next ends => rw [if_neg ends, List.takeWhile_append, if_neg ends]

/-- The glyphs that no token but a comment goes on with: blanks, a semicolon, and what starts a tag or a hole. -/
def isBreak (h : Glyph) : Bool := isSpace h || h.is ';' || h.is '<' || h.is '\x7b'

/-- What may follow a token in place of what followed it: nothing, the same glyph, a line feed, or a break unless the token
is a comment. A string that ran to the end of the text stays there. -/
def MayFollow (kind : TokenKind) (rest rest' : Text) : Prop :=
  (∀ h, rest'.head? = some h → rest.head? = some h ∨ h = .char '\n' ∨ isBreak h = true ∧ kind ≠ .comment) ∧
    (kind = .string → rest = [] → rest' = [])

theorem isBreak_cases {h : Glyph} (breaks : isBreak h = true) : h = .char ' ' ∨ h = .char '\t' ∨ h = .char '\n' ∨
    h = .char '\r' ∨ h = .char ';' ∨ h = .char '<' ∨ h = .char '\x7b' := by
  simp only [isBreak, isSpace, Bool.or_eq_true] at breaks
  rcases breaks with ((((((h | h) | h) | h) | h) | h) | h) <;> simp [is_eq h]

theorem isWordPart_break {h : Glyph} (breaks : isBreak h = true) : isWordPart h = false := by
  rcases isBreak_cases breaks with rfl | rfl | rfl | rfl | rfl | rfl | rfl <;> rfl

theorem isDigit_break {h : Glyph} (breaks : isBreak h = true) : isDigit h = false :=
  (Bool.or_eq_false_iff.1 (isWordPart_break breaks)).2

/-- A break is never the second glyph of an operator, nor of a comment. -/
theorem alone_of_break {c d : Char} (breaks : isBreak (.char d) = true) :
    Symbol.double? c d = none ∧ ¬ (c = '/' ∧ d = '/') := by
  refine ⟨?_, by rintro ⟨-, rfl⟩; cases breaks⟩
  rw [Option.eq_none_iff_forall_ne_some]
  intro s double
  unfold Symbol.double? at double
  split at double <;> first | cases breaks | cases double

theorem MayFollow.run {kind : TokenKind} {p : Glyph → Bool} {tail rest rest' : Text} (follows : MayFollow kind rest rest')
    (feed : p (.char '\n') = false) (ends : kind = .comment ∨ ∀ {h}, isBreak h = true → p h = false)
    (found : run p (tail ++ rest) = tail.length) : run p (tail ++ rest') = tail.length := by
  obtain ⟨all, stops⟩ := run_append_iff.1 found
  refine run_append_iff.2 ⟨all, fun h first => ?_⟩
  rcases follows.1 h first with same | rfl | ⟨breaks, noComment⟩
  · exact stops h same
  · exact feed
  · exact ends.resolve_left noComment breaks

theorem MayFollow.stringTail {rest rest' tail : Text} (follows : MayFollow .string rest rest')
    (found : stringTail (tail ++ rest) = tail.length) : stringTail (tail ++ rest') = tail.length := by
  by_cases none : rest = []
  · rwa [follows.2 rfl none, ← none]
  · have positive := List.length_pos_iff.2 none
    unfold Lexer.stringTail at found ⊢
    dsimp only at found ⊢
    rw [List.length_append] at found ⊢
    have closed : Lexer.run (fun g => !g.is '"') (tail ++ rest) + 1 = tail.length := by omega
    have early : Lexer.run (fun g => !g.is '"') (tail ++ rest) < tail.length := by omega
    rw [run_of_lt rest' early, closed]
    omega

/-- A token is found again in front of what may follow it. -/
theorem Classified.again {g : Glyph} {tail rest rest' : Text} {kind : TokenKind}
    (classified : Classified g (tail ++ rest) kind tail.length) (follows : MayFollow kind rest rest') :
    Classified g (tail ++ rest') kind tail.length := by
  generalize whole : tail ++ rest = t at classified
  generalize len : tail.length = n at classified
  cases classified with
  | word letter =>
    subst whole
    have again := follows.run rfl (.inr isWordPart_break) len.symm
    have word : Classified g (tail ++ rest') _ _ := .word letter
    rw [again, List.take_left] at word
    rw [← len, List.take_left]
    exact word
  | number digit small =>
    subst whole
    have again := follows.run rfl (.inr isDigit_break) len.symm
    rw [← len, List.take_left] at small
    have number : Classified g (tail ++ rest') _ _ := .number digit (by rwa [again, List.take_left])
    rw [again] at number
    rw [← len]
    exact number
  | quotation =>
    subst whole
    have quotation : Classified _ (tail ++ rest') _ _ := .quotation
    rw [follows.stringTail len.symm] at quotation
    rw [← len]
    exact quotation
  | @atName h rest₀ letter =>
    have part : isWordPart h = true := by rw [isWordPart, letter, Bool.true_or]
    obtain ⟨tail', rfl⟩ : ∃ tail', tail = h :: tail' := by
      cases tail with
      | nil => simp [run, part] at len
      | cons g tail' => exact ⟨tail', by rw [(List.cons.inj whole).1]⟩
    rw [← whole] at len
    have atName : Classified _ (h :: (tail' ++ rest')) _ _ := .atName letter
    rw [← whole, ← len]
    rw [show run isWordPart (h :: (tail' ++ rest')) = (h :: tail').length from
      follows.run rfl (.inr isWordPart_break) len.symm] at atName
    exact atName
  | @comment rest₀ =>
    obtain ⟨tail', rfl⟩ : ∃ tail', tail = .char '/' :: tail' := by
      cases tail with
      | nil => simp [run, Glyph.is] at len
      | cons g tail' => exact ⟨tail', by rw [(List.cons.inj whole).1]⟩
    rw [← whole] at len
    have comment : Classified _ (.char '/' :: (tail' ++ rest')) _ _ := .comment
    rw [← whole, ← len]
    rw [show run (fun h => !h.is '\n') (.char '/' :: (tail' ++ rest')) = (Glyph.char '/' :: tail').length from
      follows.run rfl (.inl rfl) len.symm] at comment
    exact comment
  | @double c d s rest₀ double =>
    obtain ⟨e, rfl⟩ := List.length_eq_one_iff.1 len
    cases whole
    exact .double double
  | @single c s _ single alone =>
    cases List.length_eq_zero_iff.1 len
    subst whole
    refine .single single fun d first => ?_
    rcases follows.1 _ first with same | feed | ⟨breaks, -⟩
    · exact alone d same
    · cases feed
      exact alone_of_break rfl
    · exact alone_of_break breaks

/-! ## All tokens -/

/-- The tokens of a text that stands at a position, one after the other. -/
inductive Scanned : Position → Text → List Token → Prop
  | done {p : Position} : Scanned p [] [endToken p]
  | space {p : Position} {g : Glyph} {rest : Text} {tokens : List Token} (blank : isSpace g = true)
    (more : Scanned (p.step g) rest tokens) : Scanned p (g :: rest) tokens
  | token {p : Position} {g : Glyph} {tail rest : Text} {kind : TokenKind} {tokens : List Token}
    (visible : isSpace g = false) (classified : Classified g (tail ++ rest) kind tail.length)
    (more : Scanned (p.after (g :: tail)) rest tokens) :
    Scanned p (g :: (tail ++ rest)) (⟨kind, g :: tail, .between p (p.after (g :: tail))⟩ :: tokens)

theorem scanned_of_scan {p : Position} {t : Text} {tokens : List Token} (scanned : scan p t = .ok tokens) :
    Scanned p t tokens := by
  induction len : t.length using Nat.strongRecOn generalizing p t tokens with
  | ind _ ih =>
    subst len
    cases t with
    | nil =>
      rw [scan] at scanned
      cases scanned
      exact .done
    | cons g rest =>
      rw [scan] at scanned
      split at scanned
      · next blank => exact .space blank (ih rest.length (Nat.lt_succ_self _) scanned rfl)
      · next visible =>
        generalize verdict : classify g rest = v at scanned
        obtain ⟨result, n⟩ := v
        cases result with
        | error fault => cases scanned
        | ok kind =>
          dsimp only at scanned
          cases more : scan (p.after (g :: rest.take n)) (rest.drop n) with
          | error fault =>
            rw [more] at scanned
            cases scanned
          | ok tokens' =>
            rw [more] at scanned
            cases scanned
            have shorter : (rest.drop n).length < (g :: rest).length := by
              rw [List.length_drop, List.length_cons]
              omega
            have followed := ih _ shorter more rfl
            have classified := classified_of_classify verdict
            have length : (rest.take n).length = n := List.length_take_of_le classified.le
            obtain ⟨tail, behind, isTail, isBehind⟩ : ∃ tail behind, rest.take n = tail ∧ rest.drop n = behind :=
              ⟨_, _, rfl, rfl⟩
            have split : rest = tail ++ behind := by rw [← isTail, ← isBehind, List.take_append_drop]
            rw [isTail] at length followed ⊢
            rw [isBehind] at followed
            subst split length
            exact .token (Bool.eq_false_iff.2 visible) classified followed

end ClassScript.Lexer
