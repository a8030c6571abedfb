import ClassScript.Proofs.Echoes
import ClassScript.Proofs.Progress

/-!
# Looking ahead

A place in a stream of tokens is a cursor (`Standing.cursor`), and to go on there is to take the token ahead
(`Standing.next_cursor`). Whether a lambda starts with a parenthesis is found out by walking to the one that closes it
and going back. The walk comes to an end, it answers what `Grammar.lambdaAhead` answers of the tokens ahead, and
going back leads exactly to the place where it began (`Standing.looks_ahead`).
-/

namespace ClassScript

/-- A place in a stream: the current token with the ones before and behind it. The stream has come to the one behind. -/
structure Standing where
  stream : TokenStream
  previous : Token
  current : Token
  upcoming : Token

/-- Only the end of the input has no number of open parentheses behind it. -/
theorem Shape.open?_eq_none {depth : Nat} {k : Shape} (closed : k.open? (depth + 1) = none) : k.kind = .endOfInput := by
  unfold open? at closed
  split at closed
  · cases closed
  · rw [if_neg (Nat.succ_ne_zero depth)] at closed
    cases closed
  · next atEnd => exact atEnd
  · cases closed

namespace Standing

/-- The cursor that has taken the current token. -/
def cursor (s : Standing) : Cursor := ⟨s.current, s.stream.tokens.drop s.stream.position⟩

/-- The next token of the stream becomes the current one. -/
def advance (s : Standing) : Standing :=
  let (t, stream) := s.stream.next
  ⟨stream, s.current, t, stream.tokenAt stream.position⟩

/-- Back to a place, on the same tokens. -/
def reset (s place : Standing) : Standing :=
  ⟨s.stream.seek place.stream.position, place.previous, place.current, place.upcoming⟩

/-- Walks to the parenthesis that closes `depth` open ones, or to the end of the input, and says whether an arrow or a
colon follows the parenthesis. There is no answer if that takes more than `fuel` steps. -/
def walk : Nat → Nat → Standing → Option (Bool × Standing)
  | _, 0, s => some (s.upcoming.kind == .symbol .arrow || s.upcoming.kind == .symbol .colon, s)
  | 0, _ + 1, _ => none
  | fuel + 1, depth + 1, s =>
    match s.advance.current.kind with
    | .symbol .leftParen => walk fuel (depth + 2) s.advance
    | .symbol .rightParen => walk fuel depth s.advance
    | .endOfInput => some (false, s.advance)
    | _ => walk fuel (depth + 1) s.advance

/-- Whether a lambda starts with the current token, an opening parenthesis. -/
def lookAhead (s : Standing) : Option (Bool × Standing) :=
  (walk s.stream.size 1 s).map fun (answer, walked) => (answer, walked.reset s)

variable {s : Standing}

/-- In front of at least two tokens the first is taken. -/
theorem advance_ahead {t u : Token} {rest : List Token} (ahead : s.cursor.ahead = t :: u :: rest) :
    s.advance.current = t ∧ s.advance.upcoming = u ∧ s.advance.cursor.ahead = u :: rest := by
  have more : s.stream.position + 1 < s.stream.tokens.length := by
    have length := congrArg List.length ahead
    simp only [cursor, List.length_drop, List.length_cons] at length
    omega
  have moved : s.advance.stream.position = s.stream.position + 1 := if_pos more
  have behind : s.stream.tokens.drop (s.stream.position + 1) = u :: rest := by
    rw [← List.drop_drop, show s.stream.tokens.drop s.stream.position = _ from ahead]
    rfl
  refine ⟨?_, ?_, ?_⟩
  · change (s.stream.tokens[s.stream.position]?).getD _ = t
    rw [← List.head?_drop, show s.stream.tokens.drop s.stream.position = _ from ahead]
    rfl
  · change (s.stream.tokens[s.advance.stream.position]?).getD _ = u
    rw [moved, ← List.head?_drop, behind]
    rfl
  · change s.stream.tokens.drop s.advance.stream.position = u :: rest
    rw [moved, behind]

/-- In front of the last token the place stays. -/
theorem advance_last {t : Token} (ahead : s.cursor.ahead = [t]) :
    s.advance.current = t ∧ s.advance.cursor.ahead = [t] := by
  have none : ¬ s.stream.position + 1 < s.stream.tokens.length := by
    have length := congrArg List.length ahead
    simp only [cursor, List.length_drop, List.length_cons, List.length_nil] at length
    omega
  refine ⟨?_, ?_⟩
  · change (s.stream.tokens[s.stream.position]?).getD _ = t
    rw [← List.head?_drop, show s.stream.tokens.drop s.stream.position = _ from ahead]
    rfl
  · change s.stream.tokens.drop (if _ then _ else s.stream.position) = [t]
    rw [if_neg none]
    exact ahead

/-- To go on in the stream is to take the token ahead. -/
theorem next_cursor (inside : s.stream.position < s.stream.tokens.length) :
    Reader.next s.cursor = .ok (s.advance.current, s.advance.cursor) := by
  have some : s.cursor.ahead ≠ [] := fun none => Nat.not_le.2 inside (List.drop_eq_nil_iff.1 none)
  match ahead : s.cursor.ahead with
  | [] => exact absurd ahead some
  | [t] =>
    obtain ⟨current, stays⟩ := advance_last ahead
    have taken : Reader.next s.cursor = .ok (t, ⟨t, [t]⟩) := by
      rw [show s.cursor = ⟨s.current, [t]⟩ from congrArg (Cursor.mk _) ahead]
      rfl
    rw [taken, ← current, show s.advance.cursor = ⟨_, _⟩ from congrArg (Cursor.mk _) stays, current]
  | t :: u :: rest =>
    obtain ⟨current, -, behind⟩ := advance_ahead ahead
    have taken : Reader.next s.cursor = .ok (t, ⟨t, u :: rest⟩) := by
      rw [show s.cursor = ⟨s.current, t :: u :: rest⟩ from congrArg (Cursor.mk _) ahead]
      rfl
    rw [taken, ← current, show s.advance.cursor = ⟨_, _⟩ from congrArg (Cursor.mk _) behind, current]

/-- A step of the walk counts the parentheses that are open. -/
theorem walk_step {fuel depth next : Nat} (turns : s.advance.current.shape.open? (depth + 1) = some next) :
    walk (fuel + 1) (depth + 1) s = walk fuel next s.advance := by
  rw [walk]
  obtain ⟨isLeft, rfl⟩ | ⟨isRight, same⟩ | ⟨noLeft, noRight, noEnd, rfl⟩ := Shape.open?_cases turns
  · rw [show s.advance.current.kind = _ from isLeft]
  · rw [show s.advance.current.kind = _ from isRight, Nat.succ.inj same]
  · split
    · contradiction
    · contradiction
    · contradiction
    · rfl

/-- At the end of the input there is no lambda. -/
theorem walk_end {fuel depth : Nat} {t : Token} (ts : List Token) (current : s.advance.current = t)
    (atEnd : t.kind = .endOfInput) :
    walk (fuel + 1) (depth + 1) s = some (Grammar.lambdaAhead (depth + 1) (t :: ts), s.advance) := by
  rw [walk, Grammar.lambdaAhead.eq_def, current]
  dsimp only
  rw [atEnd]

/-- The walk ends if it has as many steps as there are tokens ahead. -/
theorem walk_eq (fuel depth : Nat) (opened : s.cursor.Open) (few : s.cursor.ahead.length ≤ fuel) :
    ∃ walked, walk fuel (depth + 1) s = some (Grammar.lambdaAhead (depth + 1) s.cursor.ahead, walked) ∧
      walked.stream.tokens = s.stream.tokens := by
  induction fuel generalizing s depth with
  | zero => exact absurd (List.length_eq_zero_iff.1 (Nat.le_zero.1 few)) opened.ahead_ne_nil
  | succ fuel ih =>
    match ahead : s.cursor.ahead with
    | [] => exact absurd ahead opened.ahead_ne_nil
    | [t] =>
      have atEnd : t.kind = .endOfInput := by
        rw [Cursor.Open, ahead] at opened
        exact Option.some.inj opened
      exact ⟨s.advance, walk_end [] (advance_last ahead).1 atEnd, rfl⟩
    | t :: u :: rest =>
      obtain ⟨current, upcoming, behind⟩ := advance_ahead ahead
      have openedBehind : s.advance.cursor.Open := by
        rw [Cursor.Open, ahead, List.getLast?_cons_cons] at opened
        rwa [Cursor.Open, behind]
      have fewBehind : s.advance.cursor.ahead.length ≤ fuel := by
        rw [ahead] at few
        rw [behind]
        exact Nat.le_of_succ_le_succ few
      have walks (depth : Nat) := ih depth openedBehind fewBehind
      rw [behind] at walks
      cases turns : t.shape.open? (depth + 1) with
      | none => exact ⟨s.advance, walk_end (u :: rest) current (Shape.open?_eq_none turns), rfl⟩
      | some next =>
        rw [walk_step (current ▸ turns)]
        cases next with
        | succ next =>
          rw [lambdaAhead_cons turns (Nat.succ_pos next)]
          exact walks next
        | zero =>
          obtain ⟨-, none⟩ | ⟨isRight, same⟩ | ⟨-, -, -, none⟩ := Shape.open?_cases turns
          · cases none
          · rw [Nat.succ.inj same, lambdaAhead_closed isRight rest, walk, upcoming]
            exact ⟨s.advance, rfl, rfl⟩
          · cases none

/-- Looking ahead has an answer, and leads back to where it began. -/
theorem looks_ahead (opened : s.cursor.Open) :
    s.lookAhead = some (Grammar.lambdaAhead 1 s.cursor.ahead, s) := by
  obtain ⟨walked, answers, same⟩ := walk_eq s.stream.size 0 opened (by
    simp only [cursor, List.length_drop, TokenStream.size]
    omega)
  have inside : s.stream.position < s.stream.tokens.length :=
    Nat.lt_of_not_le fun behind => opened.ahead_ne_nil (List.drop_eq_nil_iff.2 behind)
  have back : walked.reset s = s := by
    unfold reset TokenStream.seek
    rw [same, Int.toNat_natCast, Nat.min_eq_left (by omega)]
  rw [lookAhead, answers, Option.map_some]
  exact congrArg (fun place => some (Grammar.lambdaAhead 1 s.cursor.ahead, place)) back

end Standing

end ClassScript
