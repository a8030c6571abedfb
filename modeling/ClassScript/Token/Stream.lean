import ClassScript.Token

/-!
A cursor over a finished list of tokens. Comments are left out, and the list always ends with an
end-of-input token, on which the cursor comes to rest.
-/

namespace ClassScript

/-- The tokens of a text without its comments, closed by an end-of-input token. A missing one is
placed behind the last token. -/
def Token.significant (tokens : List Token) : List Token :=
  let kept := tokens.filter fun t => t.kind != .comment
  match kept.getLast? with
  | none => [⟨.endOfInput, [], Span.none⟩]
  | some last =>
    if last.kind == .endOfInput then kept
    else
      let s := last.span
      kept ++ [⟨.endOfInput, [], ⟨s.stop, s.stop, s.line, s.column + (s.stop - s.start)⟩⟩]

theorem Token.significant_ne_nil (tokens : List Token) : Token.significant tokens ≠ [] := by
  unfold Token.significant
  dsimp only
  split
  · simp
  · next last h =>
    split
    · intro e; rw [e] at h; cases h
    · simp

/-- A cursor over tokens. -/
structure TokenStream where
  tokens : List Token
  position : Nat

namespace TokenStream

/-- A stream at the first significant token. -/
def ofTokens (tokens : List Token) : TokenStream := ⟨Token.significant tokens, 0⟩

/-- The token at an index; past the end it is the last token. -/
def tokenAt (s : TokenStream) (i : Nat) : Token :=
  (s.tokens[i]?).getD (s.tokens.getLast?.getD default)

/-- The next `n` tokens without moving; a negative count is refused. -/
def peek (s : TokenStream) (n : Int) : Option (List Token) :=
  if n < 0 then none else some ((s.tokens.drop s.position).take n.toNat)

/-- The token some places ahead; a place before the first token is refused. -/
def ahead (s : TokenStream) (offset : Int) : Option Token :=
  let i := (s.position : Int) + offset
  if i < 0 then none else some (s.tokenAt i.toNat)

/-- Takes the current token and moves on; the last token is never left. -/
def next (s : TokenStream) : Token × TokenStream :=
  let moved := if s.position + 1 < s.tokens.length then s.position + 1 else s.position
  (s.tokenAt s.position, { s with position := moved })

/-- Moves to an index, or to the nearest end when there is no such token. -/
def seek (s : TokenStream) (i : Int) : TokenStream :=
  { s with position := min i.toNat (s.tokens.length - 1) }

/-- The number of tokens. -/
def size (s : TokenStream) : Nat := s.tokens.length

end TokenStream

end ClassScript
