import ClassScript.Proofs.ReadBackPrograms

/-!
# The layout of a program reads as that program

A plain program that was read from a file is laid out as a text that reads as the same program up to
tokens and spans, or nests too deeply (`Program.layout_round_trip`). So laying it out again changes
nothing.
-/

namespace ClassScript

open Reader Lexer

namespace Grammar

section Programs

variable {g : Grammar} {n : Nat} (readsBack : g.ReadsBack n)
include readsBack

/-- Statements up to the end of the input. -/
theorem reads_statementsUpTo {ss : List Stmt} (tidy : Stmt.TidyAll ss)
    (small : (Stmt.shapesAll ss).length ≤ n) {r : List Shape} (ends : firstKind r = .endOfInput)
    (fuel : Nat) (enough : ss.length < fuel) :
    Reads (g.statementsUpTo fuel) (Stmt.shapesAll ss) r
      fun bs => Stmt.bareAll bs = Stmt.bareAll ss := by
  induction ss generalizing fuel with
  | nil =>
    obtain ⟨fuel, rfl⟩ : ∃ f, fuel = f + 1 := ⟨fuel - 1, by omega⟩
    refine reads_peekIs_bind ?_
    have finished : (firstKind (Stmt.shapesAll [] ++ r) == .endOfInput) = true := beq_iff_eq.2 ends
    rw [finished, if_pos rfl]
    exact reads_pure rfl
  | cons s ss ih =>
    obtain ⟨fuel, rfl⟩ : ∃ f, fuel = f + 1 := ⟨fuel - 1, by omega⟩
    rw [Stmt.shapesAll, List.length_append] at small
    rw [Stmt.shapesAll]
    refine reads_peekIs_bind ?_
    have more : (firstKind (s.shapes ++ Stmt.shapesAll ss ++ r) == .endOfInput) = false := by
      rw [List.append_assoc]
      exact beq_eq_false_iff_ne.2 (kind_ne_of_starts (Stmt.starts tidy.1 _) rfl)
    have noElse : firstKind (Stmt.shapesAll ss ++ r) ≠ .keyword .elseWord := by
      cases ss with
      | nil =>
        intro found
        rw [Stmt.shapesAll, List.nil_append, ends] at found
        cases found
      | cons s' ss =>
        rw [Stmt.shapesAll, List.append_assoc]
        exact kind_ne_of_starts (Stmt.starts tidy.2.1 _) rfl
    rw [more, if_neg Bool.false_ne_true]
    refine reads_bind (readsBack.statement s tidy.1 (by omega) 0 _ noElse) fun a same => ?_
    rw [List.length_cons] at enough
    refine reads_last_bind (ih tidy.2 (by omega) fuel (by omega)) fun bs all => reads_pure ?_
    rw [Stmt.bareAll, Stmt.bareAll, same, all]

theorem reads_program (file : String) {ss : List Stmt} (tidy : Stmt.TidyAll ss)
    (small : (Stmt.shapesAll ss).length ≤ n) {r : List Shape} (ends : firstKind r = .endOfInput) :
    Reads (g.program file) (Stmt.shapesAll ss) r fun p => p.bare = ⟨file, Stmt.bareAll ss, Span.none⟩ := by
  unfold program
  refine reads_peek_bind fun start _ => reads_get_bind fun c kinds => ?_
  have enough : ss.length < c.ahead.length + 1 := by
    have long := length_of_kinds kinds
    have filled : ∀ s ∈ ss, s.shapes ≠ [] :=
      fun s found => ne_nil_of_starts (Stmt.starts (Stmt.tidy_of_mem tidy s found)) rfl
    have each := length_le_flatten filled
    rw [← Stmt.shapesAll_eq] at each
    rw [List.length_append] at long
    omega
  refine reads_last_bind (reads_statementsUpTo readsBack tidy small ends _ enough) fun bs all => ?_
  dsimp only
  split
  · exact reads_pure (by rw [Program.bare, all])
  · exact reads_spanFrom_bind fun span => reads_pure (by rw [Program.bare, all])

end Programs

end Grammar

/-! ## Whole texts -/

/-- A whole text is scanned as the tokens of the shapes that it spells, and the end of the input. -/
theorem tokens_of_spells {ok : Text → Prop} {t : Text} {s : List Shape} (spells : SpellsBefore ok t s)
    (ends : ok []) :
    ∃ (ts : List Token) (last : Token), t.tokens = .ok (ts ++ [last]) ∧ (∀ front, Fit front ts s) ∧
      last.kind = .endOfInput ∧ ∀ t ∈ ts, t.kind ≠ .comment := by
  obtain ⟨ts, position, fit, noComment, scanned⟩ := spells.scans Position.start [] ends
  refine ⟨ts, endToken position, ?_, fit, rfl, noComment⟩
  rw [List.append_nil] at scanned
  rw [Text.tokens, scanned, scan]
  rfl

theorem Token.significant_of_noComment {ts : List Token} {last : Token} (ends : last.kind = .endOfInput)
    (noComment : ∀ t ∈ ts, t.kind ≠ .comment) : Token.significant (ts ++ [last]) = ts ++ [last] := by
  have kept : (ts ++ [last]).filter (fun t => t.kind != .comment) = ts ++ [last] := by
    refine List.filter_eq_self.2 fun t found => ?_
    rcases List.mem_append.1 found with early | late
    · exact bne_iff_ne.2 (noComment t early)
    · rw [List.mem_singleton.1 late, ends]
      rfl
  unfold Token.significant
  rw [kept]
  dsimp only
  rw [List.getLast?_concat]
  dsimp only
  rw [ends, beq_self_eq_true, if_pos rfl]

theorem Program.ofTokens_eq {file : String} {tokens : List Token}
    (significant : Token.significant tokens = tokens) :
    Program.ofTokens file tokens =
      match (Grammar.within (Grammar.bound tokens.length)).program file ⟨tokens.headD default, tokens⟩ with
      | .error (fault, span) => .error ⟨.syntactic, fault.code, fault.message, span, file⟩
      | .ok (program, _) => .ok program := by
  unfold Program.ofTokens
  rw [significant]
  rfl

/-- Tokens of the shapes of tidy statements are read as those statements, or the nesting is too deep. -/
theorem Program.ofTokens_shapes (file : String) {ss : List Stmt} (tidy : Stmt.TidyAll ss) {ts : List Token}
    {last : Token} (fit : ∀ front, Fit front ts (Stmt.shapesAll ss)) (ends : last.kind = .endOfInput)
    (noComment : ∀ t ∈ ts, t.kind ≠ .comment) :
    (∃ p, Program.ofTokens file (ts ++ [last]) = .ok p ∧ p.bare = ⟨file, Stmt.bareAll ss, Span.none⟩) ∨
      ∃ d, Program.ofTokens file (ts ++ [last]) = .error d ∧ d.code = "P006" := by
  have readsBack := Grammar.within_readsBack (Grammar.bound (ts ++ [last]).length)
  have small : (Stmt.shapesAll ss).length ≤ Grammar.bound (ts ++ [last]).length := by
    have same := Reader.length_of_kinds (fit_kinds (fit last))
    rw [← same, List.length_append, Grammar.bound]
    omega
  have reads := Grammar.reads_program readsBack file (r := [last.shape]) tidy small ends
  rw [Program.ofTokens_eq (Token.significant_of_noComment ends noComment)]
  rcases reads ts [last] _ (fit _) rfl (List.cons_ne_nil _ _) with ⟨p, run, same⟩ | ⟨-, span, deep⟩
  · exact .inl ⟨p, by rw [run], same⟩
  · exact .inr ⟨_, by rw [deep], rfl⟩

/-- The layout of a tidy program of a file reads as the same program up to tokens and spans, and then has
the same layout; or it nests too deeply. -/
theorem Program.ofSource_layout {file : String} {p : Program} (named : p.file = file) (tidy : p.Tidy) :
    (∃ p', Program.ofSource file p.layout.bytes.text = .ok p' ∧ p'.bare = p.bare ∧ p'.layout = p.layout) ∨
      ∃ d, Program.ofSource file p.layout.bytes.text = .error d ∧ d.code = "P006" := by
  have spells : SpellsFreely p.layout (Stmt.shapesAll p.statements) := Layout.toplevel_spells none tidy
  have settled : p.layout.bytes.text = p.layout := spells.solid.settled
  obtain ⟨ts, last, tokens, fit, ends, noComment⟩ := tokens_of_spells spells trivial
  have scanned : Program.ofSource file p.layout = Program.ofTokens file (ts ++ [last]) := by
    rw [Program.ofSource, Token.ofSource, tokens]
    rfl
  rw [settled, scanned]
  rcases Program.ofTokens_shapes file tidy fit ends noComment with ⟨p', run, same⟩ | deep
  · have bare : p'.bare = p.bare := by rw [same, Program.bare, named]
    exact .inl ⟨p', run, bare, by rw [← Program.layout_bare, bare, Program.layout_bare]⟩
  · exact .inr deep

/-- The layout of a plain program that was read from a file reads as the same program up to tokens and
spans, and then has the same layout; or it nests too deeply. -/
theorem Program.layout_round_trip {file : String} {source : Bytes} {p : Program}
    (read : Program.ofSource file source.text = .ok p) (plain : p.isPlain = true) :
    (∃ p', Program.ofSource file p.layout.bytes.text = .ok p' ∧ p'.bare = p.bare ∧ p'.layout = p.layout) ∨
      ∃ d, Program.ofSource file p.layout.bytes.text = .error d ∧ d.code = "P006" := by
  obtain ⟨named, tidy⟩ := Program.tidy_of_ofSource (Text.settled_ofBytes source) read
  exact Program.ofSource_layout named (tidy plain)

/-- A class with its method in front of its field and with more parentheses than it needs. -/
def scaleSource : Bytes :=
  Bytes.ofString "class Scale { by(x) { return ((x - 1) - (this.k - x)) * 2; } k = (a) -> (a); }"

theorem scaleSource_round_trip :
    ∃ p, Program.ofSource "scale" scaleSource.text = .ok p ∧ p.isPlain = true ∧
      ((∃ p', Program.ofSource "scale" p.layout.bytes.text = .ok p' ∧ p'.bare = p.bare ∧
          p'.layout = p.layout) ∨
        ∃ d, Program.ofSource "scale" p.layout.bytes.text = .error d ∧ d.code = "P006") := by
  have readable : (match Program.ofSource "scale" scaleSource.text with
      | .ok p => p.isPlain
      | .error _ => false) = true := by decide +kernel
  cases read : Program.ofSource "scale" scaleSource.text with
  | error d =>
    rw [read] at readable
    cases readable
  | ok p =>
    rw [read] at readable
    exact ⟨p, rfl, readable, Program.layout_round_trip read readable⟩

/-! ## Programs with markup -/

/-- The layout of a program that was read from a file and is clear in its layout, whatever markup it
holds, reads as the same program up to tokens and spans, and then has the same layout; or it nests too
deeply. -/
theorem Program.clear_layout_round_trip {file : String} {source : Bytes} {p : Program}
    (read : Program.ofSource file source.text = .ok p) (isClear : p.isClear = true) :
    (∃ p', Program.ofSource file p.layout.bytes.text = .ok p' ∧ p'.bare = p.bare ∧ p'.layout = p.layout) ∨
      ∃ d, Program.ofSource file p.layout.bytes.text = .error d ∧ d.code = "P006" := by
  obtain ⟨named, tidy⟩ := Program.tidy_of_clear (Text.settled_ofBytes source) read
  exact Program.ofSource_layout named (tidy isClear)

/-- A list in markup: an element in an element, attributes of both forms, texts with gaps and with
parentheses that match, a hole, and an element as an operand. -/
def menuSource : Bytes :=
  Bytes.ofString "let m = vdom <ul class=\"wide\"> a = b <li on={(x) -> (x)}>n (of 3): {k} !</li><br/>= </ul> == q;"

theorem menuSource_round_trip :
    ∃ p, Program.ofSource "menu" menuSource.text = .ok p ∧ p.isClear = true ∧ p.isPlain = false ∧
      ((∃ p', Program.ofSource "menu" p.layout.bytes.text = .ok p' ∧ p'.bare = p.bare ∧
          p'.layout = p.layout) ∨
        ∃ d, Program.ofSource "menu" p.layout.bytes.text = .error d ∧ d.code = "P006") := by
  have readable : (match Program.ofSource "menu" menuSource.text with
      | .ok p => p.isClear && !p.isPlain
      | .error _ => false) = true := by decide +kernel
  cases read : Program.ofSource "menu" menuSource.text with
  | error d =>
    rw [read] at readable
    cases readable
  | ok p =>
    rw [read] at readable
    obtain ⟨isClear, hasMarkup⟩ := Bool.and_eq_true_iff.1 readable
    exact ⟨p, rfl, isClear, (Bool.not_eq_true' _).mp hasMarkup, Program.clear_layout_round_trip read isClear⟩

/-- The source reads as a program, and the layout of the program does not read: it fails with `code`. -/
def LayoutFails (source : Bytes) (code : String) : Prop :=
  ∃ p d, Program.ofSource "main" source.text = .ok p ∧ p.isClear = false ∧
    Program.ofSource "main" p.layout.bytes.text = .error d ∧ d.code = code

/-- The code with which reading the layout of an unclear source fails. -/
def layoutFault? (source : Bytes) : Option String :=
  match Program.ofSource "main" source.text with
  | .error _ => none
  | .ok p =>
    match p.isClear, Program.ofSource "main" p.layout.bytes.text with
    | false, .error d => some d.code
    | _, _ => none

theorem layoutFails_of_fault {source : Bytes} {code : String} (fault : layoutFault? source = some code) :
    LayoutFails source code := by
  unfold layoutFault? at fault
  split at fault
  · cases fault
  · next p read =>
    split at fault
    · next d unclear again => exact ⟨p, d, read, unclear, again, Option.some.inj fault⟩
    · cases fault

/-- Where markup is not clear, its layout may not read: a text behind a tag starts with an equals sign, or
a text has a parenthesis that is taken for the one that the layout puts behind the operand. -/
theorem unclear_layout_fails :
    LayoutFails (Bytes.ofString "vdom <a> = b</a>;") "P001" ∧
      LayoutFails (Bytes.ofString "vdom <a>) : x</a> + 1;") "P001" :=
  ⟨layoutFails_of_fault (by decide +kernel), layoutFails_of_fault (by decide +kernel)⟩

end ClassScript
