import ClassScript.Proofs.Endings

/-!
# Two readers in step

At the end of its input, a reader may have read only the beginning of what a longer input says. So two readers are
compared on tokens that look alike as far as the first input goes (`Cursor.Alike`): what both of them read looks alike,
and they stand in front of alike tokens again, unless the first one has parted from the second (`Reader.Accords`). It
parts at the end of its input, or in front of an arrow or a colon that would make a lambda of the parentheses before it
(`Parting`). Nothing is said where one of them fails, so it does not matter how deeply they may nest. There is one rule
for each way to put readers together.
-/

namespace ClassScript

/-! ## Cursors -/

/-- Two tokens that look alike, the first of them `offset` bytes further on. -/
structure Token.Alike (offset : Nat) (t t' : Token) : Prop where
  shape : t'.shape = t.shape
  start : t.span.start = t'.span.start + offset
  stop : t.span.stop = t'.span.stop + offset

/-- Up to the end of their input, the first tokens are alike those that the second ones begin with. -/
inductive Token.Leads (offset : Nat) : List Token → List Token → Prop
  | ending {eof u : Token} {more : List Token} : eof.kind = .endOfInput → Leads offset [eof] (u :: more)
  | token {t t' : Token} {ts ts' : List Token} : t.Alike offset t' → t.kind ≠ .endOfInput → Leads offset ts ts' →
    Leads offset (t :: ts) (t' :: ts')

theorem Token.kind_of_shape {t t' : Token} (same : t'.shape = t.shape) : t'.kind = t.kind := congrArg Shape.kind same

theorem Token.Leads.length_le {offset : Nat} {ts ts' : List Token} (leads : Token.Leads offset ts ts') :
    0 < ts.length ∧ ts.length ≤ ts'.length := by
  induction leads with
  | ending => exact ⟨Nat.one_pos, Nat.succ_le_succ (Nat.zero_le _)⟩
  | token _ _ _ ih => exact ⟨Nat.succ_pos _, Nat.succ_le_succ ih.2⟩

namespace Cursor

/-- Only the end of the input is ahead. -/
def AtEnd (c : Cursor) : Prop := ∃ eof, c.ahead = [eof] ∧ eof.kind = .endOfInput

/-- Two cursors on tokens that are alike up to the end of the first input. -/
structure Alike (offset : Nat) (c c' : Cursor) : Prop where
  last : c.last.Alike offset c'.last
  ahead : Token.Leads offset c.ahead c'.ahead

variable {offset : Nat} {c c' : Cursor}

theorem AtEnd.kind (atEnd : c.AtEnd) : c.head.kind = .endOfInput := by
  obtain ⟨eof, ahead, isEnd⟩ := atEnd
  rw [Reader.head_eq ahead, isEnd]

/-- The end of the input stays ahead. -/
theorem AtEnd.next {t : Token} {c₁ : Cursor} (atEnd : c.AtEnd) (run : Reader.next c = .ok (t, c₁)) : c₁.AtEnd := by
  obtain ⟨last, ahead⟩ := c
  obtain ⟨eof, rfl, isEnd⟩ := atEnd
  cases run
  exact ⟨t, rfl, isEnd⟩

/-- Cursors that are alike take alike tokens, unless the first is at the end. -/
theorem Alike.step (alike : c.Alike offset c') : c.AtEnd ∨ c.head.kind ≠ .endOfInput ∧ c.head.Alike offset c'.head ∧
    ∃ mid mid', Reader.next c = .ok (c.head, mid) ∧ Reader.next c' = .ok (c'.head, mid') ∧ mid.Alike offset mid' ∧
      mid.ahead.length + 1 = c.ahead.length := by
  obtain ⟨last, ahead⟩ := c
  obtain ⟨last', ahead'⟩ := c'
  obtain ⟨-, leads⟩ := alike
  cases leads with
  | ending isEnd => exact .inl ⟨_, rfl, isEnd⟩
  | @token t t' ts ts' same inside leads =>
    obtain ⟨some, le⟩ := leads.length_le
    obtain ⟨u, us, rfl⟩ := List.exists_cons_of_ne_nil (List.length_pos_iff.1 some)
    obtain ⟨u', us', rfl⟩ := List.exists_cons_of_ne_nil (List.length_pos_iff.1 (Nat.lt_of_lt_of_le some le))
    exact .inr ⟨inside, same, ⟨t, u :: us⟩, ⟨t', u' :: us'⟩, rfl, rfl, ⟨same, leads⟩, rfl⟩

/-- In front of the end of the first input, both have the same token ahead and stay alike behind it. -/
theorem Alike.taken (alike : c.Alike offset c') (inside : c.head.kind ≠ .endOfInput) :
    c'.head.kind = c.head.kind ∧ ∀ {t t' : Token} {mid mid' : Cursor}, Reader.next c = .ok (t, mid) →
      Reader.next c' = .ok (t', mid') → mid.Alike offset mid' := by
  obtain atEnd | ⟨-, same, _, _, took, took', alike, -⟩ := alike.step
  · exact absurd atEnd.kind inside
  · refine ⟨Token.kind_of_shape same.shape, fun taken taken' => ?_⟩
    cases took.symm.trans taken
    cases took'.symm.trans taken'
    exact alike

end Cursor

/-! ## Partings -/

/-- Where the first of two readers no longer goes the way of the second. -/
inductive Parting where
  | never
  | ending
  | stray

namespace Parting

/-- How often a reader parts in this way. -/
def rank : Parting → Nat
  | never => 0
  | ending => 1
  | stray => 2

instance : LE Parting := ⟨fun a e => a.rank ≤ e.rank⟩

instance (a e : Parting) : Decidable (a ≤ e) := inferInstanceAs (Decidable (a.rank ≤ e.rank))

/-- The cursor stands where a reader parts. -/
def Holds : Parting → Cursor → Prop
  | never, _ => False
  | ending, c => c.AtEnd
  | stray, c => c.AtEnd ∨ c.head.kind.isArrow = true

/-- A kind of token that is ahead where a reader parts. -/
def meets : Parting → TokenKind → Bool
  | never, _ => false
  | ending, k => k == .endOfInput
  | stray, k => k == .endOfInput || k.isArrow

variable {a e : Parting} {c : Cursor}

theorem never_le (e : Parting) : never ≤ e := Nat.zero_le _

theorem Holds.mono (le : a ≤ e) (holds : a.Holds c) : e.Holds c := by
  cases a with
  | never => exact holds.elim
  | ending =>
    cases e with
    | never => exact absurd le (by decide)
    | ending => exact holds
    | stray => exact .inl holds
  | stray =>
    cases e with
    | never | ending => exact absurd le (by decide)
    | stray => exact holds

theorem Holds.meets (holds : a.Holds c) : a.meets c.head.kind = true := by
  cases a with
  | never => exact holds.elim
  | ending => exact beq_iff_eq.2 (Cursor.AtEnd.kind holds)
  | stray => exact Bool.or_eq_true_iff.2 (holds.imp (fun atEnd => beq_iff_eq.2 atEnd.kind) id)

/-- Where a reader parts, no token of another kind is ahead. -/
theorem Holds.other {k : TokenKind} (holds : a.Holds c) (apart : a.meets k = false) : c.head.kind ≠ k := by
  rintro rfl
  rw [holds.meets] at apart
  cases apart

end Parting

namespace Reader

variable {α β γ δ : Type}

/-- Two readers that read alike from cursors that are alike, the first of which is that far from its end: as long as both
succeed, what they read looks the same and they come to cursors that are alike, the first one having moved on, unless it
parts from the second; and from where it has parted in one way it comes to where it has parted in another. -/
structure Accords (offset n : Nat) (moves : Bool) (a e : Parting) (look : α → γ) (x x' : Reader α) : Prop where
  aligned {c c' c₁ c₁' : Cursor} {v v' : α} : c.Alike offset c' → c.ahead.length ≤ n → x c = .ok (v, c₁) →
    x' c' = .ok (v', c₁') →
      (look v' = look v ∧ c₁.Alike offset c₁' ∧ c₁.ahead.length + moves.toNat ≤ c.ahead.length) ∨ e.Holds c₁
  parted {c c₁ : Cursor} {v : α} : a.Holds c → x c = .ok (v, c₁) → e.Holds c₁

variable {offset n : Nat} {moves : Bool} {a b e : Parting} {look : α → γ} {view : β → δ} {x x' y y' : Reader α}
  {f f' : α → Reader β}

theorem never_parts {c c₁ : Cursor} {v : α} (holds : Parting.never.Holds c) (_run : x c = .ok (v, c₁)) : e.Holds c₁ :=
  holds.elim

theorem Accords.mono (accords : Accords offset n moves b e look x x') (le : a ≤ b) : Accords offset n moves a e look x x' :=
  ⟨accords.aligned, fun holds run => accords.parted (holds.mono le) run⟩

theorem Accords.widen (accords : Accords offset n moves a b look x x') (le : b ≤ e) : Accords offset n moves a e look x x' :=
  ⟨fun alike few run run' => (accords.aligned alike few run run').imp_right (·.mono le),
    fun holds run => (accords.parted holds run).mono le⟩

theorem Accords.weaken (accords : Accords offset n moves a e look x x') : Accords offset n false a e look x x' :=
  ⟨fun alike few run run' => (accords.aligned alike few run run').imp_left fun ⟨same, alike, less⟩ =>
    ⟨same, alike, Nat.le_trans (Nat.le_add_right _ _) less⟩, accords.parted⟩

theorem Accords.fewer {m : Nat} (accords : Accords offset n moves a e look x x') (le : m ≤ n) :
    Accords offset m moves a e look x x' :=
  ⟨fun alike few run run' => accords.aligned alike (Nat.le_trans few le) run run', accords.parted⟩

/-- Of a second reader that fails, nothing is said. -/
theorem Accords.alone (accords : Accords offset n moves a e look x x') (fails : ∀ c v c₁, y c ≠ .ok (v, c₁)) :
    Accords offset n moves a e look x y :=
  ⟨fun _ _ _ run' => absurd run' (fails _ _ _), accords.parted⟩

/-! ## Rules -/

/-- What comes behind the first part goes on from where that has parted. -/
theorem accords_bind (first : Accords offset n moves a b look x x')
    (rest : ∀ v v', look v' = look v → Accords offset n false b e view (f v) (f' v')) :
    Accords offset n moves a e view (x >>= f) (x' >>= f') := by
  constructor
  · intro c c' c₁ c₁' w w' alike few run run'
    obtain ⟨v, mid, ran, run⟩ := bind_ok run
    obtain ⟨v', mid', ran', run'⟩ := bind_ok run'
    obtain ⟨same, alike, less⟩ | parted := first.aligned alike few ran ran'
    · have fewer : mid.ahead.length ≤ n := Nat.le_trans (Nat.le_add_right _ _) (Nat.le_trans less few)
      refine ((rest v v' same).aligned alike fewer run run').imp_left fun ⟨same, alike, less'⟩ => ⟨same, alike, ?_⟩
      exact Nat.le_trans (Nat.add_le_add_right less' _) less
    · exact .inr ((rest v v rfl).parted parted run)
  · intro c c₁ w holds run
    obtain ⟨v, mid, ran, run⟩ := bind_ok run
    exact (rest v v rfl).parted (first.parted holds ran) run

/-- The first part need not move. -/
theorem accords_then (first : Accords offset n false a b look x x')
    (rest : ∀ v v', look v' = look v → Accords offset n moves b e view (f v) (f' v')) :
    Accords offset n moves a e view (x >>= f) (x' >>= f') := by
  constructor
  · intro c c' c₁ c₁' w w' alike few run run'
    obtain ⟨v, mid, ran, run⟩ := bind_ok run
    obtain ⟨v', mid', ran', run'⟩ := bind_ok run'
    obtain ⟨same, alike, less⟩ | parted := first.aligned alike few ran ran'
    · refine ((rest v v' same).aligned alike (Nat.le_trans less few) run run').imp_left fun ⟨same, alike, less'⟩ => ?_
      exact ⟨same, alike, Nat.le_trans less' less⟩
    · exact .inr ((rest v v rfl).parted parted run)
  · intro c c₁ w holds run
    obtain ⟨v, mid, ran, run⟩ := bind_ok run
    exact (rest v v rfl).parted (first.parted holds ran) run

/-- Behind an item there is one token less. -/
theorem accords_item (first : Accords offset (n + 1) true a b look x x')
    (rest : ∀ v v', look v' = look v → Accords offset n false b e view (f v) (f' v')) :
    Accords offset (n + 1) false a e view (x >>= f) (x' >>= f') := by
  constructor
  · intro c c' c₁ c₁' w w' alike few run run'
    obtain ⟨v, mid, ran, run⟩ := bind_ok run
    obtain ⟨v', mid', ran', run'⟩ := bind_ok run'
    obtain ⟨same, alike, less⟩ | parted := first.aligned alike few ran ran'
    · have less : mid.ahead.length + 1 ≤ c.ahead.length := less
      refine ((rest v v' same).aligned alike (by omega) run run').imp_left fun ⟨same, alike, less'⟩ => ⟨same, alike, ?_⟩
      exact Nat.le_trans less' (Nat.le_of_succ_le less)
    · exact .inr ((rest v v rfl).parted parted run)
  · intro c c₁ w holds run
    obtain ⟨v, mid, ran, run⟩ := bind_ok run
    exact (rest v v rfl).parted (first.parted holds ran) run

theorem accords_pure {v v' : α} (same : look v' = look v) : Accords offset n false a a look (pure v) (pure v') := by
  constructor
  · intro c c' c₁ c₁' w w' alike _ run run'
    cases run
    cases run'
    exact .inl ⟨same, alike, Nat.le_refl _⟩
  · intro c c₁ w holds run
    cases run
    exact holds

/-- What is read, as a part of something. -/
theorem accords_map {g g' : α → β} (first : Accords offset n moves a e look x x')
    (same : ∀ v v', look v' = look v → view (g' v') = view (g v)) :
    Accords offset n moves a e view (do return g (← x)) (do return g' (← x')) :=
  accords_bind first fun v v' seen => accords_pure (same v v' seen)

theorem accords_fails (fails : ∀ c v c₁, x c ≠ .ok (v, c₁)) : Accords offset n moves a e look x x' :=
  ⟨fun _ _ run => absurd run (fails _ _ _), fun _ run => absurd run (fails _ _ _)⟩

theorem accords_failAt {fault : SyntaxFault} {t : Token} : Accords offset n moves a e look (failAt fault t) x' :=
  accords_fails fun _ _ _ run => by cases run

theorem accords_ite {p q : Prop} [Decidable p] [Decidable q] (same : q ↔ p)
    (yes : p → Accords offset n moves a e look x x') (no : ¬ p → Accords offset n moves a e look y y') :
    Accords offset n moves a e look (if p then x else y) (if q then x' else y') := by
  by_cases holds : p
  · rw [if_pos holds, if_pos (same.2 holds)]
    exact yes holds
  · rw [if_neg holds, if_neg (mt same.1 holds)]
    exact no holds

/-- A test that both pass. -/
theorem accords_guard {p q : Prop} [Decidable p] [Decidable q] (fails : ∀ c v c₁, y c ≠ .ok (v, c₁))
    (fails' : ∀ c v c₁, y' c ≠ .ok (v, c₁)) (rest : Accords offset n moves a e look x x') :
    Accords offset n moves a e look (if p then y else x) (if q then y' else x') := by
  constructor
  · intro c c' c₁ c₁' v v' alike few run run'
    split at run
    · exact absurd run (fails _ _ _)
    · split at run'
      · exact absurd run' (fails' _ _ _)
      · exact rest.aligned alike few run run'
  · intro c c₁ v holds run
    split at run
    · exact absurd run (fails _ _ _)
    · exact rest.parted holds run

/-! ## Tokens -/

theorem accords_next (le : a ≤ .ending) : Accords offset n true a .ending Token.shape next next := by
  constructor
  · intro c c' c₁ c₁' t t' alike _ run run'
    obtain atEnd | ⟨-, same, mid, mid', taken, taken', behind, less⟩ := alike.step
    · exact .inr (atEnd.next run)
    · cases taken.symm.trans run
      cases taken'.symm.trans run'
      exact .inl ⟨same.shape, behind, Nat.le_of_eq less⟩
  · intro c c₁ t holds run
    exact Cursor.AtEnd.next (holds.mono le : Parting.ending.Holds c) run

theorem accords_peek (le : a ≤ b) (ends : .ending ≤ b) : Accords offset n false a b Token.shape peek peek := by
  constructor
  · intro c c' c₁ c₁' t t' alike _ run run'
    cases run
    cases run'
    obtain atEnd | ⟨-, same, -⟩ := alike.step
    · exact .inr ((show Parting.ending.Holds c from atEnd).mono ends)
    · exact .inl ⟨same.shape, alike, Nat.le_refl _⟩
  · intro c c₁ t holds run
    cases run
    exact holds.mono le

/-- The token ahead decides how both go on; where the first has parted, it is looked at alone. -/
theorem accords_peek_bind {f f' : Token → Reader α} (le : a ≤ b) (ends : .ending ≤ b)
    (rest : ∀ t t', t'.shape = t.shape → t.kind ≠ .endOfInput → Accords offset n moves .never e look (f t) (f' t'))
    (alone : ∀ {c c₁ v}, b.Holds c → f c.head c = .ok (v, c₁) → e.Holds c₁) :
    Accords offset n moves a e look (peek >>= f) (peek >>= f') := by
  constructor
  · intro c c' c₁ c₁' v v' alike few run run'
    have run : f c.head c = .ok (v, c₁) := run
    have run' : f' c'.head c' = .ok (v', c₁') := run'
    obtain atEnd | ⟨inside, same, -⟩ := alike.step
    · exact .inr (alone ((show Parting.ending.Holds c from atEnd).mono ends) run)
    · exact (rest _ _ same.shape inside).aligned alike few run run'
  · intro c c₁ v holds run
    exact alone (holds.mono le) run

theorem accords_peekIs_bind {k : TokenKind} {f f' : Bool → Reader α} (le : a ≤ b) (ends : .ending ≤ b)
    (apart : b.meets k = false) (yes : Accords offset n moves .never e look (f true) (f' true))
    (no : Accords offset n moves b e look (f false) (f' false)) :
    Accords offset n moves a e look (peekIs k >>= f) (peekIs k >>= f') := by
  have alone {c c₁ : Cursor} {v : α} (holds : b.Holds c) (run : (peekIs k >>= f) c = .ok (v, c₁)) : e.Holds c₁ := by
    have run : f (c.head.kind == k) c = .ok (v, c₁) := run
    rw [beq_eq_false_iff_ne.2 (holds.other apart)] at run
    exact no.parted holds run
  constructor
  · intro c c' c₁ c₁' v v' alike few run run'
    obtain atEnd | ⟨-, same, -⟩ := alike.step
    · exact .inr (alone ((show Parting.ending.Holds c from atEnd).mono ends) run)
    · have run : f (c.head.kind == k) c = .ok (v, c₁) := run
      have run' : f' (c'.head.kind == k) c' = .ok (v', c₁') := run'
      rw [Token.kind_of_shape same.shape] at run'
      cases here : c.head.kind == k with
      | true =>
        rw [here] at run run'
        exact yes.aligned alike few run run'
      | false =>
        rw [here] at run run'
        exact no.aligned alike few run run'
  · exact fun holds run => alone (holds.mono le) run

/-- A token is taken, of a kind that is not ahead where the first has parted. -/
theorem accords_expecting {k : TokenKind} (apart : a.meets k = false) (inside : k ≠ .endOfInput) :
    Accords offset n true a .never Token.shape (expect k) (expect k) := by
  constructor
  · intro c c' c₁ c₁' t t' alike few run run'
    obtain ⟨kind, run⟩ := expect_run run
    obtain ⟨-, run'⟩ := expect_run run'
    obtain atEnd | ⟨-, same, mid, mid', taken, taken', behind, less⟩ := alike.step
    · exact absurd (kind.symm.trans atEnd.kind) inside
    · cases taken.symm.trans run
      cases taken'.symm.trans run'
      exact .inl ⟨same.shape, behind, Nat.le_of_eq less⟩
  · intro c c₁ t holds run
    exact absurd (expect_run run).1 (holds.other apart)

theorem accords_expect {k : TokenKind} (apart : Parting.stray.meets k = false) :
    Accords offset n true a .never Token.shape (expect k) (expect k) := by
  have inside : k ≠ .endOfInput := by
    rintro rfl
    cases apart
  cases a with
  | never => exact accords_expecting rfl inside
  | ending => exact accords_expecting (beq_eq_false_iff_ne.2 inside) inside
  | stray => exact accords_expecting apart inside

theorem accept_taken {k : TokenKind} {c c₁ : Cursor} (run : accept k c = .ok (true, c₁)) :
    c.head.kind = k ∧ ∃ t, next c = .ok (t, c₁) := by
  obtain ⟨_, _, looked, run⟩ := bind_ok run
  cases looked
  split at run
  · next same =>
    obtain ⟨t, _, taken, run⟩ := bind_ok run
    cases run
    exact ⟨beq_iff_eq.1 same, t, taken⟩
  · cases run

/-- If a token is taken, both take it; where the first has parted, it takes none. -/
theorem accords_accept_bind {m : Nat} {k : TokenKind} {f f' : Bool → Reader α} (few : n ≤ m + 1) (le : a ≤ b)
    (ends : .ending ≤ b) (apart : b.meets k = false) (yes : Accords offset m false .never e look (f true) (f' true))
    (no : Accords offset n false b e look (f false) (f' false)) :
    Accords offset n false a e look (accept k >>= f) (accept k >>= f') := by
  have still {c : Cursor} {g : Bool → Reader α} (other : c.head.kind ≠ k) : (accept k >>= g) c = g false c := by
    have looked : accept k c = .ok (false, c) := by
      show (if c.head.kind == k then _ else _ : Reader Bool) c = _
      rw [if_neg (mt beq_iff_eq.1 other)]
      rfl
    exact bind_of_ok looked
  have alone {c c₁ : Cursor} {v : α} (holds : b.Holds c) (run : (accept k >>= f) c = .ok (v, c₁)) : e.Holds c₁ := by
    rw [still (holds.other apart)] at run
    exact no.parted holds run
  constructor
  · intro c c' c₁ c₁' v v' alike small run run'
    obtain atEnd | ⟨-, same, mid, mid', taken, taken', behind, less⟩ := alike.step
    · exact .inr (alone ((show Parting.ending.Holds c from atEnd).mono ends) run)
    · have kinds := Token.kind_of_shape same.shape
      by_cases here : c.head.kind = k
      · have accepted {c mid : Cursor} {g : Bool → Reader α} (here : c.head.kind = k)
            (taken : next c = .ok (c.head, mid)) : (accept k >>= g) c = g true mid := by
          have took : accept k c = .ok (true, mid) := by
            show (if c.head.kind == k then (do let _ ← next; return true) else _ : Reader Bool) c = _
            rw [if_pos (beq_iff_eq.2 here), bind_of_ok taken]
            rfl
          exact bind_of_ok took
        rw [accepted here taken] at run
        rw [accepted (kinds.trans here) taken'] at run'
        refine (yes.aligned behind (by omega) run run').imp_left fun ⟨same, alike, less'⟩ => ⟨same, alike, ?_⟩
        exact Nat.le_trans less' (by omega)
      · rw [still here] at run
        rw [still fun isKind => here (kinds.symm.trans isKind)] at run'
        exact no.aligned alike small run run'
  · exact fun holds run => alone (holds.mono le) run

/-- The cursors are looked at: the second is at least as far from its end. -/
theorem accords_get_bind {f f' : Cursor → Reader α}
    (rest : ∀ c c', c.ahead.length ≤ c'.ahead.length → Accords offset c.ahead.length moves a e look (f c) (f' c')) :
    Accords offset n moves a e look (get >>= f) (get >>= f') := by
  constructor
  · intro c c' c₁ c₁' v v' alike _ run run'
    exact (rest c c' alike.ahead.length_le.2).aligned alike (Nat.le_refl _) run run'
  · intro c c₁ v holds run
    exact (rest c c (Nat.le_refl _)).parted holds run

/-- What stands where does not matter. -/
theorem accords_spanFrom_bind {f f' : Span → Reader α} {t t' : Token}
    (rest : ∀ s s', Accords offset n moves a e look (f s) (f' s')) :
    Accords offset n moves a e look (spanFrom t >>= f) (spanFrom t' >>= f') := by
  constructor
  · exact fun alike few run run' => (rest _ _).aligned alike few run run'
  · exact fun {c _ _} holds run => (rest (t.span.cover c.last.span) default).parted holds run

theorem accords_markFrom_bind {f f' : Mark → Reader α} {h h' t t' : Token}
    (rest : ∀ m m', Accords offset n moves a e look (f m) (f' m')) :
    Accords offset n moves a e look (markFrom h t >>= f) (markFrom h' t' >>= f') := by
  constructor
  · exact fun alike few run run' => (rest _ _).aligned alike few run run'
  · exact fun {c _ _} holds run => (rest ⟨h, t.span.cover c.last.span⟩ default).parted holds run

/-- A construct ends with its mark. -/
theorem accords_mark {g g' : Mark → α} {h h' t t' : Token} (same : ∀ m m', look (g' m') = look (g m)) :
    Accords offset n false a a look (do return g (← markFrom h t)) (do return g' (← markFrom h' t')) :=
  accords_markFrom_bind fun m m' => accords_pure (same m m')

/-- How deep they stand does not matter. -/
theorem accords_enter_bind {f f' : Nat → Reader α} {depth depth' : Nat}
    (rest : ∀ deeper deeper', Accords offset n moves a e look (f deeper) (f' deeper')) :
    Accords offset n moves a e look (Grammar.enter depth >>= f) (Grammar.enter depth' >>= f') := by
  constructor
  · intro c c' c₁ c₁' v v' alike few run run'
    obtain ⟨deeper, _, entered, run⟩ := bind_ok run
    obtain ⟨deeper', _, entered', run'⟩ := bind_ok run'
    cases Grammar.enter_run entered
    cases Grammar.enter_run entered'
    exact (rest _ _).aligned alike few run run'
  · intro c c₁ v holds run
    obtain ⟨deeper, _, entered, run⟩ := bind_ok run
    cases Grammar.enter_run entered
    exact (rest deeper 0).parted holds run

/-! ## Lists -/

/-- More items stand behind a comma. -/
theorem commaRest_run {fuel : Nat} {c c₁ : Cursor} {vs : List α} (run : commaRest x fuel c = .ok (vs, c₁)) :
    c.head.kind = .symbol .comma ∨ c₁ = c := by
  cases fuel with
  | zero =>
    cases run
    exact .inr rfl
  | succ fuel =>
    obtain ⟨taken, _, accepted, run⟩ := bind_ok run
    cases taken with
    | true => exact .inl (accept_taken accepted).1
    | false =>
      cases run
      exact .inr (Grammar.accept_still accepted).1

/-- Something is always ahead. -/
theorem accords_out (parted : ∀ {c c₁ v}, a.Holds c → x c = .ok (v, c₁) → e.Holds c₁) :
    Accords offset 0 moves a e look x x' :=
  ⟨fun alike few => absurd alike.ahead.length_le.1 (Nat.not_lt.2 few), parted⟩

theorem accords_commaRest (item : ∀ n, Accords offset n true .never .stray look x x') {fuel fuel' : Nat}
    (le : fuel ≤ fuel') (strays : a ≤ .stray) :
    Accords offset fuel false a .stray (List.map look) (commaRest x fuel) (commaRest x' fuel') := by
  induction fuel generalizing fuel' a with
  | zero => exact accords_out fun holds run => by cases run; exact holds.mono strays
  | succ fuel ih =>
    obtain ⟨fuel', rfl⟩ := Nat.exists_eq_add_of_le' le
    refine accords_accept_bind (Nat.le_refl _) strays (by decide) rfl ?_ (accords_pure rfl)
    refine accords_bind (item fuel).weaken fun v v' seen => ?_
    refine accords_map (ih (Nat.le_add_left _ _) (by decide)) fun vs vs' seen' => ?_
    rw [List.map_cons, List.map_cons, seen, seen']

theorem accords_commaList (item : ∀ n, Accords offset n true a .stray look x x') :
    Accords offset n true a .stray (List.map look) (commaList x) (commaList x') := by
  refine accords_bind (item n) fun v v' seen => accords_get_bind fun c c' le => ?_
  have others (n : Nat) : Accords offset n true .never .stray look x x' := (item n).mono (Parting.never_le a)
  refine accords_map (accords_commaRest others le (by decide)) fun vs vs' seen' => ?_
  rw [List.map_cons, List.map_cons, seen, seen']

theorem accords_untilRest {stop : TokenKind} (inside : stop ≠ .endOfInput)
    (item : ∀ n, Accords offset n true .never .ending look x x') (fuel fuel' : Nat) (le : a ≤ .ending) :
    Accords offset n false a .never (List.map look) (untilRest stop x fuel) (untilRest stop x' fuel') := by
  induction fuel generalizing fuel' a n with
  | zero => exact accords_fails fun _ _ _ run => by cases run
  | succ fuel ih =>
    have alone {c c₁ : Cursor} {vs : List α} (atEnd : Parting.ending.Holds c)
        (run : untilRest stop x (fuel + 1) c = .ok (vs, c₁)) : Parting.never.Holds c₁ := by
      have kind : c.head.kind = .endOfInput := atEnd.kind
      obtain ⟨_, _, looked, run⟩ := bind_ok run
      cases looked
      rw [show (c.ahead.headD c.last).kind = _ from kind, if_neg (mt beq_iff_eq.1 inside.symm)] at run
      cases run
    cases fuel' with
    | zero => exact ⟨fun _ _ _ run' => (by cases run'), fun holds run => alone (holds.mono le) run⟩
    | succ fuel' =>
      refine accords_peek_bind le (Nat.le_refl _) (fun t t' same _ => ?_) fun holds run => alone holds run
      have kind := Token.kind_of_shape same
      refine accords_ite (by rw [kind]) (fun _ => (accords_pure rfl)) fun _ => ?_
      refine accords_ite (by rw [kind]) (fun _ => accords_failAt) fun _ => ?_
      refine accords_bind (item n).weaken fun v v' seen => accords_map (ih fuel' (Nat.le_refl _)) fun vs vs' seen' => ?_
      rw [List.map_cons, List.map_cons, seen, seen']

/-- Behind a part that stops in front of a token of the kind, that is taken. -/
theorem accords_closing_bind {k : TokenKind} (inside : k ≠ .endOfInput) (first : Accords offset n moves a .never look x x')
    (stops : ∀ {c v c₁}, x c = .ok (v, c₁) → c₁.head.kind = k)
    (rest : ∀ v v', look v' = look v → Accords offset n false .never e view (f v) (f' v')) :
    Accords offset n moves a e view (do let v ← x; let _ ← next; f v) (do let v ← x'; let _ ← next; f' v) := by
  constructor
  · intro c c' c₁ c₁' w w' alike few run run'
    obtain ⟨v, mid, ran, run⟩ := bind_ok run
    obtain ⟨v', mid', ran', run'⟩ := bind_ok run'
    obtain ⟨_, behind, taken, run⟩ := bind_ok run
    obtain ⟨_, behind', taken', run'⟩ := bind_ok run'
    obtain ⟨same, alike, less⟩ | parted := first.aligned alike few ran ran'
    · obtain atEnd | ⟨-, -, _, _, took, took', alike, less'⟩ := alike.step
      · exact absurd ((stops ran).symm.trans atEnd.kind) inside
      · cases took.symm.trans taken
        cases took'.symm.trans taken'
        refine ((rest v v' same).aligned alike (by omega) run run').imp_left fun ⟨seen, alike, less''⟩ => ⟨seen, alike, ?_⟩
        have fewer : c₁.ahead.length ≤ behind.ahead.length := less''
        omega
    · exact parted.elim
  · intro c c₁ w holds run
    obtain ⟨v, mid, ran, -⟩ := bind_ok run
    exact (first.parted holds ran).elim

theorem accords_untilToken {stop : TokenKind} (inside : stop ≠ .endOfInput)
    (item : ∀ n, Accords offset n true .never .ending look x x') (le : a ≤ .ending) :
    Accords offset n false a .never (List.map look) (untilToken stop x) (untilToken stop x') :=
  accords_get_bind fun _ _ _ =>
    accords_closing_bind inside (accords_untilRest inside item _ _ le) untilRest_stops fun _ _ seen => accords_pure seen

end Reader

end ClassScript
