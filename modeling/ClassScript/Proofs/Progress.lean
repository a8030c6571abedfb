import ClassScript.Proofs.SpanTrees

/-!
# Readers go on

From a cursor with the end of the input somewhere ahead, a reader that returns has come to a place further on, where it
stands on the token that it took last; a reader that fails does so at a token, and never because it has used up its
steps, if no more tokens are ahead than it has steps for (`Reader.GoesWhen`). There is one rule for each way to put
readers together, and one lemma for each reader of the grammar, first relative to the readers of the constructs that
nest (`Grammar.Goes`), then for all of them by induction on the steps (`Grammar.within_goes`).
-/

namespace ClassScript

namespace Cursor

/-- The last of the tokens ahead is the end of the input. -/
def Open (c : Cursor) : Prop := c.ahead.getLast?.map Token.kind = some .endOfInput

/-- The token ahead is not the end of the input. -/
def Inside (c : Cursor) : Prop := c.head.kind ≠ .endOfInput

/-- There are fewer tokens ahead than that. -/
def FewerThan (count : Nat) (c : Cursor) : Prop := c.ahead.length < count

/-- A cursor comes to another place by taking tokens, at least one if it `moves`, and stands on the last of them. -/
structure Reaches (c : Cursor) (moves : Bool) (c' : Cursor) : Prop where
  stays : c'.Open
  took : ∃ used, c.ahead = used ++ c'.ahead ∧ c'.last = used.getLastD c.last ∧ (moves = true → used ≠ [])

variable {c c₁ c₂ : Cursor} {moves moves' : Bool}

theorem Open.ahead_ne_nil (opened : c.Open) : c.ahead ≠ [] := by
  intro none
  rw [Open, none] at opened
  cases opened

theorem Open.more (opened : c.Open) (inside : c.Inside) : 1 < c.ahead.length := by
  obtain ⟨last, ahead⟩ := c
  match ahead with
  | [] => exact absurd rfl opened.ahead_ne_nil
  | [u] => exact absurd (Option.some.inj opened) inside
  | u :: v :: rest => exact Nat.succ_lt_succ (Nat.succ_pos _)

theorem reaches_refl (opened : c.Open) : c.Reaches false c := ⟨opened, [], rfl, rfl, nofun⟩

theorem Reaches.trans (first : c.Reaches moves c₁) (rest : c₁.Reaches moves' c₂) : c.Reaches (moves || moves') c₂ := by
  obtain ⟨-, used, ahead, last, some⟩ := first
  obtain ⟨stays, used', ahead', last', some'⟩ := rest
  refine ⟨stays, used ++ used', by rw [ahead, ahead', List.append_assoc], ?_, fun moved none => ?_⟩
  · rw [last', last, getLastD_append]
  · obtain ⟨none, none'⟩ := List.append_eq_nil_iff.1 none
    rcases Bool.or_eq_true_iff.1 moved with moved | moved
    · exact some moved none
    · exact some' moved none'

theorem Reaches.weaken (reaches : c.Reaches moves c₁) : c.Reaches false c₁ :=
  ⟨reaches.stays, reaches.took.imp fun _ took => ⟨took.1, took.2.1, nofun⟩⟩

theorem Reaches.length_le (reaches : c.Reaches moves c₁) : c₁.ahead.length ≤ c.ahead.length := by
  obtain ⟨-, used, ahead, -⟩ := reaches
  rw [ahead, List.length_append]
  omega

theorem Reaches.length_lt (reaches : c.Reaches true c₁) : c₁.ahead.length < c.ahead.length := by
  obtain ⟨-, used, ahead, -, some⟩ := reaches
  have := List.length_pos_iff.2 (some rfl)
  rw [ahead, List.length_append]
  omega

end Cursor

namespace Reader

variable {α β : Type} {x : Reader α} {f : α → Reader β} {p : Reader α} {P Q : Cursor → Prop} {moves : Bool} {n : Nat}
  {c c' : Cursor}

/-- From a cursor the reader reaches another place, or it fails. With at most `n` tokens ahead its steps do not run
out. -/
def GoesFrom (moves : Bool) (n : Nat) (x : Reader α) (c : Cursor) : Prop :=
  match x c with
  | .ok (_, c') => c.Reaches moves c'
  | .error (fault, _) => c.ahead.length ≤ n → fault ≠ .exhausted

/-- From every cursor with the property the reader goes on. -/
def GoesWhen (P : Cursor → Prop) (moves : Bool) (n : Nat) (x : Reader α) : Prop :=
  ∀ c : Cursor, c.Open → P c → GoesFrom moves n x c

/-- From every cursor the reader goes on. -/
abbrev Goes (moves : Bool) (n : Nat) (x : Reader α) : Prop := GoesWhen (fun _ => True) moves n x

/-! ## Rules -/

theorem goesFrom_ok {a : α} (run : x c = .ok (a, c')) (reaches : c.Reaches moves c') : GoesFrom moves n x c := by
  rw [GoesFrom, run]
  exact reaches

theorem GoesWhen.reaches (goes : GoesWhen P moves n x) (opened : c.Open) (holds : P c) {a : α}
    (run : x c = .ok (a, c')) : c.Reaches moves c' := by
  have went := goes c opened holds
  rwa [GoesFrom, run] at went

/-- A sequence goes as far as both its parts, with enough steps for what the first leaves to the second. -/
theorem goesFrom_bind {moves' : Bool} {m : Nat} (first : GoesFrom moves n x c)
    (rest : ∀ a c', x c = .ok (a, c') → c.Reaches moves c' → GoesFrom moves' m (f a) c')
    (left : ∀ c', c.Reaches moves c' → c.ahead.length ≤ n → c'.ahead.length ≤ m) :
    GoesFrom (moves || moves') n (x >>= f) c := by
  unfold GoesFrom at first rest ⊢
  have unfolded : (x >>= f) c = (x c >>= fun r => f r.1 r.2) := rfl
  rw [unfolded]
  rcases ran : x c with ⟨fault, span⟩ | ⟨a, mid⟩
  · rw [ran] at first
    exact first
  · rw [ran] at first
    have behind := rest a mid ran first
    change match f a mid with
      | .ok (_, c') => c.Reaches (moves || moves') c'
      | .error (fault, _) => c.ahead.length ≤ n → fault ≠ .exhausted
    rcases ran' : f a mid with ⟨fault, span⟩ | ⟨b, c'⟩
    · rw [ran'] at behind
      exact fun few => behind (left mid first few)
    · rw [ran'] at behind
      exact first.trans behind

theorem GoesWhen.mono (goes : GoesWhen Q moves n x) (implies : ∀ c, P c → Q c) : GoesWhen P moves n x :=
  fun c opened holds => goes c opened (implies c holds)

theorem GoesWhen.fewer {m : Nat} (goes : GoesWhen P moves n x) (le : m ≤ n) : GoesWhen P moves m x := by
  intro c opened holds
  have went := goes c opened holds
  unfold GoesFrom at went ⊢
  split at went
  · exact went
  · exact fun few => went (Nat.le_trans few le)

theorem GoesWhen.weaken (goes : GoesWhen P moves n x) : GoesWhen P false n x := by
  intro c opened holds
  have went := goes c opened holds
  unfold GoesFrom at went ⊢
  split at went
  · exact went.weaken
  · exact went

/-- What goes on from everywhere goes on from here. -/
theorem GoesWhen.on (goes : Goes moves n x) : GoesWhen P moves n x := goes.mono fun _ _ => trivial

theorem GoesWhen.less (goes : GoesWhen P moves (n + 1) x) : GoesWhen P moves n x := goes.fewer (Nat.le_succ n)

/-- What comes behind the first part need not move. -/
theorem goes_bind (first : GoesWhen P moves n x) (rest : ∀ a, Goes false n (f a)) : GoesWhen P moves n (x >>= f) := by
  intro c opened holds
  have went := goesFrom_bind (first c opened holds) (fun a c' _ reaches => rest a c' reaches.stays trivial)
    fun c' reaches few => Nat.le_trans reaches.length_le few
  rwa [Bool.or_false] at went

/-- The first part need not move. -/
theorem goes_then (first : GoesWhen P false n x) (rest : ∀ a, Goes moves n (f a)) : GoesWhen P moves n (x >>= f) := by
  intro c opened holds
  exact goesFrom_bind (first c opened holds) (fun a c' _ reaches => rest a c' reaches.stays trivial)
    fun c' reaches few => Nat.le_trans reaches.length_le few

/-- Behind a first part that moves, steps for one token less are enough. -/
theorem goes_first (first : GoesWhen P true (n + 1) x) (rest : ∀ a, Goes false n (f a)) :
    GoesWhen P true (n + 1) (x >>= f) := by
  intro c opened holds
  refine goesFrom_bind (first c opened holds) (fun a c' _ reaches => rest a c' reaches.stays trivial)
    fun c' reaches few => ?_
  have := reaches.length_lt
  omega

/-- Where the first part stops the second goes on. -/
theorem goes_stopped (first : GoesWhen P false n x) (stops : ∀ c a c', x c = .ok (a, c') → Q c')
    (rest : ∀ a, GoesWhen Q moves n (f a)) : GoesWhen P moves n (x >>= f) := by
  intro c opened holds
  exact goesFrom_bind (first c opened holds) (fun a c' ran reaches => rest a c' reaches.stays (stops c a c' ran))
    fun c' reaches few => Nat.le_trans reaches.length_le few

/-- An item is read, and then more of them with one step less. -/
theorem goes_item {fuel : Nat} (first : GoesWhen Q true n x)
    (rest : ∀ a, GoesWhen (Cursor.FewerThan fuel) false n (f a)) :
    GoesWhen (fun c => c.FewerThan (fuel + 1) ∧ Q c) true n (x >>= f) := by
  rintro c opened ⟨few, holds⟩
  refine goesFrom_bind (first c opened holds) (fun a c' _ reaches => rest a c' reaches.stays ?_)
    fun c' reaches few => Nat.le_trans reaches.length_le few
  exact Nat.lt_of_lt_of_le reaches.length_lt (Nat.le_of_lt_succ few)

/-- There are no more tokens ahead behind the first part. -/
theorem goes_few {fuel : Nat} (first : Goes false n x) (rest : ∀ a, GoesWhen (Cursor.FewerThan fuel) false n (f a)) :
    GoesWhen (Cursor.FewerThan fuel) false n (x >>= f) := by
  intro c opened few
  exact goesFrom_bind (first c opened trivial)
    (fun a c' _ reaches => rest a c' reaches.stays (Nat.lt_of_le_of_lt reaches.length_le few))
    fun c' reaches few => Nat.le_trans reaches.length_le few

theorem goes_pure (a : α) : GoesWhen P false n (pure a : Reader α) := fun _ opened _ =>
  goesFrom_ok rfl (Cursor.reaches_refl opened)

theorem goes_pure_bind {a : α} (rest : GoesWhen P moves n (f a)) : GoesWhen P moves n (pure a >>= f) := rest

theorem goes_map {g : α → β} (first : GoesWhen P moves n x) : GoesWhen P moves n (do return g (← x)) :=
  goes_bind first fun _ => goes_pure _

theorem goes_ite {y : Reader α} {condition : Prop} [Decidable condition] (yes : condition → GoesWhen P moves n x)
    (no : ¬ condition → GoesWhen P moves n y) : GoesWhen P moves n (if condition then x else y) := by
  split
  · next holds => exact yes holds
  · next fails => exact no fails

theorem goes_failAt {fault : SyntaxFault} (t : Token) (other : fault ≠ .exhausted) :
    GoesWhen P moves n (failAt fault t : Reader α) := fun _ _ _ _ => other

theorem goes_unexpected (what : String) (t : Token) : GoesWhen P moves n (unexpected what t : Reader α) :=
  goes_failAt t nofun

/-- Nothing comes behind a failure. -/
theorem goes_failAt_bind {fault : SyntaxFault} (t : Token) (other : fault ≠ .exhausted) :
    GoesWhen P moves n ((failAt fault t : Reader α) >>= f) := fun _ _ _ _ => other

theorem goes_unexpected_bind (what : String) (t : Token) :
    GoesWhen P moves n ((unexpected what t : Reader α) >>= f) := goes_failAt_bind t nofun

/-- The cursor is looked at. -/
theorem goes_get_bind {f : Cursor → Reader α} (rest : ∀ s, GoesWhen (· = s) moves n (f s)) :
    GoesWhen P moves n (get >>= f) := fun c opened _ => rest c c opened rfl

theorem goes_inspect_bind {f : Cursor → Reader α} (rest : ∀ s, GoesWhen P moves n (f s)) :
    GoesWhen P moves n (get >>= f) := fun c opened holds => rest c c opened holds

theorem goes_look_bind {f : Token → Reader α} (rest : ∀ t, GoesWhen (fun c => P c ∧ c.head = t) moves n (f t)) :
    GoesWhen P moves n (peek >>= f) := fun c opened holds => rest c.head c opened ⟨holds, rfl⟩

theorem goes_peek_bind {f : Token → Reader α} (rest : ∀ t, GoesWhen (·.head = t) moves n (f t)) :
    GoesWhen P moves n (peek >>= f) := fun c opened _ => rest c.head c opened rfl

theorem goes_peekIs_bind {k : TokenKind} {f : Bool → Reader α}
    (rest : ∀ t, GoesWhen (·.head = t) moves n (f (t.kind == k))) : GoesWhen P moves n (peekIs k >>= f) :=
  fun c opened _ => rest c.head c opened rfl

theorem goes_lookIs_bind {k : TokenKind} {f : Bool → Reader α} (rest : ∀ here, GoesWhen P moves n (f here)) :
    GoesWhen P moves n (peekIs k >>= f) := fun c opened holds => rest _ c opened holds

/-- A token is taken unless it is the last one. -/
theorem next_takes (more : 1 < c.ahead.length) {t : Token} (run : next c = .ok (t, c')) :
    c.ahead = t :: c'.ahead ∧ c'.last = t := by
  obtain ⟨last, ahead⟩ := c
  match ahead with
  | [] => cases more
  | [u] => exact absurd more (Nat.lt_irrefl 1)
  | u :: v :: rest =>
    cases run
    exact ⟨rfl, rfl⟩

theorem next_reaches (opened : c.Open) (more : 1 < c.ahead.length) {t : Token} (run : next c = .ok (t, c')) :
    c.Reaches true c' := by
  obtain ⟨ahead, last⟩ := next_takes more run
  refine ⟨?_, [t], ahead, last, fun _ => List.cons_ne_nil t []⟩
  have some : c'.ahead ≠ [] := by
    intro none
    rw [ahead, none] at more
    exact Nat.lt_irrefl 1 more
  rwa [Cursor.Open, ahead, List.getLast?_cons_of_ne_nil some] at opened

theorem next_ok (c : Cursor) : ∃ t c', next c = .ok (t, c') := by
  obtain ⟨last, ahead⟩ := c
  match ahead with
  | [] => exact ⟨_, _, rfl⟩
  | [u] => exact ⟨_, _, rfl⟩
  | u :: v :: rest => exact ⟨_, _, rfl⟩

theorem goesFrom_next (opened : c.Open) (more : 1 < c.ahead.length) : GoesFrom true n next c := by
  obtain ⟨t, c', run⟩ := next_ok c
  exact goesFrom_ok run (next_reaches opened more run)

theorem goes_next : GoesWhen Cursor.Inside true n next := fun _ opened inside => goesFrom_next opened (opened.more inside)

theorem goes_next_bind {f : Token → Reader α} (rest : ∀ t, Goes false n (f t)) :
    GoesWhen Cursor.Inside true (n + 1) (next >>= f) := goes_first goes_next rest

theorem inside_of_head {t : Token} (inside : t.kind ≠ .endOfInput) : ∀ c : Cursor, c.head = t → c.Inside :=
  fun c here => by rwa [Cursor.Inside, here]

theorem inside_of_kind {t : Token} {k : TokenKind} (kind : t.kind = k) (inside : k ≠ .endOfInput) :
    ∀ c : Cursor, c.head = t → c.Inside := inside_of_head (kind ▸ inside)

theorem expect_run {k : TokenKind} {t : Token} (run : expect k c = .ok (t, c')) :
    c.head.kind = k ∧ next c = .ok (t, c') := by
  obtain ⟨_, _, looked, run⟩ := bind_ok run
  cases looked
  split at run
  · next same => exact ⟨beq_iff_eq.1 same, run⟩
  · cases run

theorem inside_of_isName {k : TokenKind} (named : k.isName = true) : k ≠ .endOfInput := by
  rintro rfl
  cases named

theorem inside_of_operator {k : TokenKind} {kind : Infix} (found : Infix.ofKind? k = some kind) : k ≠ .endOfInput := by
  rintro rfl
  cases found

theorem goes_expect {k : TokenKind} (inside : k ≠ .endOfInput) : GoesWhen P true n (expect k) :=
  goes_peek_bind fun t => goes_ite (fun same => goes_next.mono (inside_of_kind (beq_iff_eq.1 same) inside))
    fun _ => goes_unexpected _ t

theorem goes_accept {k : TokenKind} (inside : k ≠ .endOfInput) : GoesWhen P false n (accept k) :=
  goes_peekIs_bind fun _ => goes_ite
    (fun same => goes_bind (goes_next.mono (inside_of_kind (beq_iff_eq.1 same) inside)).weaken fun _ => goes_pure _)
    fun _ => goes_pure _

/-- A token that is accepted has been taken. -/
theorem accept_reaches {k : TokenKind} (inside : k ≠ .endOfInput) (opened : c.Open) (run : accept k c = .ok (true, c')) :
    c.Reaches true c' := by
  obtain ⟨_, _, looked, run⟩ := bind_ok run
  cases looked
  split at run
  · next same =>
    obtain ⟨_, _, taken, run⟩ := bind_ok run
    cases run
    exact next_reaches opened (opened.more (inside_of_kind (beq_iff_eq.1 same) inside c rfl)) taken
  · cases run

/-- If the token is not taken, what comes behind has to move. -/
theorem goes_accept_bind {k : TokenKind} {f : Bool → Reader α} (inside : k ≠ .endOfInput) (yes : Goes false n (f true))
    (no : Goes true n (f false)) : Goes true n (accept k >>= f) := by
  intro c opened _
  have went : GoesFrom false n (accept k) c := goes_accept (P := fun _ => True) inside c opened trivial
  have few (c' : Cursor) {moves : Bool} (reaches : c.Reaches moves c') (few : c.ahead.length ≤ n) : c'.ahead.length ≤ n :=
    Nat.le_trans reaches.length_le few
  rcases ran : accept k c with failed | ⟨_ | _, mid⟩
  · show GoesFrom (false || true) n (accept k >>= f) c
    exact goesFrom_bind went (fun a c' ok => nomatch ran.symm.trans ok) fun c' => few c'
  · show GoesFrom (false || true) n (accept k >>= f) c
    refine goesFrom_bind went (fun a c' ok reaches => ?_) fun c' => few c'
    cases ran.symm.trans ok
    exact no _ reaches.stays trivial
  · show GoesFrom (true || false) n (accept k >>= f) c
    refine goesFrom_bind (goesFrom_ok ran (accept_reaches inside opened ran)) (fun a c' ok reaches => ?_) fun c' => few c'
    cases ran.symm.trans ok
    exact yes _ reaches.stays trivial

/-- At the end of the input a token that is taken stays ahead, so that nothing behind it can move. -/
theorem goes_next_moving {f : Token → Reader α} (rest : ∀ t, Goes true n (f t)) : Goes true n (next >>= f) := by
  rintro ⟨last, ahead⟩ opened -
  match ahead with
  | [] => exact absurd rfl opened.ahead_ne_nil
  | [u] =>
    have went := rest u ⟨u, [u]⟩ opened trivial
    have unfolded : (next >>= f) ⟨last, [u]⟩ = f u ⟨u, [u]⟩ := rfl
    unfold GoesFrom at went ⊢
    rw [unfolded]
    split at went
    · next c' _ =>
      have fewer := went.length_lt
      have some := List.length_pos_iff.2 went.stays.ahead_ne_nil
      exact absurd fewer (Nat.not_lt.2 some)
    · exact went
  | u :: v :: more =>
    exact goesFrom_bind (goesFrom_next opened (Nat.succ_lt_succ (Nat.succ_pos _)))
      (fun t c' _ reaches => rest t c' reaches.stays trivial) fun c' reaches few => Nat.le_trans reaches.length_le few

theorem goes_spanFrom (start : Token) : GoesWhen P false n (spanFrom start) :=
  goes_get_bind fun _ => goes_pure _

theorem goes_markFrom (head start : Token) : GoesWhen P false n (markFrom head start) := goes_map (goes_spanFrom start)

section Lists

variable (item : Goes true n p)
include item

theorem goes_commaRest (fuel : Nat) : Goes false n (commaRest p fuel) := by
  induction fuel with
  | zero => exact goes_pure _
  | succ fuel ih =>
    exact goes_then (goes_accept (by decide)) fun _ =>
      goes_ite (fun _ => goes_then item.weaken fun _ => goes_map ih) fun _ => goes_pure _

theorem goes_commaList : Goes true n (commaList p) :=
  goes_bind item fun _ => goes_get_bind fun _ => goes_map (goes_commaRest item _).on

theorem goes_untilRest (stop : TokenKind) (fuel : Nat) :
    GoesWhen (Cursor.FewerThan fuel) false n (untilRest stop p fuel) := by
  induction fuel with
  | zero => exact fun c _ none => absurd none (Nat.not_lt_zero _)
  | succ fuel ih =>
    refine goes_look_bind fun t => goes_ite (fun _ => goes_pure _) fun _ => goes_ite (fun _ => goes_unexpected _ t) fun _ => ?_
    exact ((goes_item item.on fun _ => goes_map ih).mono fun c holds => ⟨holds.1, trivial⟩).weaken

theorem goes_untilToken {stop : TokenKind} (inside : stop ≠ .endOfInput) : Goes true n (untilToken stop p) := by
  refine goes_get_bind fun c => goes_stopped ((goes_untilRest item stop _).mono ?_) (Q := Cursor.Inside) ?_ fun _ => ?_
  · rintro _ rfl
    exact Nat.lt_succ_self _
  · intro c items c' run atEnd
    exact inside ((untilRest_stops run).symm.trans atEnd)
  · exact goes_bind goes_next fun _ => goes_pure _


end Lists

end Reader

namespace Grammar

open Reader

/-! ## Parts -/

variable {g : Grammar} {P : Cursor → Prop} {depth n m : Nat}

theorem goes_enter (depth : Nat) : GoesWhen P false n (enter depth) :=
  goes_ite (fun _ => goes_peek_bind fun t => goes_failAt t nofun) fun _ => goes_pure _

/-- Going deeper takes no token. -/
theorem goes_enter_bind {α : Type} {moves : Bool} {f : Nat → Reader α} (rest : ∀ deeper, GoesWhen P moves n (f deeper)) :
    GoesWhen P moves n (enter depth >>= f) := by
  intro c opened holds
  unfold enter
  split
  · exact fun _ => (nofun : SyntaxFault.tooDeep ≠ .exhausted)
  · exact rest _ c opened holds

theorem goes_name : GoesWhen P true n name := goes_map (goes_expect (by decide))

theorem goes_typeParameters : GoesWhen P false n typeParameters :=
  goes_then (goes_accept (by decide)) fun _ => goes_ite
    (fun _ => goes_then (goes_commaList goes_name).weaken fun _ => goes_bind (goes_expect (by decide)).weaken fun _ =>
      goes_pure _)
    fun _ => goes_pure _

theorem goes_annotationsUpTo (fuel : Nat) : GoesWhen P false n (annotationsUpTo fuel) := by
  induction fuel generalizing P with
  | zero => exact goes_pure _
  | succ fuel ih =>
    exact goes_peekIs_bind fun t => goes_ite
      (fun same => goes_bind (goes_next.mono (inside_of_kind (beq_iff_eq.1 same) nofun)).weaken fun _ => goes_map ih)
      fun _ => goes_pure _

theorem goes_annotations : GoesWhen P false n annotations := goes_get_bind fun _ => goes_annotationsUpTo _

theorem goes_modifiersFrom (mods : Modifiers) (fuel : Nat) : GoesWhen P false n (modifiersFrom mods fuel) := by
  induction fuel generalizing P mods with
  | zero => exact goes_pure _
  | succ fuel ih =>
    refine goes_peek_bind fun t => ?_
    split
    · next k kind =>
      refine goes_ite (fun _ => ?_) fun _ => goes_ite (fun _ => goes_failAt t nofun) fun _ => goes_pure _
      split
      · exact goes_failAt t nofun
      · exact goes_bind (goes_next.mono (inside_of_kind kind nofun)).weaken fun _ => ih _
    · exact goes_ite (fun _ => goes_failAt t nofun) fun _ => goes_pure _

theorem goes_modifiers : GoesWhen P false n modifiers := goes_get_bind fun _ => goes_modifiersFrom _ _

theorem goes_importNames : Goes false n importNames :=
  goes_then (goes_accept (by decide)) fun _ => goes_ite
    (fun _ => goes_bind (goes_commaList goes_name).weaken fun _ => goes_bind (goes_expect (by decide)).weaken fun _ =>
      goes_bind (goes_expect (by decide)).weaken fun _ => goes_pure _)
    fun _ => goes_pure _

theorem goes_importing : GoesWhen Cursor.Inside true n importing :=
  goes_bind goes_next fun _ => goes_then goes_importNames fun _ => goes_bind (goes_expect (by decide)).weaken fun _ =>
    goes_bind (goes_expect (by decide)).weaken fun _ => goes_map (goes_markFrom _ _)

theorem goes_parent : GoesWhen Cursor.Inside true n parent := by
  refine goes_bind goes_next fun t => goes_peek_bind fun ahead => ?_
  exact goes_ite (fun _ => goes_unexpected_bind _ ahead) fun _ => goes_pure _

/-- The readers of the constructs that nest go on. -/
structure Goes (n m : Nat) (g : Grammar) : Prop where
  statement : ∀ depth, Reader.Goes true n (g.statement depth)
  expression : ∀ depth precedence, Reader.Goes true m (g.expression depth precedence)
  type : ∀ depth, Reader.Goes true m (g.type depth)
  element : ∀ depth, GoesWhen (fun c => c.head.kind = .symbol .less) true m (g.element depth)

section Parts

variable (goes : g.Goes n n)
include goes

/-! ## Types, parameters and blocks -/

theorem goes_types : Reader.Goes true n (g.types depth) := goes_commaList (goes.type depth)

theorem goes_typed : GoesWhen P false n (g.typeAnnotation depth) :=
  goes_then (goes_accept (by decide)) fun _ => goes_ite (fun _ => goes_map (goes.type depth).weaken) fun _ => goes_pure _

theorem goes_initialiser : GoesWhen P false n (g.initialiser depth) :=
  goes_then (goes_accept (by decide)) fun _ =>
    goes_ite (fun _ => goes_map (goes.expression depth 0).weaken) fun _ => goes_pure _

theorem goes_block : GoesWhen P true (n + 1) (g.block depth) :=
  goes_first (goes_expect (by decide)) fun _ =>
    goes_bind (goes_untilToken (goes.statement depth) (by decide)).weaken fun _ => goes_map (goes_markFrom _ _)

theorem goes_parameter : Reader.Goes true n (g.parameter depth) :=
  goes_bind (goes_expect (by decide)) fun _ => goes_then (goes_typed goes) fun _ =>
    goes_then (goes_initialiser goes) fun _ => goes_map (goes_markFrom _ _)

theorem goes_parameters : GoesWhen P false n (g.parameters depth) :=
  goes_then (goes_accept (by decide)) fun _ => goes_ite (fun _ => goes_pure _) fun _ =>
    goes_bind (goes_commaList (goes_parameter goes)).weaken fun _ => goes_bind (goes_expect (by decide)).weaken fun _ =>
      goes_pure _

theorem goes_functionTypeParams : GoesWhen P false n (g.functionTypeParams depth) :=
  goes_then (goes_accept (by decide)) fun _ => goes_ite (fun _ => goes_pure _) fun _ =>
    goes_bind (goes_types goes).weaken fun _ => goes_bind (goes_expect (by decide)).weaken fun _ => goes_pure _

theorem goes_functionType : GoesWhen Cursor.Inside true (n + 1) (g.functionType depth) :=
  goes_next_bind fun _ => goes_then (goes_functionTypeParams goes) fun _ => goes_bind (goes_expect (by decide)).weaken fun _ =>
    goes_bind (goes.type depth).weaken fun _ => goes_map (goes_markFrom _ _)

theorem goes_namedType : GoesWhen Cursor.Inside true (n + 1) (g.namedType depth) :=
  goes_next_bind fun _ => goes_then (goes_accept (by decide)) fun _ => goes_ite
    (fun _ => goes_bind (goes_types goes).weaken fun _ => goes_bind (goes_expect (by decide)).weaken fun _ =>
      goes_map (goes_markFrom _ _))
    fun _ => goes_pure _

theorem goes_typeStep : Reader.Goes true (n + 1) (g.typeStep depth) := by
  unfold typeStep
  refine goes_then (goes_enter depth) fun depth => goes_peek_bind fun start => ?_
  have marked (t : TypeExpr) : Reader.Goes false (n + 1) (do
      if ← accept (.symbol .question) then return t.asNullable (← spanFrom start) else return t) :=
    goes_then (goes_accept (by decide)) fun _ => goes_ite (fun _ => goes_map (goes_spanFrom _)) fun _ => goes_pure _
  dsimp only
  split
  · next kind => exact goes_bind ((goes_functionType goes).mono (inside_of_kind kind nofun)) marked
  · next kind => exact goes_bind ((goes_namedType goes).mono (inside_of_kind kind nofun)) marked
  · exact goes_unexpected_bind _ start

/-! ## Members -/

theorem goes_method (start nameToken : Token) (as : List Annotation) (mods : Modifiers) :
    Reader.Goes false n (g.method depth start nameToken as mods) := by
  unfold method
  refine goes_then goes_typeParameters fun _ => goes_bind (goes_expect (by decide)).weaken fun _ =>
    goes_then (goes_parameters goes) fun _ => goes_then (goes_typed goes) fun _ => goes_peekIs_bind fun _ => ?_
  have closing {f : Mark → Method} : Reader.Goes false n (do return f (← markFrom nameToken start)) :=
    goes_map (goes_markFrom _ _)
  exact goes_ite (fun _ => goes_bind (goes_block goes).less.weaken fun _ => goes_pure_bind closing) fun _ =>
    goes_bind (goes_expect (by decide)).weaken fun _ => goes_pure_bind closing

theorem goes_field (start nameToken : Token) (as : List Annotation) (mods : Modifiers) :
    Reader.Goes false n (g.field depth start nameToken as mods) := by
  unfold field
  exact goes_then (goes_typed goes) fun _ => goes_then (goes_initialiser goes) fun _ =>
    goes_bind (goes_expect (by decide)).weaken fun _ => goes_map (goes_markFrom _ _)

theorem goes_member : Reader.Goes true n (g.member depth) := by
  unfold member
  refine goes_peek_bind fun start => goes_then goes_annotations fun as => goes_then goes_modifiers fun mods =>
    goes_peek_bind fun t => goes_ite (fun _ => goes_unexpected_bind _ t) fun named => ?_
  have inside : t.kind ≠ .endOfInput := by
    intro atEnd
    rw [atEnd] at named
    exact named rfl
  refine goes_bind (goes_next.mono (inside_of_head inside)) fun nameToken => goes_peek_bind fun ahead => ?_
  refine goes_ite (fun _ => goes_map (goes_method goes start nameToken as mods).on) fun _ => ?_
  exact goes_ite (fun _ => goes_unexpected_bind _ ahead) fun _ => goes_map (goes_field goes start nameToken as mods).on

theorem goes_membersUpTo (owner : String) (taken : List String) (fuel : Nat) :
    GoesWhen (Cursor.FewerThan fuel) false n (g.membersUpTo depth owner taken fuel) := by
  induction fuel generalizing taken with
  | zero => exact fun c _ none => absurd none (Nat.not_lt_zero _)
  | succ fuel ih =>
    refine goes_look_bind fun t => goes_ite (fun _ => goes_pure _) fun _ => goes_ite (fun _ => goes_unexpected _ t) fun _ => ?_
    refine ((goes_item (goes_member goes).on fun m => ?_).mono fun c holds => ⟨holds.1, trivial⟩).weaken
    exact goes_ite (fun _ => goes_failAt_bind _ nofun) fun _ => goes_map (ih _)

theorem goes_members (owner : String) : Reader.Goes true n (g.members depth owner) := by
  unfold members
  refine goes_bind (goes_expect (by decide)) fun _ => goes_get_bind fun c => ?_
  refine goes_stopped ((goes_membersUpTo goes owner [] _).mono ?_) (Q := Cursor.Inside) ?_ fun _ => ?_
  · rintro _ rfl
    exact Nat.lt_succ_self _
  · intro c ms c' run atEnd
    cases (membersUpTo_stops _ run).symm.trans atEnd
  · exact (goes_bind goes_next fun _ => goes_pure _).weaken

theorem goes_classDeclaration (start head : Token) (as : List Annotation) (isOpen : Bool) :
    Reader.Goes true n (g.classDeclaration depth start head as isOpen) := by
  unfold classDeclaration
  refine goes_bind goes_name fun name => goes_then goes_typeParameters fun _ => goes_then (goes_accept (by decide)) fun _ => ?_
  have closing {f : List Field × List Method → Mark → Declaration} :
      Reader.Goes false n (do return f (← g.members depth name.text) (← markFrom head start)) :=
    goes_bind (goes_members goes _).weaken fun _ => goes_map (goes_markFrom _ _)
  have implementing {f : List TypeExpr → List Field × List Method → Mark → Declaration} :
      Reader.Goes false n (do
        let interfaces ← if ← accept (.keyword .implementsWord) then g.types depth else pure []
        return f interfaces (← g.members depth name.text) (← markFrom head start)) :=
    goes_then (goes_accept (by decide)) fun _ =>
      goes_ite (fun _ => goes_bind (goes_types goes).weaken fun _ => closing) fun _ => closing
  exact goes_ite (fun _ => goes_bind (goes.type depth).weaken fun _ => implementing) fun _ => implementing

theorem goes_interfaceDeclaration (start head : Token) (as : List Annotation) :
    Reader.Goes true n (g.interfaceDeclaration depth start head as) := by
  unfold interfaceDeclaration
  refine goes_bind goes_name fun name => goes_then goes_typeParameters fun _ => goes_then (goes_accept (by decide)) fun _ => ?_
  have closing {f : List Field × List Method → Reader Declaration} (each : ∀ ms, Reader.Goes false n (f ms)) :
      Reader.Goes false n (g.members depth name.text >>= f) := goes_bind (goes_members goes _).weaken each
  refine goes_ite (fun _ => goes_bind (goes_types goes).weaken fun _ => ?_) fun _ => goes_pure_bind ?_
  all_goals
    refine closing fun ms => ?_
    dsimp only
    split
    · exact goes_failAt _ nofun
    · exact goes_map (goes_markFrom _ _)

theorem goes_declaration : GoesWhen P true (n + 1) (g.declaration depth) := by
  unfold declaration
  refine goes_peek_bind fun start => goes_then goes_annotations fun as => goes_peek_bind fun t => ?_
  split
  · next kind =>
    exact goes_first (goes_next.mono (inside_of_kind kind nofun)) fun _ => goes_bind (goes_expect (by decide)).weaken fun head =>
      (goes_classDeclaration goes start head as true).weaken
  · next kind =>
    exact goes_first (goes_next.mono (inside_of_kind kind nofun)) fun head =>
      (goes_classDeclaration goes start head as false).weaken
  · next kind =>
    exact goes_first (goes_next.mono (inside_of_kind kind nofun)) fun head =>
      (goes_interfaceDeclaration goes start head as).weaken
  · exact goes_unexpected _ t

/-! ## Statements -/

theorem goes_binding : GoesWhen Cursor.Inside true (n + 1) (g.binding depth) :=
  goes_next_bind fun _ => goes_bind goes_name.weaken fun _ => goes_then (goes_typed goes) fun _ =>
    goes_then (goes_initialiser goes) fun _ => goes_bind (goes_expect (by decide)).weaken fun _ => goes_map (goes_markFrom _ _)

theorem goes_returning : GoesWhen Cursor.Inside true (n + 1) (g.returning depth) := by
  unfold returning
  refine goes_next_bind fun start => goes_peekIs_bind fun _ => ?_
  have closing {f : Mark → Stmt} : Reader.Goes false n (do
      let _ ← expect (.symbol .semicolon)
      return f (← markFrom start start)) :=
    goes_bind (goes_expect (by decide)).weaken fun _ => goes_map (goes_markFrom _ _)
  exact goes_ite (fun _ => goes_pure_bind closing.on) fun _ =>
    goes_bind (goes.expression depth 0).on.weaken fun _ => goes_pure_bind closing

theorem goes_parenthesised : Reader.Goes true n (g.parenthesised depth) :=
  goes_bind (goes_expect (by decide)) fun _ => goes_bind (goes.expression depth 0).weaken fun _ =>
    goes_bind (goes_expect (by decide)).weaken fun _ => goes_pure _

theorem goes_branching : GoesWhen Cursor.Inside true (n + 1) (g.branching depth) := by
  unfold branching
  refine goes_next_bind fun start => goes_bind (goes_parenthesised goes).weaken fun _ =>
    goes_bind (goes_block goes).less.weaken fun _ => goes_then (goes_accept (by decide)) fun _ => ?_
  have closing {f : Mark → Stmt} : Reader.Goes false n (do return f (← markFrom start start)) :=
    goes_map (goes_markFrom _ _)
  refine goes_ite (fun _ => goes_peekIs_bind fun _ => ?_) fun _ => goes_pure_bind closing
  exact goes_ite (fun _ => goes_bind (goes.statement depth).on.weaken fun _ => goes_pure_bind closing) fun _ =>
    goes_bind (goes_block goes).less.weaken fun _ => goes_pure_bind closing

theorem goes_armsUpTo (fallback : Option Block) (fuel : Nat) :
    GoesWhen (Cursor.FewerThan fuel) false n (g.armsUpTo depth fallback fuel) := by
  induction fuel generalizing fallback with
  | zero => exact fun c _ none => absurd none (Nat.not_lt_zero _)
  | succ fuel ih =>
    refine goes_look_bind fun t => goes_ite (fun _ => goes_pure _) fun _ => goes_ite (fun _ => goes_unexpected _ t) fun _ => ?_
    have body {f : Block → Reader (List Arm × Option Block)} (rest : ∀ b, GoesWhen (Cursor.FewerThan fuel) false n (f b)) :
        GoesWhen (Cursor.FewerThan fuel) false n (do
          let _ ← expect (.symbol .fatArrow)
          f (← g.block depth)) :=
      goes_few (goes_expect (by decide)).weaken fun _ => goes_few (goes_block goes).less.weaken rest
    refine goes_ite (fun isDefault => ?_) fun _ => ?_
    · refine (goes_item (goes_next.mono (inside_of_kind (beq_iff_eq.1 isDefault) nofun)) fun t => ?_).weaken
      exact goes_ite (fun _ => goes_failAt_bind _ nofun) fun _ => body fun _ => ih _
    · refine (goes_item (goes.expression depth 0).on fun value => body fun b => ?_).weaken
      exact goes_few (goes_markFrom _ _) fun _ => goes_map (ih _)

theorem goes_selecting : GoesWhen Cursor.Inside true (n + 1) (g.selecting depth) := by
  unfold selecting
  refine goes_next_bind fun _ => goes_bind (goes_parenthesised goes).weaken fun _ =>
    goes_bind (goes_expect (by decide)).weaken fun _ => goes_get_bind fun c => ?_
  refine goes_stopped ((goes_armsUpTo goes none _).mono ?_) (Q := Cursor.Inside) ?_ fun _ => ?_
  · rintro _ rfl
    exact Nat.lt_succ_self _
  · intro c result c' run atEnd
    cases (armsUpTo_stops _ run).symm.trans atEnd
  · exact goes_bind goes_next.weaken fun _ => goes_map (goes_markFrom _ _)

theorem goes_looping : GoesWhen Cursor.Inside true (n + 1) (g.looping depth) :=
  goes_next_bind fun _ => goes_bind (goes_expect (by decide)).weaken fun _ => goes_bind goes_name.weaken fun _ =>
    goes_bind (goes_expect (by decide)).weaken fun _ => goes_bind (goes.expression depth 0).weaken fun _ =>
      goes_bind (goes_expect (by decide)).weaken fun _ => goes_bind (goes_block goes).less.weaken fun _ =>
        goes_map (goes_markFrom _ _)

omit goes in
theorem goes_doing (expression : Reader.Goes true m (g.expression depth 0)) : GoesWhen P true m (g.doing depth) :=
  goes_peek_bind fun _ => goes_bind expression.on fun _ => goes_bind (goes_expect (by decide)).weaken fun _ =>
    goes_map (goes_markFrom _ _)

/-- An expression as a statement starts with the same token as the expression, so it needs the steps for it. -/
theorem goes_statementStep (few : m ≤ n + 1) (expression : Reader.Goes true m (g.expression depth 0)) :
    Reader.Goes true m (g.statementStep depth) := by
  unfold statementStep
  refine goes_peek_bind fun t => ?_
  split
  · next kind => exact goes_importing.mono (inside_of_kind kind nofun)
  · exact goes_map ((goes_declaration goes).fewer few)
  · exact goes_map ((goes_declaration goes).fewer few)
  · exact goes_map ((goes_declaration goes).fewer few)
  · exact goes_map ((goes_declaration goes).fewer few)
  · next kind => exact ((goes_binding goes).fewer few).mono (inside_of_kind kind nofun)
  · next kind => exact ((goes_returning goes).fewer few).mono (inside_of_kind kind nofun)
  · next kind => exact ((goes_branching goes).fewer few).mono (inside_of_kind kind nofun)
  · next kind => exact ((goes_selecting goes).fewer few).mono (inside_of_kind kind nofun)
  · next kind => exact ((goes_looping goes).fewer few).mono (inside_of_kind kind nofun)
  · exact goes_map ((goes_block goes).fewer few)
  · exact goes_doing expression

/-! ## Markup -/

theorem goes_attr : GoesWhen Cursor.Inside true n (g.attr depth) := by
  unfold attr
  refine goes_bind goes_next fun start => goes_bind (goes_expect (by decide)).weaken fun _ => goes_peek_bind fun t => ?_
  have closing {f : Mark → Attribute} : Reader.Goes false n (do return f (← markFrom start start)) :=
    goes_map (goes_markFrom _ _)
  split
  · next kind => exact goes_bind (goes_next.mono (inside_of_kind kind nofun)).weaken fun _ => goes_pure_bind closing
  · next kind =>
    exact goes_bind (goes_next.mono (inside_of_kind kind nofun)).weaken fun _ =>
      goes_bind (goes.expression depth 0).weaken fun _ => goes_bind (goes_expect (by decide)).weaken fun _ =>
        goes_pure_bind closing
  · exact goes_unexpected_bind _ t

theorem goes_attributesUpTo (fuel : Nat) : GoesWhen P false n (g.attributesUpTo depth fuel) := by
  induction fuel generalizing P with
  | zero => exact goes_pure _
  | succ fuel ih =>
    refine goes_peek_bind fun t => goes_ite (fun named => ?_) fun _ => goes_pure _
    exact goes_bind ((goes_attr goes).mono (inside_of_head (inside_of_isName named))).weaken fun _ => goes_map ih

omit goes in
theorem goes_textRest (sofar : Text) (fuel : Nat) : GoesWhen P false n (textRest sofar fuel) := by
  induction fuel generalizing P sofar with
  | zero => exact goes_pure _
  | succ fuel ih =>
    refine goes_peek_bind fun t => goes_ite (fun _ => goes_pure _) fun goesOn => ?_
    have inside : t.kind ≠ .endOfInput := by
      intro atEnd
      rw [atEnd] at goesOn
      exact goesOn rfl
    refine goes_inspect_bind fun _ => ?_
    exact goes_bind (goes_next.mono (inside_of_head inside)).weaken fun _ => ih _

omit goes in
theorem goes_text : GoesWhen Cursor.Inside true n text :=
  goes_bind goes_next fun _ => goes_get_bind fun _ => goes_then (goes_textRest _ _) fun _ => goes_map (goes_markFrom _ _)

theorem goes_hole : GoesWhen Cursor.Inside true n (g.hole depth) :=
  goes_bind goes_next fun _ => goes_bind (goes.expression depth 0).weaken fun _ =>
    goes_bind (goes_expect (by decide)).weaken fun _ => goes_map (goes_markFrom _ _)

omit goes in
theorem goes_closingTag (tag : String) : GoesWhen Cursor.Inside true n (closingTag tag) := by
  unfold closingTag
  refine goes_bind goes_next fun _ => (goes_next_moving fun t => ?_).weaken
  exact goes_ite (fun _ => goes_failAt_bind t nofun) fun _ => goes_bind (goes_expect (by decide)) fun _ => goes_pure _

theorem goes_childrenUpTo (tag : String) (fuel : Nat) :
    GoesWhen (Cursor.FewerThan fuel) true n (g.childrenUpTo depth tag fuel) := by
  induction fuel with
  | zero => exact fun c _ none => absurd none (Nat.not_lt_zero _)
  | succ fuel ih =>
    refine goes_look_bind fun t => ?_
    split
    · exact goes_unexpected _ t
    · next kind =>
      refine goes_bind ((goes_closingTag tag).mono fun c holds => ?_) fun _ => goes_pure _
      exact inside_of_kind kind nofun c holds.2
    · next kind =>
      refine (goes_item (goes.element depth) fun e => goes_map ih.weaken).mono fun c holds => ⟨holds.1, ?_⟩
      rw [holds.2, kind]
    · next kind =>
      refine (goes_item (goes_hole goes) fun h => goes_map ih.weaken).mono fun c holds => ⟨holds.1, ?_⟩
      exact inside_of_kind kind nofun c holds.2
    · next other _ _ _ =>
      refine (goes_item goes_text fun h => goes_map ih.weaken).mono fun c holds => ⟨holds.1, ?_⟩
      exact inside_of_head other c holds.2

theorem goes_elementStep : GoesWhen (fun c => c.head.kind = .symbol .less) true (n + 1) (g.elementStep depth) := by
  unfold elementStep
  refine goes_enter_bind fun depth => goes_first (goes_next.mono fun c kind => inside_of_kind kind nofun c rfl) fun start => ?_
  refine (goes_next_moving fun tagToken => goes_ite (fun _ => goes_unexpected_bind _ tagToken) fun _ => ?_).weaken
  refine goes_get_bind fun _ => goes_then (goes_attributesUpTo goes _) fun as => ?_
  refine goes_accept_bind (by decide) (goes_map (goes_markFrom _ _)) ?_
  refine goes_bind (goes_expect (by decide)) fun _ => goes_get_bind fun c => ?_
  refine goes_bind ((goes_childrenUpTo goes _ _).mono ?_).weaken fun _ => goes_map (goes_markFrom _ _)
  rintro _ rfl
  exact Nat.lt_succ_self _

theorem goes_markup : GoesWhen Cursor.Inside true (n + 1) (g.markup depth) := by
  unfold markup
  refine goes_next_bind fun start => goes_peekIs_bind fun t => ?_
  refine goes_ite (fun _ => goes_peek_bind fun t => goes_unexpected_bind _ t) fun isLess => ?_
  refine goes_bind ((goes.element depth).mono fun c here => ?_).weaken fun _ => goes_map (goes_spanFrom _)
  rw [here]
  simpa using isLess

/-! ## Expressions -/

theorem goes_expressions {stop : TokenKind} (inside : stop ≠ .endOfInput) :
    Reader.Goes false n (g.expressions depth stop) :=
  goes_then (goes_accept inside) fun _ => goes_ite (fun _ => goes_pure _) fun _ =>
    goes_bind (goes_commaList (goes.expression depth 0)).weaken fun _ => goes_bind (goes_expect inside).weaken fun _ =>
      goes_pure _

theorem goes_lambdaBody : Reader.Goes true n (g.lambdaBody depth) :=
  goes_peekIs_bind fun _ => goes_ite (fun _ => goes_map (goes_block goes).less) fun _ =>
    goes_map (goes.expression depth 0).on

theorem goes_lambda : GoesWhen Cursor.Inside true (n + 1) (g.lambda depth) :=
  goes_next_bind fun _ => goes_then (goes_parameters goes) fun _ => goes_then (goes_typed goes) fun _ =>
    goes_bind (goes_expect (by decide)).weaken fun _ => goes_bind (goes_lambdaBody goes).weaken fun _ =>
      goes_map (goes_markFrom _ _)

theorem goes_group : GoesWhen Cursor.Inside true (n + 1) (g.group depth) :=
  goes_next_bind fun _ => goes_bind (goes.expression depth 0).weaken fun _ =>
    goes_bind (goes_expect (by decide)).weaken fun _ => goes_pure _

theorem goes_creation : GoesWhen Cursor.Inside true (n + 1) (g.creation depth) := by
  unfold creation
  refine goes_next_bind fun start => goes_bind (goes.type depth).weaken fun type => ?_
  refine goes_ite (fun _ => goes_get_bind fun _ => goes_failAt_bind _ nofun) fun _ => ?_
  exact goes_bind (goes_expect (by decide)).weaken fun _ => goes_then (goes_expressions goes (by decide)) fun _ =>
    goes_map (goes_markFrom _ _)

theorem goes_unary (op : UnaryOp) : GoesWhen Cursor.Inside true (n + 1) (g.unary depth op) :=
  goes_next_bind fun _ => goes_bind (goes.expression depth _).weaken fun _ => goes_map (goes_markFrom _ _)

theorem goes_operand : Reader.Goes true (n + 1) (g.operand depth) := by
  unfold operand
  refine goes_peek_bind fun t => ?_
  split
  · next kind => exact goes_map (goes_next.mono (inside_of_kind kind nofun))
  · next kind => exact goes_map (goes_next.mono (inside_of_kind kind nofun))
  · next kind => exact goes_map (goes_next.mono (inside_of_kind kind nofun))
  · next kind => exact goes_map (goes_next.mono (inside_of_kind kind nofun))
  · next kind => exact goes_map (goes_next.mono (inside_of_kind kind nofun))
  · next kind => exact goes_map (goes_next.mono (inside_of_kind kind nofun))
  · next kind => exact goes_parent.mono (inside_of_kind kind nofun)
  · next kind => exact (goes_creation goes).mono (inside_of_kind kind nofun)
  · next kind => exact (goes_markup goes).mono (inside_of_kind kind nofun)
  · next kind =>
    exact goes_first (goes_next.mono (inside_of_kind kind nofun)) fun _ =>
      goes_then (goes_expressions goes (by decide)) fun _ => goes_map (goes_markFrom _ _)
  · next kind =>
    refine goes_inspect_bind fun _ => goes_ite (fun _ => ?_) fun _ => ?_
    · exact (goes_lambda goes).mono (inside_of_kind kind nofun)
    · exact (goes_group goes).mono (inside_of_kind kind nofun)
  · next kind => exact (goes_unary goes _).mono (inside_of_kind kind nofun)
  · next kind => exact (goes_unary goes _).mono (inside_of_kind kind nofun)
  · exact goes_failAt t nofun

theorem goes_infixStep (start : Token) (left : Expr) (kind : Infix) :
    GoesWhen Cursor.Inside true n (g.infixStep depth start left kind) := by
  unfold infixStep
  refine goes_bind goes_next fun head => ?_
  cases kind with
  | binary op => exact goes_bind (goes.expression depth _).weaken fun _ => goes_map (goes_markFrom _ _)
  | assign =>
    exact goes_ite (fun _ => goes_failAt_bind head nofun) fun _ =>
      goes_bind (goes.expression depth _).weaken fun _ => goes_map (goes_markFrom _ _)
  | call => exact goes_then (goes_expressions goes (by decide)) fun _ => goes_map (goes_markFrom _ _)
  | index =>
    exact goes_bind (goes.expression depth 0).weaken fun _ => goes_bind (goes_expect (by decide)).weaken fun _ =>
      goes_map (goes_markFrom _ _)
  | member => exact goes_bind goes_name.weaken fun _ => goes_map (goes_markFrom _ _)

theorem goes_infixRest (precedence : Nat) (start : Token) (left : Expr) (fuel : Nat) :
    GoesWhen P false n (g.infixRest depth precedence start left fuel) := by
  induction fuel generalizing P left with
  | zero => exact goes_pure _
  | succ fuel ih =>
    refine goes_peek_bind fun t => ?_
    split
    · exact goes_pure _
    · next kind found =>
      have inside := inside_of_head (inside_of_operator found)
      refine goes_ite (fun _ => ?_) fun _ => goes_pure _
      exact goes_bind ((goes_infixStep goes start left kind).mono inside).weaken fun _ => ih _

theorem goes_expressionStep (precedence : Nat) : Reader.Goes true (n + 1) (g.expressionStep depth precedence) :=
  goes_enter_bind fun _ => goes_peek_bind fun _ => goes_first (goes_operand goes).on fun _ =>
    goes_get_bind fun _ => goes_infixRest goes _ _ _ _

/-! ## Programs -/

theorem goes_statementsUpTo (fuel : Nat) : GoesWhen (Cursor.FewerThan fuel) false n (g.statementsUpTo fuel) := by
  induction fuel with
  | zero => exact fun c _ none => absurd none (Nat.not_lt_zero _)
  | succ fuel ih =>
    refine goes_lookIs_bind fun atEnd => goes_ite (fun _ => goes_pure _) fun _ => ?_
    exact ((goes_item (goes.statement 0) fun _ => goes_map ih).mono fun c holds => ⟨holds, trivial⟩).weaken

theorem goes_program (file : String) : Reader.Goes false n (g.program file) := by
  unfold program
  refine goes_peek_bind fun start => goes_get_bind fun c => ?_
  refine goes_bind ((goes_statementsUpTo goes _).mono ?_) fun ss => ?_
  · rintro _ rfl
    exact Nat.lt_succ_self _
  · exact goes_ite (fun _ => goes_pure _) fun _ => goes_map (goes_spanFrom _)

end Parts

theorem Goes.fewer {n' m' : Nat} (goes : g.Goes n m) (le : n' ≤ n) (le' : m' ≤ m) : g.Goes n' m' :=
  ⟨fun depth => (goes.statement depth).fewer le, fun depth precedence => (goes.expression depth precedence).fewer le',
    fun depth => (goes.type depth).fewer le', fun depth => (goes.element depth).fewer le'⟩

theorem goes_exhausted {α : Type} {moves : Bool} : GoesWhen P moves 0 (do failAt .exhausted (← peek) : Reader α) :=
  fun _ opened _ none => absurd (List.length_eq_zero_iff.1 (Nat.le_zero.1 none)) opened.ahead_ne_nil

/-- Two nested calls for each token ahead are enough. -/
theorem within_goes (fuel : Nat) : (within fuel).Goes (fuel / 2) ((fuel + 1) / 2) := by
  induction fuel with
  | zero =>
    rw [within_zero]
    exact ⟨fun _ => goes_exhausted, fun _ _ => goes_exhausted, fun _ => goes_exhausted, fun _ => goes_exhausted⟩
  | succ fuel ih =>
    have half : (fuel + 1 + 1) / 2 = fuel / 2 + 1 := by omega
    have nested : (within fuel).Goes (fuel / 2) (fuel / 2) := ih.fewer (Nat.le_refl _) (by omega)
    rw [within_succ, half]
    exact ⟨fun depth => goes_statementStep nested (by omega) (ih.expression depth 0),
      fun _ => goes_expressionStep nested, fun _ => goes_typeStep nested, fun _ => goes_elementStep nested⟩

end Grammar

end ClassScript
