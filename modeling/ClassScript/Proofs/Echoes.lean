import ClassScript.Proofs.Moves
import ClassScript.Proofs.Reads
import ClassScript.Proofs.Shapes
import ClassScript.Proofs.SpanTrees

/-!
# Reading the same tokens elsewhere

What a reader takes decides what it returns: if the tokens it took are moved to another place, in front of tokens that
go on no differently, a reader that nests less deeply takes them again and returns the same tree, moved
(`EchoesWhen`). Where a parenthesis opens a lambda is decided by looking ahead without a bound, so it is also followed how
many parentheses the tokens that are taken leave open.
-/

namespace ClassScript

/-! ## Parentheses -/

/-- If `a` parentheses are open in front of the tokens, `b` are open behind them. -/
def Opens (a b : Nat) (ts : List Token) : Prop := (ts.map Token.shape).foldlM Shape.open? a = some b

theorem opens_nil (a : Nat) : Opens a a [] := rfl

theorem Opens.append {a b d : Nat} {ts us : List Token} (first : Opens a b ts) (rest : Opens b d us) :
    Opens a d (ts ++ us) := by
  rw [Opens, List.map_append, List.foldlM_append, first]
  exact rest

/-- A kind of token that takes the number of open parentheses from `a` to `b`. -/
def Turns (k : TokenKind) (a b : Nat) : Prop := ∀ t : Token, t.kind = k → t.shape.open? a = some b

theorem turns_left (a : Nat) : Turns (.symbol .leftParen) a (a + 1) := by
  intro t kind
  rw [Shape.open?, show t.shape.kind = _ from kind]

theorem turns_right (a : Nat) : Turns (.symbol .rightParen) (a + 1) a := by
  intro t kind
  rw [Shape.open?, show t.shape.kind = _ from kind]
  rfl

/-- A kind of token that is no parenthesis. -/
theorem turns_other {k : TokenKind} (other : k ≠ .symbol .leftParen ∧ k ≠ .symbol .rightParen ∧ k ≠ .endOfInput)
    (a : Nat) : Turns k a a := by
  intro t kind
  rw [Shape.open?, show t.shape.kind = _ from kind]
  split <;> simp_all

theorem Turns.opens {t : Token} {a b : Nat} (turns : Turns t.kind a b) : Opens a b [t] := by
  rw [Opens, List.map_singleton, List.foldlM_cons, turns t rfl]
  rfl

/-- Whether a kind of token behind a closing parenthesis makes a lambda of what it closes. -/
def TokenKind.isArrow (k : TokenKind) : Bool := k == .symbol .arrow || k == .symbol .colon

/-- Behind a token that closes nothing that is looked for, looking ahead for a lambda goes on. -/
theorem lambdaAhead_cons {t : Token} {depth next : Nat} (turns : t.shape.open? depth = some next) (deep : 0 < next)
    (ts : List Token) : Grammar.lambdaAhead depth (t :: ts) = Grammar.lambdaAhead next ts := by
  rw [Grammar.lambdaAhead.eq_def]
  dsimp only
  obtain ⟨isLeft, rfl⟩ | ⟨isRight, rfl⟩ | ⟨noLeft, noRight, noEnd, rfl⟩ := Shape.open?_cases turns
  · rw [show t.kind = _ from isLeft]
  · rw [show t.kind = _ from isRight]
    exact if_neg (by omega)
  · split
    · contradiction
    · contradiction
    · contradiction
    · rfl

/-- If tokens close the parenthesis that is open in front of them, looking ahead for a lambda is decided by them, or by
the token that comes next. -/
theorem lambdaAhead_decided {ts : List Token} {depth : Nat} (deep : 0 < depth) (opens : Opens depth 0 ts) :
    (∃ b, ∀ (us : List Token) (v : Token) (rest : List Token), us.map Token.kind = ts.map Token.kind →
      Grammar.lambdaAhead depth (us ++ v :: rest) = b) ∨
      ∀ (us : List Token) (v : Token) (rest : List Token), us.map Token.kind = ts.map Token.kind →
        Grammar.lambdaAhead depth (us ++ v :: rest) = v.kind.isArrow := by
  induction ts generalizing depth with
  | nil =>
    cases opens
    exact absurd deep (Nat.lt_irrefl 0)
  | cons t ts ih =>
    rw [Opens, List.map_cons, List.foldlM_cons] at opens
    obtain ⟨next, turns, opens⟩ := Option.bind_eq_some_iff.1 opens
    have turns' {u : Token} (kind : u.kind = t.kind) : u.shape.open? depth = some next := by
      rw [← turns, Shape.open?, Shape.open?, show u.shape.kind = t.shape.kind from kind]
    by_cases closed : next = 0
    · have isRight : t.kind = .symbol .rightParen ∧ depth = 1 := by
        obtain ⟨-, rfl⟩ | ⟨isRight, rfl⟩ | ⟨-, -, -, rfl⟩ := Shape.open?_cases turns
        · cases closed
        · exact ⟨isRight, by rw [closed]⟩
        · omega
      obtain ⟨isRight, rfl⟩ := isRight
      cases ts with
      | nil =>
        refine .inr fun us v rest kinds => ?_
        obtain ⟨u, us, rfl, kind, none⟩ := List.map_eq_cons_iff.1 kinds
        rw [List.map_eq_nil_iff.1 none]
        exact lambdaAhead_closed (kind.trans isRight) rest
      | cons h ts =>
        refine .inl ⟨h.kind.isArrow, fun us v rest kinds => ?_⟩
        obtain ⟨u, us, rfl, kind, kinds⟩ := List.map_eq_cons_iff.1 kinds
        obtain ⟨h', us, rfl, kind', -⟩ := List.map_eq_cons_iff.1 kinds
        rw [← kind']
        exact lambdaAhead_closed (kind.trans isRight) _
    · have deeper : 0 < next := Nat.pos_of_ne_zero closed
      refine (ih deeper opens).imp (fun ⟨b, decided⟩ => ⟨b, fun us v rest kinds => ?_⟩) fun decided us v rest kinds => ?_
      · obtain ⟨u, us, rfl, kind, kinds⟩ := List.map_eq_cons_iff.1 kinds
        rw [List.cons_append, lambdaAhead_cons (turns' kind) deeper, decided us v rest kinds]
      · obtain ⟨u, us, rfl, kind, kinds⟩ := List.map_eq_cons_iff.1 kinds
        rw [List.cons_append, lambdaAhead_cons (turns' kind) deeper, decided us v rest kinds]

/-! ## Echoes -/

/-- Another place for the tokens of a region, where spans cover each other as before. -/
structure Relocation where
  place : Span → Span
  region : Token → Prop
  covers : ∀ {t u : Token}, region t → region u → place (t.span.cover u.span) = (place t.span).cover (place u.span)

/-- The token in its new place. -/
abbrev Relocation.token (r : Relocation) (t : Token) : Token := t.moved r.place

namespace Reader

variable {α β : Type} (tokens : List Token) (r : Relocation)

/-- Whatever `x` takes from the tokens, `x'` takes again from the same tokens in their new place, and returns `μ` of what
`x` returned, which has the property `Φ`. The tokens behind may differ as `R` allows for the first of them. This is said
of at most `n` tokens; if `a` parentheses are open in front of them, `b` are open behind. With `w` a construct has
started that is marked later, and with `e` at least one token is taken. The conditions are on the tokens ahead. -/
def EchoesWhen (P P' : List Token → Prop) (R : TokenKind → TokenKind → Prop) (w : Option Token) (e : Bool) (a b n : Nat)
    (x x' : Reader α) (μ : α → α) (Φ : α → Prop) : Prop :=
  ∀ c v c₁, c.On tokens → P c.ahead → x c = .ok (v, c₁) →
    Φ v ∧ ∃ used, c.ahead = used ++ c₁.ahead ∧ c₁.last = used.getLastD c.last ∧ c₁.On tokens ∧ (e = true → used ≠ []) ∧
      (used.length ≤ n → (∀ t ∈ used, r.region t) → Opens a b used ∧
        ∀ last u rest, R c₁.head.kind u.kind →
          (∀ s ∈ w, r.region s ∧ r.region c.last ∧ last = r.token c.last) → P' (used.map r.token ++ u :: rest) →
          x' ⟨last, used.map r.token ++ u :: rest⟩ = .ok (μ v, ⟨(used.map r.token).getLastD last, u :: rest⟩))

/-- A reader that echoes whatever is ahead. -/
abbrev Echoes : (TokenKind → TokenKind → Prop) → Option Token → Bool → Nat → Nat → Nat →
    Reader α → Reader α → (α → α) → (α → Prop) → Prop :=
  EchoesWhen tokens r (fun _ => True) (fun _ => True)

/-- A reader that echoes if the token ahead is `t`. -/
abbrev EchoesAt (t : Token) : (TokenKind → TokenKind → Prop) → Option Token → Bool → Nat → Nat → Nat →
    Reader α → Reader α → (α → α) → (α → Prop) → Prop :=
  EchoesWhen tokens r (fun ahead => ahead.head? = some t) fun _ => True

variable {tokens r} {length : Nat} {P P' Q Q' : List Token → Prop} {R S : TokenKind → TokenKind → Prop}
  {w w' : Option Token} {e e₁ e₂ : Bool} {a b d n m k : Nat} {t : Token} {x x' : Reader α} {g g' : α → Reader β}
  {μ : α → α} {ν : β → β} {Φ Ω : α → Prop} {Ψ : β → Prop}

theorem head_eq {c : Cursor} {u : Token} {rest : List Token} (ahead : c.ahead = u :: rest) : c.head = u := by
  rw [Cursor.head, ahead, List.headD_cons]

theorem head?_ahead {c : Cursor} (on : c.On tokens) : c.ahead.head? = some c.head := by
  obtain ⟨u, rest, ahead⟩ := List.exists_cons_of_ne_nil on.ahead
  rw [head_eq ahead, ahead, List.head?_cons]

theorem getLastD_map (f : Token → Token) (ts : List Token) (t : Token) :
    (ts.map f).getLastD (f t) = f (ts.getLastD t) := by
  induction ts generalizing t with
  | nil => rfl
  | cons u ts ih => rw [List.map_cons, List.getLastD_cons, List.getLastD_cons, ih]

theorem getLastD_mem {ts : List Token} (some : ts ≠ []) (t : Token) : ts.getLastD t ∈ ts := by
  rw [List.getLastD_eq_getLast?, List.getLast?_eq_some_getLast some]
  exact List.getLast_mem some

/-! ## Rules -/

/-- One reader behind another. -/
theorem echoesWhen_bind (first : EchoesWhen tokens r P P' S w e₁ a b n x x' μ Φ)
    (rest : ∀ v, Φ v → EchoesWhen tokens r Q Q' R w' e₂ b d m (g v) (g' (μ v)) ν Ψ)
    (refl : ∀ k, S k k) (follows : e₂ = true ∨ ∀ k k', R k k' → S k k')
    (starts : ∀ used ahead, P (used ++ ahead) → (e₁ = true → used ≠ []) → ∀ s ∈ w', s ∈ used ∨ s ∈ w)
    (within : k ≤ n ∨ e₂ = true ∧ k ≤ n + 1) (within' : k ≤ m ∨ e₁ = true ∧ k ≤ m + 1)
    (takes : e = true → e₁ = true ∨ e₂ = true)
    (goesOn : ∀ c v c₁ used, c₁.On tokens → P c.ahead → c.ahead = used ++ c₁.ahead → (e₁ = true → used ≠ []) →
      x c = .ok (v, c₁) → Q c₁.ahead)
    (goesOn' : ∀ used ahead, P' (used ++ ahead) → (e₁ = true → used ≠ []) → Q' ahead) :
    EchoesWhen tokens r P P' R w e a d k (x >>= g) (x' >>= g') ν Ψ := by
  intro c v c₁ on here run
  obtain ⟨v₁, mid, ran, run⟩ := bind_ok run
  obtain ⟨holds, used₁, ahead₁, last₁, onMid, some₁, echo₁⟩ := first c v₁ mid on here ran
  have condition : Q mid.ahead := goesOn c v₁ mid used₁ onMid here ahead₁ some₁ ran
  obtain ⟨holds, used₂, ahead₂, last₂, on₁, some₂, echo₂⟩ := rest v₁ holds mid v c₁ onMid condition run
  refine ⟨holds, used₁ ++ used₂, by rw [ahead₁, ahead₂, List.append_assoc], by rw [last₂, last₁, getLastD_append], on₁,
    ?_, ?_⟩
  · intro some
    rcases takes some with some | some
    · simp [some₁ some]
    · simp [some₂ some]
  · intro small inRegion
    rw [List.length_append] at small
    have positive₁ : e₁ = true → 0 < used₁.length := fun some => List.length_pos_iff.2 (some₁ some)
    have positive₂ : e₂ = true → 0 < used₂.length := fun some => List.length_pos_iff.2 (some₂ some)
    have small₁ : used₁.length ≤ n := by
      rcases within with small' | ⟨some, small'⟩
      · omega
      · have := positive₂ some
        omega
    have small₂ : used₂.length ≤ m := by
      rcases within' with small' | ⟨some, small'⟩
      · omega
      · have := positive₁ some
        omega
    have inRegion₁ : ∀ t ∈ used₁, r.region t := fun t found => inRegion t (List.mem_append_left _ found)
    have inRegion₂ : ∀ t ∈ used₂, r.region t := fun t found => inRegion t (List.mem_append_right _ found)
    obtain ⟨opens₁, echo₁⟩ := echo₁ small₁ inRegion₁
    obtain ⟨opens₂, echo₂⟩ := echo₂ small₂ inRegion₂
    refine ⟨opens₁.append opens₂, fun last u more allowed warm condition' => ?_⟩
    rw [List.map_append, List.append_assoc] at condition' ⊢
    rw [getLastD_append]
    have next : ∃ u' more', used₂.map r.token ++ u :: more = u' :: more' ∧ S mid.head.kind u'.kind := by
      cases used₂ with
      | nil =>
        have same : mid.head = c₁.head := by
          obtain ⟨h, ahead, same⟩ := List.exists_cons_of_ne_nil on₁.ahead
          rw [head_eq same, head_eq (ahead₂.trans same)]
        refine ⟨u, more, rfl, ?_⟩
        rcases follows with some | follows
        · exact absurd rfl (some₂ some)
        · rw [same]
          exact follows _ _ allowed
      | cons t ts =>
        refine ⟨r.token t, ts.map r.token ++ u :: more, rfl, ?_⟩
        rw [head_eq ahead₂]
        exact refl t.kind
    obtain ⟨u', more', shown, follows'⟩ := next
    have condition₂ : Q' (used₂.map r.token ++ u :: more) :=
      goesOn' (used₁.map r.token) _ condition' fun some => by simpa using some₁ some
    rw [shown] at condition' ⊢
    rw [bind_of_ok (echo₁ last u' more' follows' warm condition'), ← shown]
    refine echo₂ _ u more allowed (fun s started => ?_) condition₂
    rcases starts used₁ mid.ahead (ahead₁ ▸ here) some₁ s started with found | before
    · have some : used₁ ≠ [] := List.ne_nil_of_mem found
      refine ⟨inRegion₁ s found, ?_, ?_⟩
      · rw [last₁]
        exact inRegion₁ _ (getLastD_mem some _)
      · rw [last₁]
        obtain ⟨t, ts, rfl⟩ := List.exists_cons_of_ne_nil some
        rw [List.map_cons, List.getLastD_cons, List.getLastD_cons, getLastD_map]
    · obtain ⟨inRegion, lastIn, same⟩ := warm s before
      refine ⟨inRegion, ?_, ?_⟩
      · rw [last₁]
        by_cases some : used₁ = []
        · rw [some]
          exact lastIn
        · exact inRegion₁ _ (getLastD_mem some _)
      · rw [last₁, same, getLastD_map]

theorem EchoesWhen.mono (echoes : EchoesWhen tokens r P P' S none e₁ a b m x x' μ Φ) (weaker : ∀ v, Φ v → Ω v)
    (here : ∀ ahead, Q ahead → P ahead) (there : ∀ ahead, Q' ahead → P' ahead) (follows : ∀ k k', R k k' → S k k')
    (takes : e = true → e₁ = true) (small : n ≤ m) : EchoesWhen tokens r Q Q' R w e a b n x x' μ Ω := by
  intro c v c₁ on condition run
  obtain ⟨holds, used, ahead, last, on₁, some, echo⟩ := echoes c v c₁ on (here _ condition) run
  refine ⟨weaker v holds, used, ahead, last, on₁, fun h => some (takes h), fun few inRegion => ?_⟩
  obtain ⟨opens, echo⟩ := echo (Nat.le_trans few small) inRegion
  exact ⟨opens, fun last u rest allowed _ condition' => echo last u rest (follows _ _ allowed) nofun (there _ condition')⟩

/-- Less can be said of fewer tokens. -/
theorem EchoesWhen.fewer (echoes : EchoesWhen tokens r P P' R none e a b (n + 1) x x' μ Φ) :
    EchoesWhen tokens r P P' R none e a b n x x' μ Φ :=
  echoes.mono (fun _ => id) (fun _ => id) (fun _ => id) (fun _ _ => id) id (Nat.le_succ n)

/-- Where it does not matter whether tokens are taken, some may be. -/
theorem EchoesWhen.lax (echoes : EchoesWhen tokens r P P' R w true a b n x x' μ Φ) :
    EchoesWhen tokens r P P' R w false a b n x x' μ Φ := by
  intro c v c₁ on condition run
  obtain ⟨holds, used, ahead, last, on₁, -, echo⟩ := echoes c v c₁ on condition run
  exact ⟨holds, used, ahead, last, on₁, nofun, echo⟩

/-- Of no tokens, nothing is said about a reader that takes some. -/
theorem EchoesWhen.nothing {y : Reader α} (echoes : EchoesWhen tokens r P P' R w true a b n x x' μ Φ) :
    EchoesWhen tokens r P P' R w true a b 0 x y μ Φ := by
  intro c v c₁ on condition run
  obtain ⟨holds, used, ahead, last, on₁, some, -⟩ := echoes c v c₁ on condition run
  refine ⟨holds, used, ahead, last, on₁, some, fun none => ?_⟩
  exact absurd (List.length_eq_zero_iff.1 (Nat.le_zero.1 none)) (some rfl)

theorem Echoes.when (echoes : Echoes tokens r R w e a b n x x' μ Φ) : EchoesWhen tokens r P P' R w e a b n x x' μ Φ := by
  intro c v c₁ on _ run
  obtain ⟨holds, used, ahead, last, on₁, some, echo⟩ := echoes c v c₁ on trivial run
  refine ⟨holds, used, ahead, last, on₁, some, fun small inRegion => ⟨(echo small inRegion).1, ?_⟩⟩
  exact fun last' u more allowed warm _ => (echo small inRegion).2 last' u more allowed warm trivial

theorem Echoes.at (echoes : Echoes tokens r R w e a b n x x' μ Φ) : EchoesAt tokens r t R w e a b n x x' μ Φ :=
  fun c v c₁ on _ run => echoes c v c₁ on trivial run

theorem echoes_of_at (each : ∀ t ∈ tokens, EchoesAt tokens r t R w e a b n x x' μ Φ) :
    Echoes tokens r R w e a b n x x' μ Φ :=
  fun c v c₁ on _ run => each c.head on.head_mem c v c₁ on (head?_ahead on) run

/-- One reader in front of another that takes tokens. -/
theorem echoes_bind (first : EchoesWhen tokens r P P' S none e₁ a b n x x' μ Φ) (refl : ∀ k, S k k)
    (rest : ∀ v, Φ v → Echoes tokens r R w true b d n (g v) (g' (μ v)) ν Ψ) :
    EchoesWhen tokens r P P' R w e a d n (x >>= g) (x' >>= g') ν Ψ :=
  echoesWhen_bind (first.mono (fun _ => id) (fun _ => id) (fun _ => id) (fun _ _ => id) id (Nat.le_refl n)) rest refl
    (.inl rfl) (fun _ _ _ _ _ => .inr) (.inl (Nat.le_refl n)) (.inl (Nat.le_refl n)) (fun _ => .inr rfl)
    (fun _ _ _ _ _ _ _ _ _ => trivial) fun _ _ _ _ => trivial

/-- One reader in front of another that may take nothing. -/
theorem echoes_last_bind (first : EchoesWhen tokens r P P' S none e₁ a b n x x' μ Φ) (refl : ∀ k, S k k)
    (follows : ∀ k k', R k k' → S k k') (takes : e = true → e₁ = true)
    (rest : ∀ v, Φ v → Echoes tokens r R w false b d n (g v) (g' (μ v)) ν Ψ) :
    EchoesWhen tokens r P P' R w e a d n (x >>= g) (x' >>= g') ν Ψ :=
  echoesWhen_bind (first.mono (fun _ => id) (fun _ => id) (fun _ => id) (fun _ _ => id) id (Nat.le_refl n)) rest refl
    (.inr follows) (fun _ _ _ _ _ => .inr) (.inl (Nat.le_refl n)) (.inl (Nat.le_refl n)) (fun some => .inl (takes some))
    (fun _ _ _ _ _ _ _ _ _ => trivial) fun _ _ _ _ => trivial

theorem echoes_pure {v v' : α} (same : v' = μ v) (holds : Φ v) :
    EchoesWhen tokens r P P' R w false a a n (pure v) (pure v') μ Φ := by
  intro c v₁ c₁ on _ run
  cases run
  exact ⟨holds, [], rfl, rfl, on, nofun, fun _ _ => ⟨opens_nil a, fun _ _ _ _ _ _ => same ▸ rfl⟩⟩

/-- What is read, as a part of something. -/
theorem echoes_map (f f' : α → β) (echoes : EchoesWhen tokens r P P' R w e a b n x x' μ Φ)
    (same : ∀ v, f' (μ v) = ν (f v)) (holds : ∀ v, Φ v → Ψ (f v)) :
    EchoesWhen tokens r P P' R w e a b n (x >>= fun v => pure (f v)) (x' >>= fun v => pure (f' v)) ν Ψ := by
  intro c v c₁ on condition run
  obtain ⟨v', mid, ran, run⟩ := bind_ok run
  cases run
  obtain ⟨good, used, ahead, last, on₁, some, echo⟩ := echoes c v' c₁ on condition ran
  refine ⟨holds v' good, used, ahead, last, on₁, some, fun small inRegion => ⟨(echo small inRegion).1, ?_⟩⟩
  intro last' u more allowed warm there
  rw [bind_of_ok ((echo small inRegion).2 last' u more allowed warm there), same]
  rfl

theorem echoes_failAt {fault : SyntaxFault} {u : Token} : EchoesWhen tokens r P P' R w e a b n (failAt fault u) x' μ Φ :=
  fun _ _ _ _ _ run => by cases run

theorem echoes_failAt_bind {fault : SyntaxFault} {u : Token} {y : Reader β} :
    EchoesWhen tokens r P P' R w e a b n (failAt fault u >>= g) y ν Ψ :=
  fun _ _ _ _ _ run => by cases run

theorem next_ahead (row : Token.Row tokens length) (inside : t.kind ≠ .endOfInput) {c c₁ : Cursor} {u : Token}
    (on : c.On tokens) (here : c.ahead.head? = some t) (run : next c = .ok (u, c₁)) :
    u = t ∧ c.ahead = t :: c₁.ahead ∧ c₁.last = t ∧ c₁.On tokens := by
  have same : c.head = t := Option.some.inj ((head?_ahead on).symm.trans here)
  obtain ⟨rfl, on₁, isLast, -⟩ := next_past row on (same ▸ inside) run
  refine ⟨same, ?_, isLast.trans same, on₁⟩
  obtain ⟨last, ahead⟩ := c
  match ahead with
  | [u] =>
    have ends := row.last
    obtain ⟨before, rfl⟩ := on.suffix
    rw [List.getLast?_concat, Option.map_some] at ends
    cases here
    exact absurd (Option.some.inj ends) inside
  | u :: v :: rest =>
    cases here
    cases run
    rfl

/-- The token ahead is taken. -/
theorem echoes_next (row : Token.Row tokens length) (inside : t.kind ≠ .endOfInput) (turns : Turns t.kind a b) :
    EchoesAt tokens r t R w true a b n next next r.token fun u => u = t := by
  intro c u c₁ on here run
  obtain ⟨rfl, ahead, last, on₁⟩ := next_ahead row inside on here run
  refine ⟨rfl, [u], ahead, last, on₁, fun _ => List.cons_ne_nil _ _, fun _ _ => ⟨turns.opens, fun _ _ _ _ _ _ => rfl⟩⟩

/-- A construct starts with what the first of two readers takes. -/
theorem echoesAt_start_bind (first : EchoesAt tokens r t S none true a b n x x' μ Φ) (refl : ∀ k, S k k)
    (follows : e₂ = true ∨ ∀ k k', R k k' → S k k') (within : k ≤ n ∨ e₂ = true ∧ k ≤ n + 1) (within' : k ≤ m + 1)
    (rest : ∀ v, Φ v → Echoes tokens r R (some t) e₂ b d m (g v) (g' (μ v)) ν Ψ) :
    EchoesAt tokens r t R none e a d k (x >>= g) (x' >>= g') ν Ψ := by
  refine echoesWhen_bind first rest refl follows ?_ within (.inr ⟨rfl, within'⟩) (fun _ => .inl rfl)
    (fun _ _ _ _ _ _ _ _ _ => trivial) fun _ _ _ _ => trivial
  intro used ahead here some s started
  obtain ⟨u, us, rfl⟩ := List.exists_cons_of_ne_nil (some rfl)
  cases started
  cases here
  exact .inl List.mem_cons_self

/-- A construct starts with the token ahead. -/
theorem echoesAt_first_bind {g g' : Token → Reader β} (row : Token.Row tokens length) (inside : t.kind ≠ .endOfInput)
    (turns : Turns t.kind a b) (rest : Echoes tokens r R (some t) false b d n (g t) (g' (r.token t)) ν Ψ) :
    EchoesAt tokens r t R none e a d (n + 1) (next >>= g) (next >>= g') ν Ψ :=
  echoesAt_start_bind (S := fun _ _ => True) (echoes_next row inside turns) (fun _ => trivial) (.inr fun _ _ _ => trivial)
    (.inl (Nat.le_refl _)) (Nat.le_refl _) fun _ same => by rw [same]; exact rest

/-- The token ahead is taken on the way. -/
theorem echoesAt_next_bind {g g' : Token → Reader β} (row : Token.Row tokens length) (inside : t.kind ≠ .endOfInput)
    (turns : Turns t.kind a b) (rest : Echoes tokens r R w false b d n (g t) (g' (r.token t)) ν Ψ) :
    EchoesAt tokens r t R w e a d n (next >>= g) (next >>= g') ν Ψ :=
  echoes_last_bind (S := fun _ _ => True) (echoes_next row inside turns) (fun _ => trivial) (fun _ _ _ => trivial)
    (fun _ => rfl) fun _ same => same ▸ rest

/-- What lies ahead of a reader is what it takes, or it takes nothing. -/
theorem head_of_ahead {c c₁ : Cursor} {used : List Token} (on₁ : c₁.On tokens) (ahead : c.ahead = used ++ c₁.ahead) :
    (used = [] ∧ c.head = c₁.head) ∨ ∃ us, used = c.head :: us := by
  cases used with
  | nil =>
    obtain ⟨u, rest, same⟩ := List.exists_cons_of_ne_nil on₁.ahead
    exact .inl ⟨rfl, by rw [head_eq same, head_eq (ahead.trans same)]⟩
  | cons u us => exact .inr ⟨us, by rw [head_eq ahead]⟩

theorem echoesAt_peek_bind {f f' : Token → Reader α} (rest : EchoesAt tokens r t R w true a b n (f t) (f' (r.token t)) μ Φ) :
    EchoesAt tokens r t R w true a b n (peek >>= f) (peek >>= f') μ Φ := by
  intro c v c₁ on here run
  have run : f c.head c = .ok (v, c₁) := run
  rw [head?_ahead on] at here
  obtain rfl : c.head = t := Option.some.inj here
  obtain ⟨holds, used, ahead, last, on₁, some, echo⟩ := rest c v c₁ on (head?_ahead on) run
  refine ⟨holds, used, ahead, last, on₁, some, fun small inRegion => ?_⟩
  obtain ⟨opens, echo⟩ := echo small inRegion
  obtain ⟨none, -⟩ | ⟨us, rfl⟩ := head_of_ahead on₁ ahead
  · exact absurd none (some rfl)
  · exact ⟨opens, echo⟩

theorem echoes_peek_bind {f f' : Token → Reader α}
    (rest : ∀ t ∈ tokens, EchoesAt tokens r t R w true a b n (f t) (f' (r.token t)) μ Φ) :
    Echoes tokens r R w true a b n (peek >>= f) (peek >>= f') μ Φ :=
  echoes_of_at fun t found => echoesAt_peek_bind (rest t found)

theorem echoes_peekIs_bind {k : TokenKind} {f f' : Bool → Reader α}
    (rest : ∀ t ∈ tokens, EchoesAt tokens r t R w true a b n (f (t.kind == k)) (f' (t.kind == k)) μ Φ) :
    Echoes tokens r R w true a b n (peekIs k >>= f) (peekIs k >>= f') μ Φ := by
  have looked : Echoes tokens r R w true a b n (peek >>= fun t => f (t.kind == k)) (peek >>= fun t => f' (t.kind == k))
      μ Φ := echoes_peek_bind rest
  exact looked

theorem echoesAt_expect (row : Token.Row tokens length) {k : TokenKind} (inside : k ≠ .endOfInput) (turns : Turns k a b) :
    EchoesAt tokens r t R w true a b n (expect k) (expect k) r.token fun u => u = t ∧ t.kind = k := by
  refine echoesAt_peek_bind ?_
  split
  · next same =>
    have kind : t.kind = k := beq_iff_eq.1 same
    rw [if_pos (show ((r.token t).kind == k) = true from same)]
    exact (echoes_next (w := none) (R := R) row (kind ▸ inside) (kind ▸ turns)).mono
      (fun _ same => ⟨same, kind⟩) (fun _ => id) (fun _ => id) (fun _ _ => id) id (Nat.le_refl n)
  · exact echoes_failAt

theorem echoes_expect (row : Token.Row tokens length) {k : TokenKind} (inside : k ≠ .endOfInput) (turns : Turns k a b) :
    Echoes tokens r R none true a b n (expect k) (expect k) r.token fun u => u ∈ tokens ∧ u.kind = k :=
  echoes_of_at fun _ found => (echoesAt_expect row inside turns).mono (fun _ taken => taken.1 ▸ ⟨found, taken.2⟩)
    (fun _ => id) (fun _ => id) (fun _ _ => id) id (Nat.le_refl n)

/-- A token of a kind is taken on the way. -/
theorem echoes_expect_bind {f f' : Token → Reader α} (row : Token.Row tokens length) {k : TokenKind}
    (inside : k ≠ .endOfInput) (turns : Turns k a b)
    (rest : ∀ t ∈ tokens, t.kind = k → Echoes tokens r R w false b d n (f t) (f' (r.token t)) μ Φ) :
    Echoes tokens r R w e a d n (expect k >>= f) (expect k >>= f') μ Φ :=
  echoes_of_at fun t found => echoes_last_bind (S := fun _ _ => True) (echoesAt_expect row inside turns)
    (fun _ => trivial) (fun _ _ _ => trivial) (fun _ => rfl) fun _ taken => taken.1 ▸ rest t found taken.2

/-- A construct starts with a token of a kind. -/
theorem echoes_open_bind {f f' : Token → Reader α} (row : Token.Row tokens length) {k : TokenKind}
    (inside : k ≠ .endOfInput) (turns : Turns k a b)
    (rest : ∀ t ∈ tokens, t.kind = k → Echoes tokens r R (some t) false b d n (f t) (f' (r.token t)) μ Φ) :
    Echoes tokens r R none e a d (n + 1) (expect k >>= f) (expect k >>= f') μ Φ :=
  echoes_of_at fun t found => echoesAt_start_bind (S := fun _ _ => True) (echoesAt_expect row inside turns)
    (fun _ => trivial) (.inr fun _ _ _ => trivial) (.inl (Nat.le_refl _)) (Nat.le_refl _)
    fun _ taken => by rw [taken.1]; exact rest t found taken.2

/-- A token of a kind is taken if it is there. -/
theorem echoesWhen_accept_bind {f f' : Bool → Reader α} (row : Token.Row tokens length) {k : TokenKind}
    (inside : k ≠ .endOfInput) (turns : Turns k a b) (declines : e = true ∨ ∀ k₁ k₂, R k₁ k₂ → k₁ ≠ k → k₂ ≠ k)
    (yes : EchoesWhen tokens r P P' R w false b d n (f true) (f' true) μ Φ)
    (no : EchoesWhen tokens r P P' R w e a d n (f false) (f' false) μ Φ)
    (goesOn : ∀ used ahead, P (used ++ ahead) → used ≠ [] → P ahead)
    (goesOn' : ∀ used ahead, P' (used ++ ahead) → used ≠ [] → P' ahead) :
    EchoesWhen tokens r P P' R w e a d n (accept k >>= f) (accept k >>= f') μ Φ := by
  intro c v c₁ on condition run
  by_cases kind : c.head.kind = k
  · have taking (f : Bool → Reader α) {c : Cursor} (kind : c.head.kind = k) :
        (accept k >>= f) c = (next >>= fun _ => f true) c := by
      have looked : (accept k >>= f) c = ((if c.head.kind == k then do
          let _ ← next
          return true
        else return false : Reader Bool) >>= f) c := rfl
      rw [looked, if_pos (beq_iff_eq.2 kind), bind_assoc]
      rfl
    rw [taking f kind] at run
    have both : EchoesWhen tokens r (fun ahead => P ahead ∧ ahead.head? = some c.head) P' R w true a d n
        (next >>= fun _ => f true) (next >>= fun _ => f' true) μ Φ := by
      refine echoesWhen_bind (S := fun _ _ => True) (n := n)
        ((echoes_next row (kind ▸ inside) (kind ▸ turns)).mono (fun _ => id) (fun _ => And.right) (fun _ _ => trivial)
          (fun _ _ => id) id (Nat.le_refl n)) (fun _ _ => yes)
        (fun _ => trivial) (.inr fun _ _ _ => trivial) (fun _ _ _ _ _ => .inr) (.inl (Nat.le_refl _))
        (.inl (Nat.le_refl _)) .inl (fun _ _ _ used _ here ahead some _ => ?_) fun used ahead here some => ?_
      · exact goesOn used _ (ahead ▸ here.1) (some rfl)
      · exact goesOn' used ahead here (some rfl)
    obtain ⟨holds, used, ahead, last, on₁, some, echo⟩ := both c v c₁ on ⟨condition, head?_ahead on⟩ run
    refine ⟨holds, used, ahead, last, on₁, fun _ => some rfl, fun small inRegion => ?_⟩
    obtain ⟨opens, echo⟩ := echo small inRegion
    refine ⟨opens, fun last' u rest allowed warm condition' => ?_⟩
    obtain ⟨none, -⟩ | ⟨us, rfl⟩ := head_of_ahead on₁ ahead
    · exact absurd none (some rfl)
    · have there : (⟨last', (c.head :: us).map r.token ++ u :: rest⟩ : Cursor).head.kind = k := kind
      rw [taking f' there]
      exact echo last' u rest allowed warm condition'
  · have staying (f : Bool → Reader α) {c : Cursor} (other : c.head.kind ≠ k) : (accept k >>= f) c = f false c := by
      have looked : (accept k >>= f) c = ((if c.head.kind == k then do
          let _ ← next
          return true
        else return false : Reader Bool) >>= f) c := rfl
      rw [looked, if_neg (by simpa using other), pure_bind]
    rw [staying f kind] at run
    obtain ⟨holds, used, ahead, last, on₁, some, echo⟩ := no c v c₁ on condition run
    refine ⟨holds, used, ahead, last, on₁, some, fun small inRegion => ?_⟩
    obtain ⟨opens, echo⟩ := echo small inRegion
    refine ⟨opens, fun last' u rest allowed warm condition' => ?_⟩
    rw [staying f', echo last' u rest allowed warm condition']
    obtain ⟨rfl, same⟩ | ⟨us, rfl⟩ := head_of_ahead on₁ ahead
    · rcases declines with taken | declines
      · exact absurd rfl (some taken)
      · exact declines _ _ allowed (same ▸ kind)
    · exact kind

theorem echoes_accept_bind {f f' : Bool → Reader α} (row : Token.Row tokens length) {k : TokenKind}
    (inside : k ≠ .endOfInput) (turns : Turns k a b) (declines : e = true ∨ ∀ k₁ k₂, R k₁ k₂ → k₁ ≠ k → k₂ ≠ k)
    (yes : Echoes tokens r R w false b d n (f true) (f' true) μ Φ)
    (no : Echoes tokens r R w e a d n (f false) (f' false) μ Φ) :
    Echoes tokens r R w e a d n (accept k >>= f) (accept k >>= f') μ Φ :=
  echoesWhen_accept_bind row inside turns declines yes no (fun _ _ _ _ => trivial) fun _ _ _ _ => trivial

/-- The source text of a construct that has started. -/
theorem echoes_spanFrom_bind {f f' : Span → Reader α}
    (rest : ∀ span, Echoes tokens r R (some t) e a b n (f span) (f' (r.place span)) μ Φ) :
    Echoes tokens r R (some t) e a b n (spanFrom t >>= f) (spanFrom (r.token t) >>= f') μ Φ := by
  intro c v c₁ on _ run
  have run : f (t.span.cover c.last.span) c = .ok (v, c₁) := run
  obtain ⟨holds, used, ahead, last, on₁, some, echo⟩ := rest _ c v c₁ on trivial run
  refine ⟨holds, used, ahead, last, on₁, some, fun small inRegion => ⟨(echo small inRegion).1, ?_⟩⟩
  intro last' u more allowed warm _
  obtain ⟨started, taken, rfl⟩ := warm t rfl
  have same : (spanFrom (r.token t) >>= f') ⟨r.token c.last, used.map r.token ++ u :: more⟩ =
      f' (r.place (t.span.cover c.last.span)) ⟨r.token c.last, used.map r.token ++ u :: more⟩ := by
    rw [r.covers started taken]
    rfl
  rw [same]
  exact (echo small inRegion).2 _ u more allowed warm trivial

/-- The mark of a construct that has started. -/
theorem echoes_markFrom_bind {f f' : Mark → Reader α} {h : Token}
    (rest : ∀ m, Echoes tokens r R (some t) e a b n (f m) (f' (m.moved r.place)) μ Φ) :
    Echoes tokens r R (some t) e a b n (markFrom h t >>= f) (markFrom (r.token h) (r.token t) >>= f') μ Φ := by
  have marked : Echoes tokens r R (some t) e a b n (spanFrom t >>= fun span => f ⟨h, span⟩)
      (spanFrom (r.token t) >>= fun span => f' ⟨r.token h, span⟩) μ Φ :=
    echoes_spanFrom_bind fun span => rest ⟨h, span⟩
  exact marked

/-- One level deeper, in a place that is no deeper. -/
theorem echoes_enter_bind {f f' : Nat → Reader α} {depth depth' : Nat} (shallow : depth' ≤ depth)
    (rest : Echoes tokens r R w e a b n (f (depth + 1)) (f' (depth' + 1)) μ Φ) :
    Echoes tokens r R w e a b n (Grammar.enter depth >>= f) (Grammar.enter depth' >>= f') μ Φ := by
  intro c v c₁ on _ run
  have shallows : ¬ depth + 1 > maxNesting := by
    intro deep
    rw [show (Grammar.enter depth >>= f) = (_ >>= f) from rfl, Grammar.enter, if_pos deep] at run
    cases run
  rw [Grammar.enter, if_neg shallows, pure_bind] at run
  rw [Grammar.enter, if_neg (by omega), pure_bind]
  exact rest c v c₁ on trivial run

/-! ## Lists -/

/-- A loop is bounded by the number of tokens ahead. -/
theorem echoes_get_bind {f f' : Cursor → Reader α}
    (rest : ∀ s s' : Cursor, EchoesWhen tokens r (·.length ≤ s.ahead.length) (·.length ≤ s'.ahead.length) R w e a b n (f s)
      (f' s') μ Φ) : Echoes tokens r R w e a b n (get >>= f) (get >>= f') μ Φ := by
  intro c v c₁ on _ run
  have run : f c c = .ok (v, c₁) := run
  obtain ⟨holds, used, ahead, last, on₁, some, echo⟩ := rest c c c v c₁ on (Nat.le_refl _) run
  refine ⟨holds, used, ahead, last, on₁, some, fun small inRegion => ?_⟩
  refine ⟨(echo small inRegion).1, fun last' u more allowed warm _ => ?_⟩
  obtain ⟨-, used', ahead', -, -, -, echo⟩ :=
    rest c ⟨last', used.map r.token ++ u :: more⟩ c v c₁ on (Nat.le_refl _) run
  obtain rfl : used' = used := List.append_cancel_right (ahead'.symm.trans ahead)
  exact (echo small inRegion).2 last' u more allowed warm (Nat.le_refl _)

/-- A loop that is bounded by the number of tokens ahead, step by step. -/
theorem echoes_loop {ι : Type} (f f' : ι → Nat → Reader α) (Φ : ι → α → Prop)
    (step : ∀ fuel fuel',
      (∀ i, EchoesWhen tokens r (·.length ≤ fuel) (·.length ≤ fuel') R w e a b n (f i fuel) (f' i fuel') μ (Φ i)) →
        ∀ i, EchoesWhen tokens r (·.length ≤ fuel + 1) (·.length ≤ fuel' + 1) R w e a b n (f i (fuel + 1))
          (f' i (fuel' + 1)) μ (Φ i)) (fuel fuel' : Nat) (i : ι) :
    EchoesWhen tokens r (·.length ≤ fuel) (·.length ≤ fuel') R w e a b n (f i fuel) (f' i fuel') μ (Φ i) := by
  induction fuel generalizing fuel' i with
  | zero =>
    intro c v c₁ on none
    exact absurd (List.length_eq_zero_iff.1 (Nat.le_zero.1 none)) on.ahead
  | succ fuel ih =>
    cases fuel' with
    | succ fuel' => exact step fuel fuel' (ih fuel') i
    | zero =>
      intro c v c₁ on few run
      obtain ⟨holds, used, ahead, last, on₁, some, echo⟩ := step fuel 0 (ih 0) i c v c₁ on few run
      refine ⟨holds, used, ahead, last, on₁, some, fun small inRegion => ⟨(echo small inRegion).1, ?_⟩⟩
      intro last' u more _ _ none
      rw [List.length_append, List.length_cons] at none
      omega

/-- What a loop reads first, if it goes on. -/
theorem echoes_item_bind {fuel fuel' : Nat} (item : EchoesWhen tokens r P (fun _ => True) S none true a b n x x' μ Φ)
    (refl : ∀ k, S k k)
    (rest : ∀ v, Φ v → EchoesWhen tokens r (·.length ≤ fuel) (·.length ≤ fuel') Eq w false b d n (g v) (g' (μ v)) ν Ψ)
    (here : ∀ ahead, P ahead → ahead.length ≤ fuel + 1) (there : ∀ ahead, P' ahead → ahead.length ≤ fuel' + 1) :
    EchoesWhen tokens r P P' Eq w e a d n (x >>= g) (x' >>= g') ν Ψ := by
  refine echoesWhen_bind (item.mono (fun _ => id) (fun _ => id) (fun _ _ => trivial) (fun _ _ => id) id
    (Nat.le_refl n)) rest refl (.inr fun k _ same => same ▸ refl k) (fun _ _ _ _ _ => .inr) (.inl (Nat.le_refl n))
    (.inl (Nat.le_refl n)) (fun _ => .inl rfl) (fun c _ c₁ used _ few ahead some _ => ?_) fun used ahead few some => ?_
  · have few := here _ few
    have positive := List.length_pos_iff.2 (some rfl)
    rw [ahead, List.length_append] at few
    omega
  · have few := there _ few
    have positive := List.length_pos_iff.2 (some rfl)
    rw [List.length_append] at few
    omega

/-- What a loop reads between two rounds. -/
theorem echoes_pass_bind {fuel fuel' : Nat} (first : Echoes tokens r S none e₁ a b n x x' μ Φ) (refl : ∀ k, S k k)
    (rest : ∀ v, Φ v → EchoesWhen tokens r (·.length ≤ fuel) (·.length ≤ fuel') Eq w e b d n (g v) (g' (μ v)) ν Ψ) :
    EchoesWhen tokens r (·.length ≤ fuel) (·.length ≤ fuel') Eq w e a d n (x >>= g) (x' >>= g') ν Ψ := by
  refine echoesWhen_bind (first.when.mono (fun _ => id) (fun _ => id) (fun _ => id) (fun _ _ => id) id (Nat.le_refl n)) rest
    refl (.inr fun k _ same => same ▸ refl k) (fun _ _ _ _ _ => .inr) (.inl (Nat.le_refl n)) (.inl (Nat.le_refl n)) .inr
    (fun c _ c₁ used _ few ahead _ _ => ?_) fun used ahead few _ => ?_
  · rw [ahead, List.length_append] at few
    omega
  · rw [List.length_append] at few
    omega

/-- A token is looked at that may be left where it is. -/
theorem echoesWhen_look_bind {f f' : Token → Reader α}
    (rest : ∀ t t', t ∈ tokens → t'.kind = t.kind → EchoesWhen tokens r (fun ahead => P ahead ∧ ahead.head? = some t)
      (fun ahead => P' ahead ∧ ahead.head? = some t') Eq w e a b n (f t) (f' t') μ Φ) :
    EchoesWhen tokens r P P' Eq w e a b n (peek >>= f) (peek >>= f') μ Φ := by
  intro c v c₁ on here run
  have run : f c.head c = .ok (v, c₁) := run
  obtain ⟨holds, used, ahead, last, on₁, some, here'⟩ :=
    rest c.head c.head on.head_mem rfl c v c₁ on ⟨here, head?_ahead on⟩ run
  refine ⟨holds, used, ahead, last, on₁, some, fun small inRegion => ⟨(here' small inRegion).1, ?_⟩⟩
  intro last' u more allowed warm there
  obtain ⟨t', ts, shown⟩ : ∃ t' ts, used.map r.token ++ u :: more = t' :: ts :=
    List.exists_cons_of_ne_nil (by simp)
  have kind : t'.kind = c.head.kind := by
    obtain ⟨rfl, same⟩ | ⟨us, rfl⟩ := head_of_ahead on₁ ahead
    · cases shown
      rw [same, allowed]
    · cases shown
      rfl
  obtain ⟨-, used', ahead', -, -, -, echo⟩ := rest c.head t' on.head_mem kind c v c₁ on ⟨here, head?_ahead on⟩ run
  obtain rfl : used' = used := List.append_cancel_right (ahead'.symm.trans ahead)
  have looked : (peek >>= f') ⟨last', used'.map r.token ++ u :: more⟩ = f' t' ⟨last', used'.map r.token ++ u :: more⟩ := by
    rw [shown]
    rfl
  rw [looked]
  exact (echo small inRegion).2 last' u more allowed warm ⟨there, by rw [shown]; rfl⟩

theorem echoesWhen_lookIs_bind {k : TokenKind} {f f' : Bool → Reader α}
    (rest : ∀ t t', t ∈ tokens → EchoesWhen tokens r (fun ahead => P ahead ∧ ahead.head? = some t)
      (fun ahead => P' ahead ∧ ahead.head? = some t') Eq w e a b n (f (t.kind == k)) (f' (t.kind == k)) μ Φ) :
    EchoesWhen tokens r P P' Eq w e a b n (peekIs k >>= f) (peekIs k >>= f') μ Φ := by
  have look : EchoesWhen tokens r P P' Eq w e a b n (peek >>= fun t => f (t.kind == k)) (peek >>= fun t => f' (t.kind == k))
      μ Φ := echoesWhen_look_bind fun t t' found same => by
    rw [same]
    exact rest t t' found
  exact look

/-- A token that is looked at, if it is taken then. -/
theorem echoesWhen_taken (f' : Token → Reader α) {t' : Token}
    (rest : EchoesWhen tokens r (fun ahead => P ahead ∧ ahead.head? = some t) P' R w true a b n x (f' (r.token t)) μ Φ) :
    EchoesWhen tokens r (fun ahead => P ahead ∧ ahead.head? = some t) (fun ahead => P' ahead ∧ ahead.head? = some t') R w
      true a b n x (f' t') μ Φ := by
  intro c v c₁ on here run
  obtain ⟨holds, used, ahead, last, on₁, some, echo⟩ := rest c v c₁ on here run
  refine ⟨holds, used, ahead, last, on₁, some, fun small inRegion => ⟨(echo small inRegion).1, ?_⟩⟩
  intro last' u more allowed warm there
  obtain ⟨none, -⟩ | ⟨us, rfl⟩ := head_of_ahead on₁ ahead
  · exact absurd none (some rfl)
  · have same : c.head = t := Option.some.inj ((head?_ahead on).symm.trans here.2)
    have moved : t' = r.token t := by
      rw [← same]
      exact (Option.some.inj there.2).symm
    rw [moved]
    exact (echo small inRegion).2 last' u more allowed warm there.1

theorem echoes_commaRest {p p' : Reader α} (row : Token.Row tokens length)
    (item : Echoes tokens r S none true a a n p p' μ Φ) (refl : ∀ k, S k k) (fuel fuel' : Nat) :
    EchoesWhen tokens r (·.length ≤ fuel) (·.length ≤ fuel') Eq none false a a n (commaRest p fuel) (commaRest p' fuel')
      (List.map μ) fun vs => ∀ v ∈ vs, Φ v := by
  refine echoes_loop (fun _ : Unit => commaRest p) (fun _ => commaRest p') (fun _ vs => ∀ v ∈ vs, Φ v)
    (fun fuel fuel' ih _ => ?_) fuel fuel' ()
  refine echoesWhen_accept_bind row (by decide) (turns_other (by decide) a) (.inr fun _ _ same => same ▸ id) ?_ ?_ ?_ ?_
  · rw [if_pos rfl, if_pos rfl]
    refine echoes_item_bind item.when refl (fun v holds => ?_) (fun _ => id) fun _ => id
    refine echoes_last_bind (ih ()) (fun _ => rfl) (fun _ _ => id) nofun fun more all => ?_
    exact echoes_pure rfl (List.forall_mem_cons.2 ⟨holds, all⟩)
  · rw [if_neg nofun, if_neg nofun]
    exact echoes_pure rfl nofun
  · intro used ahead few _
    rw [List.length_append] at few
    omega
  · intro used ahead few _
    rw [List.length_append] at few
    omega

theorem echoes_commaList {p p' : Reader α} (row : Token.Row tokens length)
    (item : Echoes tokens r S none true a a n p p' μ Φ) (refl : ∀ k, S k k) :
    Echoes tokens r Eq none true a a n (commaList p) (commaList p') (List.map μ) fun vs => ∀ v ∈ vs, Φ v := by
  refine echoes_last_bind item refl (fun k _ same => same ▸ refl k) id fun v holds => ?_
  refine echoes_get_bind fun s s' => ?_
  refine echoes_last_bind (echoes_commaRest row item refl _ _) (fun _ => rfl) (fun _ _ => id) id fun more all => ?_
  exact echoes_pure rfl (List.forall_mem_cons.2 ⟨holds, all⟩)

theorem echoes_untilRest {p p' : Reader α} (stop : TokenKind)
    (item : Echoes tokens r S none true a a n p p' μ Φ) (refl : ∀ k, S k k) (fuel fuel' : Nat) :
    EchoesWhen tokens r (·.length ≤ fuel) (·.length ≤ fuel') Eq none false a a n (untilRest stop p fuel)
      (untilRest stop p' fuel') (List.map μ) fun vs => ∀ v ∈ vs, Φ v := by
  refine echoes_loop (fun _ : Unit => untilRest stop p) (fun _ => untilRest stop p') (fun _ vs => ∀ v ∈ vs, Φ v)
    (fun fuel fuel' ih _ => ?_) fuel fuel' ()
  refine echoesWhen_look_bind fun t t' _ same => ?_
  rw [same]
  split
  · exact echoes_pure rfl nofun
  · split
    · exact echoes_failAt
    · refine echoes_item_bind item.when refl (fun v holds => ?_) (fun _ => And.left) fun _ => And.left
      refine echoes_last_bind (ih ()) (fun _ => rfl) (fun _ _ => id) nofun fun more all => ?_
      exact echoes_pure rfl (List.forall_mem_cons.2 ⟨holds, all⟩)

/-- A token of a kind at which a reader has come to rest is taken. -/
theorem echoes_bind_next (row : Token.Row tokens length) (first : EchoesWhen tokens r P P' S none e₁ a b n x x' μ Φ)
    (refl : ∀ k, S k k) {k : TokenKind} (inside : k ≠ .endOfInput) (turns : Turns k b d)
    (stops : ∀ {c v c₁}, x c = .ok (v, c₁) → c₁.head.kind = k)
    (rest : ∀ v, Φ v → Echoes tokens r R w false d m n (g v) (g' (μ v)) ν Ψ) :
    EchoesWhen tokens r P P' R w e a m n (x >>= fun v => next >>= fun _ => g v) (x' >>= fun v => next >>= fun _ => g' v)
      ν Ψ := by
  refine echoesWhen_bind (Q := fun ahead => ∃ t, t.kind = k ∧ ahead.head? = some t)
    (first.mono (fun _ => id) (fun _ => id) (fun _ => id) (fun _ _ => id) id (Nat.le_refl n)) (fun v holds => ?_) refl
    (.inl rfl) (fun _ _ _ _ _ => .inr) (.inl (Nat.le_refl n)) (.inl (Nat.le_refl n)) (fun _ => .inr rfl)
    (fun c v c₁ used on₁ _ _ _ run => ⟨c₁.head, stops run, head?_ahead on₁⟩) fun _ _ _ _ => trivial
  intro c u c₁ on ⟨t, kind, here⟩ run
  exact echoesAt_next_bind (t := t) row (kind ▸ inside) (kind ▸ turns) (rest v holds) c u c₁ on here run

theorem echoes_untilToken {p p' : Reader α} (row : Token.Row tokens length) {stop : TokenKind}
    (inside : stop ≠ .endOfInput) (turns : Turns stop a b) (item : Echoes tokens r S none true a a n p p' μ Φ)
    (refl : ∀ k, S k k) :
    Echoes tokens r R none true a b n (untilToken stop p) (untilToken stop p') (List.map μ) fun vs => ∀ v ∈ vs, Φ v := by
  refine echoes_get_bind fun s s' => ?_
  refine echoes_bind_next row ((echoes_untilRest stop item refl _ _).mono (fun _ => id) (fun _ few => Nat.le_succ_of_le few)
    (fun _ few => Nat.le_succ_of_le few) (fun _ _ => id) id (Nat.le_refl n)) (fun _ => rfl) inside turns
    untilRest_stops fun vs all => echoes_pure rfl all

end Reader

end ClassScript
