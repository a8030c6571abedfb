import ClassScript.Proofs.Shapes
import ClassScript.Proofs.Promises

/-!
# Reading tokens of given shapes

`Reads x s r Q` says that from tokens of the shapes `s`, in front of tokens of the shapes `r`, the reader
`x` takes exactly the tokens of `s` and returns something with the property `Q`, or gives up because the
nesting is too deep; nothing else happens. The rules follow the steps of a reader, and hold as well of a
reader that does not give up (`ReadsOr False`).
-/

namespace ClassScript

/-- The class of the first token. -/
def firstKind : List Shape → TokenKind
  | [] => .endOfInput
  | k :: _ => k.kind

@[simp] theorem firstKind_cons (k : Shape) (s : List Shape) : firstKind (k :: s) = k.kind := rfl

namespace Reader

variable {α β : Type} {deep : Prop}

/-- From tokens of the shapes `s` in front of tokens of the classes of `r`, the reader takes those of `s`
and returns something with the property, or the nesting is too deep, where it may be. -/
def ReadsOr (deep : Prop) (x : Reader α) (s r : List Shape) (Q : α → Prop) : Prop :=
  ∀ ts tr last, Fit last ts s → tr.map Token.kind = r.map Shape.kind → tr ≠ [] →
    (∃ a, x ⟨last, ts ++ tr⟩ = .ok (a, ⟨ts.getLastD last, tr⟩) ∧ Q a) ∨
      deep ∧ ∃ span, x ⟨last, ts ++ tr⟩ = .error (.tooDeep, span)

/-- From tokens of the shapes `s` in front of tokens of the classes of `r`, the reader takes those of `s`
and returns something with the property, or the nesting is too deep. -/
abbrev Reads (x : Reader α) (s r : List Shape) (Q : α → Prop) : Prop := ReadsOr True x s r Q

/-! ## Rules -/

theorem bind_of_ok {x : Reader α} {f : α → Reader β} {c c' : Cursor} {a : α}
    (run : x c = .ok (a, c')) : (x >>= f) c = f a c' := by
  have unfolded : (x >>= f) c = (x c >>= fun r => f r.1 r.2) := rfl
  rw [unfolded, run]
  rfl

theorem bind_of_error {x : Reader α} {f : α → Reader β} {c : Cursor} {e : SyntaxFault × Span}
    (run : x c = .error e) : (x >>= f) c = .error e := by
  have unfolded : (x >>= f) c = (x c >>= fun r => f r.1 r.2) := rfl
  rw [unfolded, run]
  rfl

theorem reads_pure {r : List Shape} {Q : α → Prop} {a : α} (holds : Q a) : ReadsOr deep (pure a) [] r Q := by
  intro ts tr last fit _ _
  cases fit
  exact .inl ⟨a, rfl, holds⟩

theorem reads_mono {x : Reader α} {s r : List Shape} {P Q : α → Prop} (reads : ReadsOr deep x s r P)
    (weaker : ∀ a, P a → Q a) : ReadsOr deep x s r Q := by
  intro ts tr last fit rest some_rest
  rcases reads ts tr last fit rest some_rest with ⟨a, run, holds⟩ | fails
  · exact .inl ⟨a, run, weaker a holds⟩
  · exact .inr fails

theorem reads_bind {x : Reader α} {f : α → Reader β} {s s' r : List Shape} {P : α → Prop}
    {Q : β → Prop} (first : ReadsOr deep x s (s' ++ r) P) (rest : ∀ a, P a → ReadsOr deep (f a) s' r Q) :
    ReadsOr deep (x >>= f) (s ++ s') r Q := by
  intro ts tr last fit behind some_behind
  obtain ⟨ts₁, ts₂, rfl, fit₁, fit₂⟩ := fit_split fit
  have kinds : (ts₂ ++ tr).map Token.kind = (s' ++ r).map Shape.kind := by
    rw [List.map_append, List.map_append, fit_kinds fit₂, behind]
  rw [List.append_assoc, getLastD_append]
  rcases first ts₁ (ts₂ ++ tr) last fit₁ kinds (by simp [some_behind]) with
    ⟨a, run, holds⟩ | ⟨may, span, fails⟩
  · rw [bind_of_ok run]
    exact rest a holds ts₂ tr _ fit₂ behind some_behind
  · exact .inr ⟨may, span, bind_of_error fails⟩

/-- A step behind which no token is taken. -/
theorem reads_last_bind {x : Reader α} {f : α → Reader β} {s r : List Shape} {P : α → Prop}
    {Q : β → Prop} (first : ReadsOr deep x s r P) (rest : ∀ a, P a → ReadsOr deep (f a) [] r Q) :
    ReadsOr deep (x >>= f) s r Q := by
  have whole : ReadsOr deep (x >>= f) (s ++ []) r Q := reads_bind first rest
  rwa [List.append_nil] at whole

/-- A step that takes no token. -/
theorem reads_still_bind {x : Reader α} {f : α → Reader β} {s r : List Shape} {P : α → Prop}
    {Q : β → Prop} (still : ∀ c : Cursor, c.ahead.map Token.kind = (s ++ r).map Shape.kind → s ++ r ≠ [] →
      ∃ a, x c = .ok (a, c) ∧ P a)
    (rest : ∀ a, P a → ReadsOr deep (f a) s r Q) : ReadsOr deep (x >>= f) s r Q := by
  intro ts tr last fit behind some_behind
  have kinds : (ts ++ tr).map Token.kind = (s ++ r).map Shape.kind := by
    rw [List.map_append, List.map_append, fit_kinds fit, behind]
  have some_ahead : s ++ r ≠ [] := by
    rintro none
    rw [none, List.map_nil, List.map_eq_nil_iff, List.append_eq_nil_iff] at kinds
    exact some_behind kinds.2
  obtain ⟨a, run, holds⟩ := still ⟨last, ts ++ tr⟩ kinds some_ahead
  rw [bind_of_ok run]
  exact rest a holds ts tr last fit behind some_behind

theorem kind_of_kinds {t : Token} {ts : List Token} {s : List Shape}
    (kinds : (t :: ts).map Token.kind = s.map Shape.kind) : t.kind = firstKind s := by
  cases s with
  | nil => cases kinds
  | cons k s => exact (List.cons.inj kinds).1

theorem length_of_kinds {ts : List Token} {s : List Shape} (kinds : ts.map Token.kind = s.map Shape.kind) :
    ts.length = s.length := by
  rw [← List.length_map (f := Token.kind), kinds, List.length_map]

theorem peek_still {c : Cursor} {s : List Shape} (kinds : c.ahead.map Token.kind = s.map Shape.kind)
    (some_ahead : s ≠ []) : ∃ t, peek c = .ok (t, c) ∧ t.kind = firstKind s := by
  refine ⟨c.ahead.headD c.last, rfl, ?_⟩
  obtain ⟨last, ahead⟩ := c
  cases ahead with
  | nil => exact absurd (List.map_eq_nil_iff.1 kinds.symm) some_ahead
  | cons t rest => exact kind_of_kinds kinds

theorem reads_peek_bind {f : Token → Reader β} {s r : List Shape} {Q : β → Prop}
    (rest : ∀ t, t.kind = firstKind (s ++ r) → ReadsOr deep (f t) s r Q) : ReadsOr deep (peek >>= f) s r Q :=
  reads_still_bind (fun _ kinds some_ahead => peek_still kinds some_ahead) rest

theorem reads_peekIs_bind {k : TokenKind} {f : Bool → Reader β} {s r : List Shape} {Q : β → Prop}
    (rest : ReadsOr deep (f (firstKind (s ++ r) == k)) s r Q) : ReadsOr deep (peekIs k >>= f) s r Q := by
  refine reads_still_bind (P := fun b => b = (firstKind (s ++ r) == k)) ?_ fun b same => same ▸ rest
  intro c kinds some_ahead
  obtain ⟨t, run, kind⟩ := peek_still kinds some_ahead
  refine ⟨t.kind == k, ?_, by rw [kind]⟩
  rw [peekIs, bind_of_ok run]
  rfl

theorem reads_get_bind {f : Cursor → Reader β} {s r : List Shape} {Q : β → Prop}
    (rest : ∀ c : Cursor, c.ahead.map Token.kind = (s ++ r).map Shape.kind → ReadsOr deep (f c) s r Q) :
    ReadsOr deep (get >>= f) s r Q :=
  reads_still_bind (fun c kinds _ => ⟨c, rfl, kinds⟩) rest

theorem reads_spanFrom_bind {start : Token} {f : Span → Reader β} {s r : List Shape} {Q : β → Prop}
    (rest : ∀ span, ReadsOr deep (f span) s r Q) : ReadsOr deep (spanFrom start >>= f) s r Q :=
  reads_still_bind (P := fun _ => True) (fun _ _ _ => ⟨_, rfl, trivial⟩) fun span _ => rest span

theorem reads_markFrom_bind {head start : Token} {f : Mark → Reader β} {s r : List Shape}
    {Q : β → Prop} (rest : ∀ m : Mark, m.head = head → ReadsOr deep (f m) s r Q) :
    ReadsOr deep (markFrom head start >>= f) s r Q :=
  reads_still_bind (fun _ _ _ => ⟨_, rfl, rfl⟩) rest

theorem reads_next {k : Shape} {r : List Shape} : ReadsOr deep next [k] r fun t => t.shape = k.loose := by
  intro ts tr last fit _ some_behind
  cases fit with
  | cons shape _ rest =>
    cases rest
    cases tr with
    | nil => exact absurd rfl some_behind
    | cons t' tr => exact .inl ⟨_, rfl, shape⟩

theorem reads_expect {k : Shape} {kind : TokenKind} {r : List Shape} (isKind : k.kind = kind) :
    ReadsOr deep (expect kind) [k] r fun t => t.shape = k.loose := by
  refine reads_peek_bind fun t same => ?_
  have found : (t.kind == kind) = true := by
    rw [same, List.singleton_append, firstKind_cons, isKind, beq_self_eq_true]
  rw [if_pos found]
  exact reads_next

theorem reads_accept {k : Shape} {kind : TokenKind} {r : List Shape} (isKind : k.kind = kind) :
    ReadsOr deep (accept kind) [k] r fun found => found = true := by
  refine reads_peekIs_bind ?_
  have found : (firstKind ([k] ++ r) == kind) = true := by
    rw [List.singleton_append, firstKind_cons, isKind, beq_self_eq_true]
  rw [found, if_pos rfl]
  exact reads_last_bind reads_next fun _ _ => reads_pure rfl

/-- A step that takes one token. -/
theorem reads_take_bind {x : Reader α} {f : α → Reader β} {k : Shape} {s r : List Shape}
    {P : α → Prop} {Q : β → Prop} (first : ReadsOr deep x [k] (s ++ r) P)
    (rest : ∀ a, P a → ReadsOr deep (f a) s r Q) : ReadsOr deep (x >>= f) (k :: s) r Q := reads_bind first rest

theorem reads_next_bind {k : Shape} {f : Token → Reader β} {s r : List Shape} {Q : β → Prop}
    (rest : ∀ t : Token, t.shape = k.loose → ReadsOr deep (f t) s r Q) : ReadsOr deep (next >>= f) (k :: s) r Q :=
  reads_take_bind reads_next rest

theorem reads_expect_bind {k : Shape} {kind : TokenKind} {f : Token → Reader β} {s r : List Shape}
    {Q : β → Prop} (isKind : k.kind = kind)
    (rest : ∀ t : Token, t.shape = k.loose → ReadsOr deep (f t) s r Q) :
    ReadsOr deep (expect kind >>= f) (k :: s) r Q := reads_take_bind (reads_expect isKind) rest

theorem reads_accept_yes {k : Shape} {kind : TokenKind} {f : Bool → Reader β} {s r : List Shape}
    {Q : β → Prop} (isKind : k.kind = kind) (rest : ReadsOr deep (f true) s r Q) :
    ReadsOr deep (accept kind >>= f) (k :: s) r Q :=
  reads_take_bind (reads_accept isKind) fun _ found => found ▸ rest

theorem reads_accept_no {kind : TokenKind} {f : Bool → Reader β} {s r : List Shape}
    {Q : β → Prop} (other : firstKind (s ++ r) ≠ kind) (rest : ReadsOr deep (f false) s r Q) :
    ReadsOr deep (accept kind >>= f) s r Q := by
  refine reads_still_bind (P := fun found => found = false) ?_ fun _ found => found ▸ rest
  intro c kinds some_ahead
  obtain ⟨t, run, kind'⟩ := peek_still kinds some_ahead
  have looked : peekIs kind c = .ok (false, c) := by
    rw [peekIs, bind_of_ok run, kind', beq_eq_false_iff_ne.2 other]
    rfl
  refine ⟨false, ?_, rfl⟩
  rw [accept, bind_of_ok looked]
  rfl

/-! ## Lists -/

theorem commas_cons (s : List Shape) (ss : List (List Shape)) :
    commas (s :: ss) = s ++ ss.flatMap fun s' => .symbol .comma :: s' := by
  induction ss generalizing s with
  | nil => rw [commas, List.flatMap_nil, List.append_nil]
  | cons s' ss ih => rw [commas, ih, List.flatMap_cons, List.cons_append]

theorem length_le_flatMap (ss : List (List Shape)) :
    ss.length ≤ (ss.flatMap fun s => Shape.symbol .comma :: s).length := by
  induction ss with
  | nil => exact Nat.le_refl 0
  | cons s ss ih =>
    rw [List.flatMap_cons, List.length_append, List.length_cons, List.length_cons]
    omega

theorem length_le_flatten {items : List α} {shapesOf : α → List Shape}
    (filled : ∀ a ∈ items, shapesOf a ≠ []) : items.length ≤ ((items.map shapesOf).flatten).length := by
  induction items with
  | nil => exact Nat.le_refl 0
  | cons a items ih =>
    obtain ⟨first, others⟩ := List.forall_mem_cons.1 filled
    have one := List.length_pos_iff.2 first
    have more := ih others
    rw [List.map_cons, List.flatten_cons, List.length_append, List.length_cons]
    omega

section Lists

variable {γ : Type} {p : Reader α} {shapesOf : α → List Shape} {bare : α → γ}
  (follows : List Shape → Prop) {items : List α} {r : List Shape}

theorem reads_commaRest (separated : ∀ s, follows (.symbol .comma :: s))
    (item : ∀ a ∈ items, ∀ r, follows r → ReadsOr deep p (shapesOf a) r fun b => bare b = bare a)
    (last : follows r) (ends : firstKind r ≠ .symbol .comma) (fuel : Nat)
    (enough : items.length ≤ fuel) :
    ReadsOr deep (commaRest p fuel) ((items.map shapesOf).flatMap fun s => .symbol .comma :: s) r
      fun bs => bs.map bare = items.map bare := by
  induction items generalizing fuel with
  | nil =>
    cases fuel with
    | zero => exact reads_pure rfl
    | succ fuel => exact reads_accept_no ends (reads_pure rfl)
  | cons a items ih =>
    obtain ⟨first, others⟩ := List.forall_mem_cons.1 item
    cases fuel with
    | zero => cases enough
    | succ fuel =>
      rw [List.map_cons, List.flatMap_cons, List.cons_append]
      refine reads_accept_yes rfl (reads_bind (first _ ?_) fun b same => ?_)
      · cases items with
        | nil => exact last
        | cons a' items => exact separated _
      · refine reads_last_bind (ih others fuel (Nat.le_of_succ_le_succ enough)) fun bs all => ?_
        exact reads_pure (by rw [List.map_cons, List.map_cons, same, all])

/-- One or more items with commas between them. -/
theorem reads_commaList (separated : ∀ s, follows (.symbol .comma :: s)) (some_items : items ≠ [])
    (item : ∀ a ∈ items, ∀ r, follows r → ReadsOr deep p (shapesOf a) r fun b => bare b = bare a)
    (last : follows r) (ends : firstKind r ≠ .symbol .comma) :
    ReadsOr deep (commaList p) (commas (items.map shapesOf)) r fun bs => bs.map bare = items.map bare := by
  cases items with
  | nil => exact absurd rfl some_items
  | cons a items =>
    obtain ⟨first, others⟩ := List.forall_mem_cons.1 item
    rw [List.map_cons, commas_cons]
    refine reads_bind (first _ ?_) fun b same => reads_get_bind fun c kinds => ?_
    · cases items with
      | nil => exact last
      | cons a' items => exact separated _
    · have enough : items.length ≤ c.ahead.length := by
        have long := length_of_kinds kinds
        rw [List.length_append] at long
        have each := length_le_flatMap (items.map shapesOf)
        rw [List.length_map] at each
        omega
      refine reads_last_bind (reads_commaRest follows separated others last ends _ enough) fun bs all => ?_
      exact reads_pure (by rw [List.map_cons, List.map_cons, same, all])

/-- Items up to a closing token, each of which starts with another token. -/
theorem reads_untilRest (stop : Shape)
    (item : ∀ a ∈ items, ∀ r, follows r → ReadsOr deep p (shapesOf a) r fun b => bare b = bare a)
    (starts : ∀ a ∈ items, ∀ r, follows (shapesOf a ++ r) ∧ firstKind (shapesOf a ++ r) ≠ stop.kind ∧
      firstKind (shapesOf a ++ r) ≠ .endOfInput)
    (last : follows (stop :: r)) (fuel : Nat) (enough : items.length < fuel) :
    ReadsOr deep (untilRest stop.kind p fuel) ((items.map shapesOf).flatten) (stop :: r)
      fun bs => bs.map bare = items.map bare := by
  induction items generalizing fuel with
  | nil =>
    cases fuel with
    | zero => cases enough
    | succ fuel =>
      refine reads_peek_bind fun t kind => ?_
      have stops : (t.kind == stop.kind) = true := beq_iff_eq.2 kind
      rw [if_pos stops]
      exact reads_pure rfl
  | cons a items ih =>
    obtain ⟨first, others⟩ := List.forall_mem_cons.1 item
    obtain ⟨starts, startsOthers⟩ := List.forall_mem_cons.1 starts
    cases fuel with
    | zero => cases enough
    | succ fuel =>
      rw [List.map_cons, List.flatten_cons]
      refine reads_peek_bind fun t kind => ?_
      rw [List.append_assoc] at kind
      obtain ⟨_, noStop, noEnd⟩ := starts ((items.map shapesOf).flatten ++ stop :: r)
      rw [← kind] at noStop noEnd
      rw [if_neg (by simpa using noStop), if_neg (by simpa using noEnd)]
      refine reads_bind (first _ ?_) fun b same => ?_
      · cases items with
        | nil => exact last
        | cons a' items =>
          rw [List.map_cons, List.flatten_cons, List.append_assoc]
          exact (startsOthers a' List.mem_cons_self _).1
      · refine reads_last_bind (ih others startsOthers fuel (Nat.lt_of_succ_lt_succ enough)) fun bs all => ?_
        exact reads_pure (by rw [List.map_cons, List.map_cons, same, all])

theorem reads_untilToken (stop : Shape)
    (item : ∀ a ∈ items, ∀ r, follows r → ReadsOr deep p (shapesOf a) r fun b => bare b = bare a)
    (starts : ∀ a ∈ items, ∀ r, follows (shapesOf a ++ r) ∧ firstKind (shapesOf a ++ r) ≠ stop.kind ∧
      firstKind (shapesOf a ++ r) ≠ .endOfInput)
    (filled : ∀ a ∈ items, shapesOf a ≠ [])
    (last : follows (stop :: r)) :
    ReadsOr deep (untilToken stop.kind p) ((items.map shapesOf).flatten ++ [stop]) r
      fun bs => bs.map bare = items.map bare := by
  refine reads_get_bind fun c kinds => ?_
  have enough : items.length < c.ahead.length + 1 := by
    have long := length_of_kinds kinds
    rw [List.length_append, List.length_append] at long
    have each := length_le_flatten filled
    omega
  refine reads_bind (reads_untilRest follows stop item starts last _ enough) fun bs all => ?_
  exact reads_next_bind fun _ _ => reads_pure all

end Lists

end Reader

end ClassScript
