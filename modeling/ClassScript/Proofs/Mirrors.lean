import ClassScript.Proofs.Likeness
import ClassScript.Typing.Members
import ClassScript.Typing.Annotations

/-!
Two runs of typing side by side. If the first comes to an end, so does the second, with a result that is alike;
both hand out as many variables, which then stand for each other (`Mirrors`). There is one rule for each way to
put computations together, and one lemma for each function of typing that has no code in it.
-/

namespace ClassScript.Typing

variable {W W' : Pairing} {B : String → Prop} {c c' : Context} {α β γ δ : Type}

/-- A sequence that comes to an end does so in two parts. -/
theorem ran_bind {x : Analysis α} {f : α → Analysis β} {b : β} {p q : Progress} (ran : (x >>= f) c p = .ok (b, q)) :
    ∃ a p₁, x c p = .ok (a, p₁) ∧ f a c p₁ = .ok (b, q) := by
  change (x c p).bind (fun r => f r.1 c r.2) = .ok (b, q) at ran
  rcases ended : x c p with stop | ⟨a, p₁⟩
  · rw [ended] at ran
    cases ran
  · rw [ended] at ran
    exact ⟨a, p₁, rfl, ran⟩

theorem bind_ran {x : Analysis α} {f : α → Analysis β} {a : α} {b : β} {p p₁ q : Progress} (first : x c p = .ok (a, p₁))
    (next : f a c p₁ = .ok (b, q)) : (x >>= f) c p = .ok (b, q) := by
  change (x c p).bind (fun r => f r.1 c r.2) = .ok (b, q)
  rw [first]
  exact next

/-- Whenever `x` comes to an end, `y` does so too, and the results are related under the pairing that has
grown by the variables handed out. -/
def Mirrors (W : Pairing) (c c' : Context) (x : Analysis α) (y : Analysis β) (Q : Pairing → α → β → Prop) : Prop :=
  ∀ p p' a q, p.fresh = W.left → p'.fresh = W.right → x c p = .ok (a, q) →
    ∃ u b q', y c' p' = .ok (b, q') ∧ q.fresh = (W.grow u).left ∧ q'.fresh = (W.grow u).right ∧ Q (W.grow u) a b

namespace Mirrors

variable {P : Pairing → α → β → Prop} {Q : Pairing → γ → δ → Prop} {x : Analysis α} {y : Analysis β}

theorem pure {a : α} {b : β} (related : P W a b) : Mirrors W c c' (pure a : Analysis α) (pure b : Analysis β) P := by
  intro p p' a' q left right ran
  cases ran
  exact ⟨0, b, p', rfl, left, right, W.grow_zero.symm ▸ related⟩

theorem bind {f : α → Analysis γ} {g : β → Analysis δ} (first : Mirrors W c c' x y P)
    (next : ∀ W' a b, W ≤ W' → P W' a b → Mirrors W' c c' (f a) (g b) Q) :
    Mirrors W c c' (x >>= f) (y >>= g) Q := by
  intro p p' d q left right ran
  obtain ⟨a, p₁, ended, ran⟩ := ran_bind ran
  obtain ⟨u, b, p₁', ended', left₁, right₁, related⟩ := first p p' a p₁ left right ended
  obtain ⟨v, d', q', ran', left₂, right₂, related'⟩ := next _ a b (W.le_grow u) related p₁ p₁' d q left₁ right₁ ran
  rw [W.grow_grow] at left₂ right₂ related'
  exact ⟨u + v, d', q', bind_ran ended' ran', left₂, right₂, related'⟩

theorem imp {P' : Pairing → α → β → Prop} (mirrors : Mirrors W c c' x y P)
    (weaker : ∀ W' a b, W ≤ W' → P W' a b → P' W' a b) : Mirrors W c c' x y P' := by
  intro p p' a q left right ran
  obtain ⟨u, b, q', ran', left', right', related⟩ := mirrors p p' a q left right ran
  exact ⟨u, b, q', ran', left', right', weaker _ a b (W.le_grow u) related⟩

/-- The results are related, and they are results. -/
theorem gives (mirrors : Mirrors W c c' x y P) :
    Mirrors W c c' x y fun W' a b => P W' a b ∧ Gives x c a ∧ Gives y c' b := by
  intro p p' a q left right ran
  obtain ⟨u, b, q', ran', left', right', related⟩ := mirrors p p' a q left right ran
  exact ⟨u, b, q', ran', left', right', related, ⟨p, q, ran⟩, ⟨p', q', ran'⟩⟩

theorem some (mirrors : Mirrors W c c' x y P) :
    Mirrors W c c' (Option.some <$> x) (Option.some <$> y) fun W' => Option.Rel (P W') := by
  rw [map_eq_pure_bind, map_eq_pure_bind]
  exact mirrors.bind fun _ _ _ _ related => .pure (.some related)

theorem read {f : Context → Analysis α} {g : Context → Analysis β} (next : Mirrors W c c' (f c) (g c') P) :
    Mirrors W c c' (read >>= f) (read >>= g) P := by
  refine .bind (P := fun W' a b => W' = W ∧ a = c ∧ b = c') ?_ ?_
  · intro p p' a q left right ran
    cases ran
    exact ⟨0, c', p', rfl, left, right, W.grow_zero, rfl, rfl⟩
  · rintro W' a b - ⟨rfl, rfl, rfl⟩
    exact next

theorem withReader {f g : Context → Context} (inner : Mirrors W (f c) (g c') x y P) :
    Mirrors W c c' (withReader f x) (withReader g y) P := inner

theorem never (never : ∀ a, ¬ Gives x c a) : Mirrors W c c' x y P :=
  fun p _ a q _ _ ran => absurd ⟨p, q, ran⟩ (never a)

theorem reject {span : Span} {fault : TypeFault} : Mirrors W c c' (reject span fault : Analysis α) y P :=
  .never fun _ => not_gives_reject

theorem require {condition condition' : Bool} {span span' : Span} {fault fault' : TypeFault}
    (same : condition = condition') :
    Mirrors W c c' (require condition span fault) (require condition' span' fault') fun _ _ _ => True := by
  subst same
  unfold Typing.require
  split
  · exact .pure trivial
  · exact .reject

theorem freshVar (name : String) : Mirrors W c c' (freshVar name) (freshVar name) Paired := by
  intro p p' v q left right ran
  cases ran
  refine ⟨1, ⟨name, p'.fresh⟩, { p' with fresh := p'.fresh + 1 }, rfl, by simp [left], by simp [right], rfl, .inr ?_⟩
  exact ⟨0, Nat.one_pos, left, right⟩

theorem fresh (name : String) : Mirrors W c c' (fresh name) (fresh name) Ty.Alike :=
  (freshVar name).bind fun _ _ _ _ paired => .pure ⟨_, rfl, paired⟩

theorem note {span span' : Span} {t t' : Ty} : Mirrors W c c' (note span t) (note span' t') fun _ _ _ => True := by
  intro p p' a q left right ran
  cases ran
  exact ⟨0, (), _, rfl, left, right, trivial⟩

theorem noteAccess {span span' : Span} {owner owner' : Nominal} {isPrivate isPrivate' through through' : Bool} :
    Mirrors W c c' (noteAccess span owner isPrivate through) (noteAccess span' owner' isPrivate' through')
      fun _ _ _ => True := by
  intro p p' a q left right ran
  cases ran
  exact ⟨0, (), _, rfl, left, right, trivial⟩

theorem noting {span span' : Span} {x y : Analysis Ty} (mirrors : Mirrors W c c' x y Ty.Alike) :
    Mirrors W c c' (noting span x) (noting span' y) Ty.Alike :=
  mirrors.bind fun _ _ _ _ types => note.bind fun _ _ _ le _ => .pure (types.mono le)

theorem ite {condition condition' : Bool} {x₁ x₂ : Analysis α} {y₁ y₂ : Analysis β} (same : condition = condition')
    (yes : Mirrors W c c' x₁ y₁ P) (no : Mirrors W c c' x₂ y₂ P) :
    Mirrors W c c' (if condition then x₁ else x₂) (if condition' then y₁ else y₂) P := by
  subst same
  split
  · exact yes
  · exact no

/-! ### Loops -/

theorem mapM {R : α → β → Prop} {f : α → Analysis γ} {g : β → Analysis δ}
    (grows : ∀ W₁ W₂ a b, W₁ ≤ W₂ → Q W₁ a b → Q W₂ a b)
    (each : ∀ W' a b, W ≤ W' → R a b → Mirrors W' c c' (f a) (g b) Q) {as : List α} {bs : List β}
    (items : List.Forall₂ R as bs) :
    Mirrors W c c' (as.mapM f) (bs.mapM g) fun W' cs ds => List.Forall₂ (Q W') cs ds := by
  induction items generalizing W with
  | nil =>
    rw [List.mapM_nil, List.mapM_nil]
    exact .pure .nil
  | @cons a b _ _ first _ ih =>
    rw [List.mapM_cons, List.mapM_cons]
    refine (each W a b le_rfl first).bind fun W₁ _ _ le₁ related => ?_
    refine (ih fun W' a b le => each W' a b (le₁.trans le)).bind fun W₂ _ _ le₂ rest => ?_
    exact .pure (.cons (grows _ _ _ _ le₂ related) rest)

theorem forM {R : α → β → Prop} {f : α → Analysis PUnit} {g : β → Analysis PUnit}
    (each : ∀ W' a b, W ≤ W' → R a b → Mirrors W' c c' (f a) (g b) fun _ _ _ => True) {as : List α} {bs : List β}
    (items : List.Forall₂ R as bs) : Mirrors W c c' (as.forM f) (bs.forM g) fun _ _ _ => True := by
  induction items generalizing W with
  | nil => exact .pure trivial
  | @cons a b _ _ first _ ih =>
    refine (each W a b le_rfl first).bind fun W₁ _ _ le₁ _ => ?_
    exact ih fun W' a b le => each W' a b (le₁.trans le)

theorem foldlM {S : Pairing → γ → δ → Prop} {f : γ → α → Analysis γ} {g : δ → α → Analysis δ}
    (each : ∀ W' s s' a, W ≤ W' → S W' s s' → Mirrors W' c c' (f s a) (g s' a) S) (items : List α) {s : γ} {s' : δ}
    (start : S W s s') : Mirrors W c c' (items.foldlM f s) (items.foldlM g s') S := by
  induction items generalizing W s s' with
  | nil =>
    rw [List.foldlM_nil, List.foldlM_nil]
    exact .pure start
  | cons a items ih =>
    rw [List.foldlM_cons, List.foldlM_cons]
    refine (each W s s' a le_rfl start).bind fun W₁ _ _ le₁ related => ?_
    exact ih (fun W' s s' a le => each W' s s' a (le₁.trans le)) related

end Mirrors

/-! ## Contexts and scopes -/

/-- The same type parameters in scope, up to their numbers. -/
def TypeParamsAlike (W : Pairing) (ps ps' : List (String × TypeVar)) : Prop :=
  List.Forall₂ (fun p p' => p.1 = p'.1 ∧ Paired W p.2 p'.2) ps ps'

theorem TypeParamsAlike.mono {ps ps' : List (String × TypeVar)} (alike : TypeParamsAlike W ps ps') (le : W ≤ W') :
    TypeParamsAlike W' ps ps' :=
  List.Forall₂.imp (fun _ _ both => ⟨both.1, both.2.mono le⟩) alike

theorem TypeParamsAlike.extend {ps ps' : List (String × TypeVar)} (alike : TypeParamsAlike W ps ps')
    {vs vs' : List TypeVar} (paired : List.Forall₂ (Paired W) vs vs') :
    TypeParamsAlike W ((vs.map fun v => (v.name, v)).reverse ++ ps) ((vs'.map fun v => (v.name, v)).reverse ++ ps') := by
  refine List.rel_append (List.rel_reverse (List.rel_map ?_ paired)) alike
  exact fun v v' paired => ⟨paired.1, paired⟩

theorem TypeParamsAlike.lookup {ps ps' : List (String × TypeVar)} (alike : TypeParamsAlike W ps ps') (name : String) :
    Option.Rel (Paired W) (ps.lookup name) (ps'.lookup name) := by
  induction alike with
  | nil => exact .none
  | @cons p p' _ _ first _ ih =>
    obtain ⟨n, v⟩ := p
    obtain ⟨n', v'⟩ := p'
    obtain ⟨rfl, paired⟩ := first
    rw [List.lookup_cons, List.lookup_cons]
    cases name == n with
    | true => exact .some paired
    | false => exact ih

/-- The same names are declared, with as many type parameters. -/
def SameHeads (r r' : Registry) : Prop :=
  ∀ name, Option.Rel (fun d d' => d.nominal = d'.nominal ∧ d.params.length = d'.params.length)
    (r.find? name) (r'.find? name)

/-- Contexts in which written types are alike. -/
structure Context.Kin (W : Pairing) (c c' : Context) : Prop where
  heads : SameHeads c.registry c'.registry
  typeParams : TypeParamsAlike W c.typeParams c'.typeParams

/-- Contexts that are alike, up to the types of the fields in `B`. -/
structure Context.Alike (W : Pairing) (B : String → Prop) (c c' : Context) : Prop where
  registry : c.registry.Alike W B c'.registry
  typeParams : TypeParamsAlike W c.typeParams c'.typeParams
  result : c.result.Alike W c'.result

theorem Context.Kin.mono (kin : Context.Kin W c c') (le : W ≤ W') : Context.Kin W' c c' :=
  ⟨kin.heads, kin.typeParams.mono le⟩

theorem Context.Alike.mono (alike : Context.Alike W B c c') (le : W ≤ W') : Context.Alike W' B c c' :=
  ⟨alike.registry.mono le, alike.typeParams.mono le, alike.result.mono le⟩

theorem sameHeads_of_alike {r r' : Registry} (alike : r.Alike W B r') : SameHeads r r' :=
  fun name => optionRel_imp (fun _ _ decls => ⟨decls.nominal, decls.params.length_eq⟩) (alike.find name)

theorem Context.Alike.kin (alike : Context.Alike W B c c') : Context.Kin W c c' :=
  ⟨sameHeads_of_alike alike.registry, alike.typeParams⟩

/-- Variables of the same name with types that are alike. -/
structure Binding.Alike (W : Pairing) (b b' : Binding) : Prop where
  name : b.name = b'.name
  type : b.type.Alike W b'.type
  isSelf : b.isSelf = b'.isSelf

/-- Scopes of the same place with variables that are alike. -/
structure Scope.Alike (W : Pairing) (s s' : Scope) : Prop where
  frames : List.Forall₂ (List.Forall₂ (Binding.Alike W)) s.frames s'.frames
  owner : s.owner = s'.owner
  isStatic : s.isStatic = s'.isStatic
  inConstructor : s.inConstructor = s'.inConstructor

theorem Binding.Alike.mono {b b' : Binding} (alike : b.Alike W b') (le : W ≤ W') : b.Alike W' b' :=
  ⟨alike.name, alike.type.mono le, alike.isSelf⟩

namespace Scope.Alike

variable {s s' : Scope}

theorem mono (alike : s.Alike W s') (le : W ≤ W') : s.Alike W' s' :=
  { alike with frames := alike.frames.imp fun _ _ frame => frame.imp fun _ _ binding => binding.mono le }

theorem global : Scope.global.Alike W .global := ⟨.cons .nil .nil, rfl, rfl, rfl⟩

theorem find? (alike : s.Alike W s') (name : String) :
    Option.Rel (Binding.Alike W) (s.find? name) (s'.find? name) := by
  refine findSome?_rel (fun _ _ frame => ?_) alike.frames
  exact optionRel_imp (fun _ _ both => both.1) (find?_related (fun _ _ binding => by rw [binding.name]) frame)

theorem isLocal (alike : s.Alike W s') (name : String) : s.isLocal name = s'.isLocal name := by
  have frames := alike.frames
  unfold Scope.isLocal
  generalize s.frames = a at frames ⊢
  generalize s'.frames = b at frames ⊢
  cases frames with
  | nil => rfl
  | cons frame _ => exact any_related (fun _ _ binding => by rw [binding.name]) frame

theorem define (alike : s.Alike W s') {b b' : Binding} (bindings : b.Alike W b') :
    (s.define b).Alike W (s'.define b') := by
  obtain ⟨frames, owner, isStatic, inConstructor⟩ := alike
  obtain ⟨fs, _, _, _⟩ := s
  obtain ⟨fs', _, _, _⟩ := s'
  cases frames with
  | nil => exact ⟨.cons (.cons bindings .nil) .nil, owner, isStatic, inConstructor⟩
  | cons frame rest => exact ⟨.cons (.cons bindings frame) rest, owner, isStatic, inConstructor⟩

theorem enter (alike : s.Alike W s') {bs bs' : List Binding} (bindings : List.Forall₂ (Binding.Alike W) bs bs') :
    (s.enter bs).Alike W (s'.enter bs') :=
  { alike with frames := .cons (List.rel_reverse bindings) alike.frames }

theorem constructing (alike : s.Alike W s') {inConstructor inConstructor' : Bool} (same : inConstructor = inConstructor') :
    Scope.Alike W { s with inConstructor } { s' with inConstructor := inConstructor' } :=
  ⟨alike.frames, alike.owner, alike.isStatic, same⟩

end Scope.Alike

/-! ## Annotations -/

theorem isEmpty_related {R : α → β → Prop} {as : List α} {bs : List β} (related : List.Forall₂ R as bs) :
    as.isEmpty = bs.isEmpty := by
  cases related <;> rfl

theorem marked_alike {t t' : Ty} (types : t.Alike W t') (nullable : Bool) :
    (marked nullable t).Alike W (marked nullable t') := by
  unfold marked
  split
  · exact types.orNull
  · exact types

theorem named_mirrors (kin : Context.Kin W c c') (span : Span) (name : String) {args args' : List Ty}
    (types : Ty.AlikeAll W args args') :
    Mirrors W c c' (named span name args) (named span name args') Ty.Alike := by
  have params := kin.typeParams.lookup name
  have heads := kin.heads name
  have lengths := (alikeAll_iff.1 types).length_eq
  have empty := isEmpty_related (alikeAll_iff.1 types)
  refine .read ?_
  generalize c.typeParams.lookup name = a at params ⊢
  generalize c'.typeParams.lookup name = b at params ⊢
  cases params with
  | some paired =>
    refine (Mirrors.require empty).bind fun _ _ _ le _ => ?_
    exact .pure ⟨_, rfl, paired.mono le⟩
  | none =>
    dsimp only
    generalize c.registry.find? name = a at heads ⊢
    generalize c'.registry.find? name = b at heads ⊢
    cases heads with
    | some both =>
      dsimp only
      refine (Mirrors.require (by rw [empty, lengths, both.2])).bind fun _ _ _ le _ => ?_
      exact .pure ⟨args', by rw [both.1], types.mono le⟩
    | none =>
      dsimp only
      split
      · next t primitive =>
        refine (Mirrors.require empty).bind fun _ _ _ le _ => .pure ?_
        unfold primitive? at primitive
        split at primitive <;> cases primitive <;> rfl
      · exact .fresh name

mutual

theorem written_mirrors {W : Pairing} (kin : Context.Kin W c c') (t : TypeExpr) :
    Mirrors W c c' (written t) (written t) Ty.Alike := by
  cases t with
  | simple m name nullable =>
    rw [written]
    refine (named_mirrors kin m.span name (alikeAll_iff.2 .nil)).bind fun _ _ _ _ types => ?_
    exact .pure (marked_alike types nullable)
  | generic m name args nullable =>
    rw [written]
    refine (allWritten_mirrors kin args).bind fun _ _ _ le types => ?_
    refine (named_mirrors (kin.mono le) m.span name types).bind fun _ _ _ _ types => ?_
    exact .pure (marked_alike types nullable)
  | function m params result nullable =>
    rw [written]
    refine (allWritten_mirrors kin params).bind fun _ _ _ le types => ?_
    refine (written_mirrors (kin.mono le) result).bind fun _ _ _ le results => ?_
    refine .pure (marked_alike ?_ nullable)
    exact ⟨_, _, rfl, types.mono le, results⟩

theorem allWritten_mirrors {W : Pairing} (kin : Context.Kin W c c') (ts : List TypeExpr) :
    Mirrors W c c' (allWritten ts) (allWritten ts) Ty.AlikeAll := by
  cases ts with
  | nil =>
    rw [allWritten]
    exact .pure rfl
  | cons t ts =>
    rw [allWritten]
    refine (written_mirrors kin t).bind fun _ _ _ le first => ?_
    refine (allWritten_mirrors (kin.mono le) ts).bind fun _ _ _ le rest => ?_
    exact .pure ⟨_, _, rfl, first.mono le, rest⟩

end

theorem writtenOr_mirrors (kin : Context.Kin W c c') (name : String) (t : Option TypeExpr) :
    Mirrors W c c' (writtenOr name t) (writtenOr name t) Ty.Alike := by
  cases t with
  | none => exact .fresh name
  | some t => exact written_mirrors kin t

/-! ## Members -/

/-- Receivers that are alike. -/
structure Receiver.Alike (W : Pairing) (B : String → Prop) (v v' : Receiver) : Prop where
  decl : v.decl.Alike W B v'.decl
  args : Ty.AlikeAll W v.args v'.args
  isStatic : v.isStatic = v'.isStatic

/-- Members of that name that are alike. -/
inductive MemberSymbol.Alike (W : Pairing) (B : String → Prop) (name : String) : MemberSymbol → MemberSymbol → Prop
  | field {f f' : FieldSymbol} (alike : f.Alike W B f') (named : f.name = name) : Alike W B name (.field f) (.field f')
  | method {m m' : MethodSymbol} (alike : m.Alike W m') : Alike W B name (.method m) (.method m')

/-- Members of that name that are alike, with substitutions that are alike. -/
structure Member.Alike (W : Pairing) (B : String → Prop) (name : String) (m m' : Member) : Prop where
  symbol : m.symbol.Alike W B name m'.symbol
  subst : m.subst.Alike W m'.subst

namespace MemberSymbol.Alike

variable {name : String} {m m' : MemberSymbol}

theorem mono (alike : m.Alike W B name m') (le : W ≤ W') : m.Alike W' B name m' := by
  cases alike with
  | field fields named => exact .field (fields.mono le) named
  | method methods => exact .method (methods.mono le)

theorem owner (alike : m.Alike W B name m') : m.owner = m'.owner := by
  cases alike with
  | field fields => exact fields.owner
  | method methods => exact methods.owner

theorem isStatic (alike : m.Alike W B name m') : m.isStatic = m'.isStatic := by
  cases alike with
  | field fields => simp only [MemberSymbol.isStatic, FieldSymbol.isStatic, fields.decl]
  | method methods => exact methods.isStatic

theorem isPrivate (alike : m.Alike W B name m') : m.isPrivate = m'.isPrivate := by
  cases alike with
  | field fields => simp only [MemberSymbol.isPrivate, FieldSymbol.isPrivate, fields.decl]
  | method methods => simp only [MemberSymbol.isPrivate, MethodSymbol.isPrivate, methods.decl]

end MemberSymbol.Alike

/-- The type of a member is looked at only if it is not left open. -/
theorem type_mirrors {name : String} {m m' : Member} (alike : m.Alike W B name m') (settled : ¬ B name) :
    Mirrors W c c' m.type m'.type Ty.Alike := by
  obtain ⟨symbol, subst⟩ := m
  obtain ⟨symbol', subst'⟩ := m'
  obtain ⟨symbols, substs⟩ := alike
  cases symbols with
  | method methods => exact .pure (apply_alike substs methods.signature)
  | @field f f' fields named =>
    have types := fields.type.resolve_left (named ▸ settled)
    unfold Member.type
    dsimp only
    rw [← fields.name]
    generalize f.type = a at types ⊢
    generalize f'.type = b at types ⊢
    cases types with
    | none => exact .fresh f.name
    | some types => exact .pure (apply_alike substs types)

section Lookup

variable {r r' : Registry} (alike : r.Alike W B r')
include alike

theorem viewSubst_alike (decl owner : Nominal) {args args' : List Ty} (types : Ty.AlikeAll W args args') :
    (viewSubst r decl args owner).Alike W (viewSubst r' decl args' owner) := by
  have found := alike.find owner.name
  have views := TypeTable.viewAs_alike alike.table decl owner types
  unfold viewSubst
  generalize r.find? owner.name = a at found ⊢
  generalize r'.find? owner.name = b at found ⊢
  generalize r.table.viewAs decl args owner = u at views ⊢
  generalize r'.table.viewAs decl args' owner = v at views ⊢
  cases found with
  | none => exact .nil
  | some decls =>
    cases views with
    | none => exact .ofLists decls.params .nil
    | some views => exact .ofLists decls.params (alikeAll_iff.1 views)

theorem seesPrivate_alike {scope scope' : Scope} (scopes : scope.Alike W scope') (owner : Nominal) :
    seesPrivate r scope owner = seesPrivate r' scope' owner := by
  unfold seesPrivate
  rw [← scopes.owner]
  cases scope.owner with
  | none => rfl
  | some o =>
    have found := alike.find o.name
    dsimp only
    generalize r.find? o.name = a at found ⊢
    generalize r'.find? o.name = b at found ⊢
    cases found with
    | none => rfl
    | @some d d' decls =>
      have parents := decls.parent
      dsimp only
      generalize d.parent = a at parents ⊢
      generalize d'.parent = b at parents ⊢
      cases parents with
      | none => rfl
      | some supers => simp only [Option.any_some, supers.1]

theorem parentOf?_alike {scope scope' : Scope} (scopes : scope.Alike W scope') :
    Option.Rel (fun p p' => p.1.Alike W B p'.1 ∧ Ty.AlikeAll W p.2 p'.2) (parentOf? r scope) (parentOf? r' scope') := by
  unfold parentOf?
  rw [← scopes.owner]
  cases scope.owner with
  | none => exact .none
  | some o =>
    have found := alike.find o.name
    simp only [Option.bind_eq_bind, Option.bind_some]
    generalize r.find? o.name = a at found ⊢
    generalize r'.find? o.name = b at found ⊢
    cases found with
    | none => exact .none
    | @some d d' decls =>
      have parents := decls.parent
      simp only [Option.bind_some]
      generalize d.parent = a at parents ⊢
      generalize d'.parent = b at parents ⊢
      cases parents with
      | none => exact .none
      | @some p p' supers =>
        have found := alike.find p.1.name
        simp only [Option.bind_some, ← supers.1]
        generalize r.find? p.1.name = a at found ⊢
        generalize r'.find? p.1.name = b at found ⊢
        cases found with
        | none => exact .none
        | some decls => exact .some ⟨decls, supers.2⟩

theorem member?_alike {recv recv' : Receiver} (receivers : recv.Alike W B recv') (name : String) :
    Option.Rel (fun p p' => p.1.Alike W B name p'.1 ∧ Option.Rel (Subst.Alike W) p.2 p'.2)
      (member? r recv name) (member? r' recv' name) := by
  unfold member?
  rw [← receivers.decl.nominal]
  split
  · have fields := alike.interfaceField? receivers.decl name
    have methods := find?_related (f := fun i => i.method.name == name) (g := fun i => i.method.name == name)
      (fun _ _ both => by rw [both.1.name]) (alike.allMethods receivers.decl receivers.args)
    generalize r.interfaceField? recv.decl name = a at fields ⊢
    generalize r'.interfaceField? recv'.decl name = b at fields ⊢
    cases fields with
    | some fields => exact .some ⟨.field fields.1 fields.2, .none⟩
    | none =>
      dsimp only
      generalize (r.allMethods recv.decl recv.args).find? _ = u at methods ⊢
      generalize (r'.allMethods recv'.decl recv'.args).find? _ = v at methods ⊢
      cases methods with
      | none => exact .none
      | some both => exact .some ⟨.method both.1.1, .some both.1.2⟩
  · have fields := alike.classField? receivers.decl name
    have methods := alike.classMethod? receivers.decl name
    generalize r.classField? recv.decl name = a at fields ⊢
    generalize r'.classField? recv'.decl name = b at fields ⊢
    cases fields with
    | some fields => exact .some ⟨.field fields.1 fields.2, .none⟩
    | none =>
      dsimp only
      generalize r.classMethod? recv.decl name = u at methods ⊢
      generalize r'.classMethod? recv'.decl name = v at methods ⊢
      cases methods with
      | none => exact .none
      | some methods => exact .some ⟨.method methods, .none⟩

end Lookup

/-! ## Demands -/

section Demands

variable (contexts : Context.Alike W B c c') {scope scope' : Scope} (scopes : scope.Alike W scope')
include contexts

theorem accepts_mirrors {slot slot' value value' : Ty} (slots : slot.Alike W slot') (values : value.Alike W value') :
    Mirrors W c c' (accepts slot value) (accepts slot' value') fun _ a b => a = b := by
  refine .read ?_
  rw [TypeTable.accepts?_alike contexts.registry.table _ slots values]
  split
  · exact .pure rfl
  · intro p p' a q _ _ ran
    cases ran

theorem requireAccepts_mirrors {slot slot' value value' : Ty} (slots : slot.Alike W slot')
    (values : value.Alike W value') {span span' : Span} {fault fault' : TypeFault} :
    Mirrors W c c' (requireAccepts slot value span fault) (requireAccepts slot' value' span' fault')
      fun _ _ _ => True :=
  (accepts_mirrors contexts slots values).bind fun _ _ _ _ same => .require same

theorem builtinRef?_mirrors (name : String) {args args' : List Ty} (types : Ty.AlikeAll W args args') :
    Mirrors W c c' (builtinRef? name args) (builtinRef? name args') fun W' => Option.Rel (Ty.Alike W') := by
  have found := contexts.registry.class? name
  refine .read ?_
  generalize c.registry.class? name = a at found ⊢
  generalize c'.registry.class? name = b at found ⊢
  cases found with
  | none => exact .pure .none
  | some decls =>
    dsimp only
    rw [(alikeAll_iff.1 types).length_eq, decls.params.length_eq, decls.nominal]
    refine .pure (.some ⟨_, rfl, ?_⟩)
    split
    · exact types
    · rfl

theorem boxed?_mirrors {t t' : Ty} (types : t.Alike W t') :
    Mirrors W c c' (boxed? t) (boxed? t') fun W' => Option.Rel (DeclSymbol.Alike W' B) := by
  refine .read ?_
  cases t with
  | nullable t => obtain ⟨t', rfl, -⟩ := types; exact .pure .none
  | var v => obtain ⟨v', rfl, -⟩ := types; exact .pure .none
  | function params result => obtain ⟨params', result', rfl, -⟩ := types; exact .pure .none
  | ref d args => obtain ⟨args', rfl, -⟩ := types; exact .pure .none
  | number => cases types; exact .pure (contexts.registry.class? _)
  | string => cases types; exact .pure (contexts.registry.class? _)
  | boolean => cases types; exact .pure (contexts.registry.class? _)
  | _ => cases types; exact .pure .none

omit contexts in
private theorem found_mirrors {span : Span} {fault fault' : TypeFault} {a b : Option DeclSymbol} {args args' : List Ty}
    {isStatic : Bool} (decls : Option.Rel (DeclSymbol.Alike W B) a b) (types : Ty.AlikeAll W args args') :
    Mirrors W c c'
      (do
        let found ← (pure (a.map (⟨·, args, isStatic⟩)) : Analysis (Option Receiver))
        match found with
        | some recv => return some recv
        | none => reject span fault)
      (do
        let found ← (pure (b.map (⟨·, args', isStatic⟩)) : Analysis (Option Receiver))
        match found with
        | some recv => return some recv
        | none => reject span fault')
      fun W' => Option.Rel (Receiver.Alike W' B) := by
  cases decls with
  | none => exact .reject
  | some decls => exact .pure (.some ⟨decls, types, rfl⟩)

theorem receiver?_mirrors (span : Span) {t t' : Ty} (types : t.Alike W t') :
    Mirrors W c c' (receiver? span t) (receiver? span t') fun W' => Option.Rel (Receiver.Alike W' B) := by
  have inner : t.unwrap.1.Alike W t'.unwrap.1 := types.base
  refine .read ?_
  dsimp only
  generalize t.unwrap.1 = u at inner ⊢
  generalize t'.unwrap.1 = u' at inner ⊢
  have boxed := boxed?_mirrors contexts inner
  cases u with
  | var v =>
    obtain ⟨v', rfl, -⟩ := inner
    exact .pure .none
  | static n =>
    cases inner
    exact found_mirrors (contexts.registry.find n.name) rfl
  | ref n args =>
    obtain ⟨args', rfl, types⟩ := inner
    exact found_mirrors (contexts.registry.find n.name) types
  | nullable t =>
    obtain ⟨t', rfl, -⟩ := inner
    exact boxed.bind fun _ _ _ _ decls => found_mirrors decls rfl
  | function params result =>
    obtain ⟨params', result', rfl, -⟩ := inner
    exact boxed.bind fun _ _ _ _ decls => found_mirrors decls rfl
  | _ =>
    cases inner
    exact boxed.bind fun _ _ _ _ decls => found_mirrors decls rfl

include scopes in
theorem parentReceiver_mirrors (span : Span) :
    Mirrors W c c' (parentReceiver scope span) (parentReceiver scope' span) fun W' => Receiver.Alike W' B := by
  have parents := parentOf?_alike contexts.registry scopes
  refine .read ?_
  generalize parentOf? c.registry scope = a at parents ⊢
  generalize parentOf? c'.registry scope' = b at parents ⊢
  cases parents with
  | none => exact .reject
  | some parents =>
    refine (Mirrors.require (by rw [scopes.isStatic])).bind fun _ _ _ le _ => ?_
    refine Mirrors.note.bind fun _ _ _ le' _ => .pure ?_
    exact ⟨parents.1.mono (le.trans le'), parents.2.mono (le.trans le'), rfl⟩

include scopes in
theorem useMember_mirrors {recv recv' : Receiver} (receivers : recv.Alike W B recv') (name : String) (span : Span) :
    Mirrors W c c' (useMember scope recv name span) (useMember scope' recv' name span)
      fun W' => Member.Alike W' B name := by
  have members := member?_alike contexts.registry receivers name
  refine .read ?_
  dsimp only
  generalize member? c.registry recv name = a at members ⊢
  generalize member? c'.registry recv' name = b at members ⊢
  cases members with
  | none => exact .reject
  | @some p p' both =>
    obtain ⟨symbol, subst⟩ := p
    obtain ⟨symbol', subst'⟩ := p'
    obtain ⟨symbols, substs⟩ := both
    have owned := viewSubst_alike contexts.registry recv.decl.nominal symbol.owner receivers.args
    have sees := seesPrivate_alike contexts.registry scopes symbol.owner
    rw [symbols.owner] at sees owned
    have seen : (subst.getD (viewSubst c.registry recv.decl.nominal recv.args symbol.owner)).Alike W
        (subst'.getD (viewSubst c'.registry recv'.decl.nominal recv'.args symbol'.owner)) := by
      rw [symbols.owner, ← receivers.decl.nominal]
      cases substs with
      | none => exact owned
      | some substs => exact substs
    dsimp only
    refine (Mirrors.require (by rw [symbols.isStatic, receivers.isStatic])).bind fun _ _ _ le₁ _ => ?_
    refine (Mirrors.require (by rw [symbols.isStatic, receivers.isStatic])).bind fun _ _ _ le₂ _ => ?_
    refine (Mirrors.require (by rw [symbols.isPrivate, symbols.owner, sees])).bind fun _ _ _ le₃ _ => ?_
    refine Mirrors.noteAccess.bind fun _ _ _ le₄ _ => .pure ?_
    have le := ((le₁.trans le₂).trans le₃).trans le₄
    exact ⟨symbols.mono le, seen.mono le⟩

omit contexts in
include scopes in
theorem requireAssignable_mirrors {name : String} {m m' : Member} (members : m.Alike W B name m') (span : Span) :
    Mirrors W c c' (requireAssignable scope m name span) (requireAssignable scope' m' name span)
      fun _ _ _ => True := by
  obtain ⟨symbol, subst⟩ := m
  obtain ⟨symbol', subst'⟩ := m'
  obtain ⟨symbols, -⟩ := members
  cases symbols with
  | method => exact .reject
  | field fields =>
    refine .require ?_
    simp only [FieldSymbol.isReadonly, fields.decl, fields.owner, scopes.inConstructor, scopes.owner]

/-! ## Signatures -/

/-- Signatures that are alike. -/
structure Signature.Alike (W : Pairing) (s s' : Signature) : Prop where
  params : List.Forall₂ (Ty.Alike W) s.params s'.params
  result : s.result.Alike W s'.result

omit contexts in
theorem methodSignature_mirrors (name name' : String) {m m' : MethodSymbol} (methods : m.Alike W m') {s s' : Subst}
    (substs : s.Alike W s') (count : Nat) (span : Span) :
    Mirrors W c c' (methodSignature name m s count span) (methodSignature name' m' s' count span) Signature.Alike := by
  have required : m.required = m'.required := by rw [MethodSymbol.required, MethodSymbol.required, methods.decl]
  refine (Mirrors.require ?_).bind fun _ _ _ le _ => .pure ⟨?_, ?_⟩
  · rw [required, methods.params.length_eq]
  · refine List.rel_map ?_ methods.params
    exact fun _ _ params => (apply_alike substs params.type).mono le
  · exact (apply_alike substs methods.result).mono le

omit contexts in
theorem valueSignature_mirrors (name : String) {t t' : Ty} (types : t.Alike W t') (count : Nat) (span callee : Span) :
    Mirrors W c c' (valueSignature name t count span callee) (valueSignature name t' count span callee)
      Signature.Alike := by
  cases t with
  | var v =>
    obtain ⟨v', rfl, -⟩ := types
    exact (Mirrors.fresh _).bind fun _ _ _ _ result => .pure ⟨.nil, result⟩
  | function params result =>
    obtain ⟨params', result', rfl, params, result⟩ := types
    refine (Mirrors.require ?_).bind fun _ _ _ le _ => .pure ⟨alikeAll_iff.1 (params.mono le), result.mono le⟩
    rw [(alikeAll_iff.1 params).length_eq]
  | _ => exact .reject

include scopes in
theorem indexSignature_mirrors {recv recv' : Option Receiver} (receivers : Option.Rel (Receiver.Alike W B) recv recv')
    (name : String) (count : Nat) (span : Span) :
    Mirrors W c c' (indexSignature scope recv name count span) (indexSignature scope' recv' name count span)
      Signature.Alike := by
  cases receivers with
  | none => exact (Mirrors.fresh name).bind fun _ _ _ _ result => .pure ⟨.nil, result⟩
  | some receivers =>
    refine (useMember_mirrors contexts scopes receivers name span).bind fun _ m m' _ members => ?_
    obtain ⟨symbol, subst⟩ := m
    obtain ⟨symbol', subst'⟩ := m'
    obtain ⟨symbols, substs⟩ := members
    cases symbols with
    | field => exact .reject
    | method methods => exact methodSignature_mirrors name name methods substs count span

theorem constructorSignature_mirrors {d d' : DeclSymbol} (decls : d.Alike W B d') {args args' : List Ty}
    (types : Ty.AlikeAll W args args') {ctor ctor' : Option MethodSymbol}
    (ctors : Option.Rel (MethodSymbol.Alike W) ctor ctor') (count : Nat) (span : Span) :
    Mirrors W c c' (constructorSignature d args ctor count span) (constructorSignature d' args' ctor' count span)
      Signature.Alike := by
  cases ctors with
  | none => exact (Mirrors.require rfl).bind fun _ _ _ _ _ => .pure ⟨.nil, rfl⟩
  | some methods =>
    refine .read ?_
    rw [← decls.nominal, ← methods.owner]
    exact methodSignature_mirrors _ _ methods (viewSubst_alike contexts.registry _ _ types) count span

theorem requirePassed_mirrors {want want' : Option Ty} (wanted : Option.Rel (Ty.Alike W) want want') {got got' : Ty}
    (types : got.Alike W got') (span : Span) :
    Mirrors W c c' (requirePassed want got span) (requirePassed want' got' span) fun _ _ _ => True := by
  cases wanted with
  | none => exact .pure trivial
  | some wanted =>
    refine (Mirrors.require (by rw [types.isVoid])).bind fun _ _ _ le _ => ?_
    exact requireAccepts_mirrors (contexts.mono le) (wanted.mono le) (types.mono le)

end Demands

end ClassScript.Typing
