import Mathlib.Data.List.Nodup
import ClassScript.Proofs.Mirrors

/-!
Loops that go over the same items in another order. If two steps can change places without making a difference
other than the numbers of variables, so can all (`foldlM_perm`). Steps that work on one symbol each and see of the
others only what such steps leave alone can change places (`Keyed.perm`).
-/

namespace ClassScript.Typing

variable {c c' : Context} {α β γ δ : Type}

/-- Like `Mirrors`, but the variables handed out stand for each other in any way. -/
def Matches (W : Pairing) (c c' : Context) (x : Analysis α) (y : Analysis β) (Q : Pairing → α → β → Prop) : Prop :=
  ∀ p p' a q, p.fresh = W.left → p'.fresh = W.right → x c p = .ok (a, q) →
    ∃ W' b q', W ≤ W' ∧ y c' p' = .ok (b, q') ∧ q.fresh = W'.left ∧ q'.fresh = W'.right ∧ Q W' a b

theorem Mirrors.matches {W : Pairing} {x : Analysis α} {y : Analysis β} {Q : Pairing → α → β → Prop}
    (mirrors : Mirrors W c c' x y Q) : Matches W c c' x y Q := by
  intro p p' a q left right ran
  obtain ⟨u, b, q', ran', left', right', related⟩ := mirrors p p' a q left right ran
  exact ⟨W.grow u, b, q', W.le_grow u, ran', left', right', related⟩

theorem Matches.bind {W : Pairing} {x : Analysis α} {y : Analysis β} {P : Pairing → α → β → Prop} {f : α → Analysis γ}
    {g : β → Analysis δ} {Q : Pairing → γ → δ → Prop} (first : Matches W c c' x y P)
    (next : ∀ W' a b, W ≤ W' → P W' a b → Matches W' c c' (f a) (g b) Q) : Matches W c c' (x >>= f) (y >>= g) Q := by
  intro p p' d q left right ran
  obtain ⟨a, p₁, ended, ran⟩ := ran_bind ran
  obtain ⟨W₁, b, p₁', le₁, ended', left₁, right₁, related⟩ := first p p' a p₁ left right ended
  obtain ⟨W₂, d', q', le₂, ran', left₂, right₂, related'⟩ := next W₁ a b le₁ related p₁ p₁' d q left₁ right₁ ran
  exact ⟨W₂, d', q', le₁.trans le₂, bind_ran ended' ran', left₂, right₂, related'⟩

/-! ## Any order -/

section Order

variable {σ κ : Type} {key : κ → String} {step : σ → κ → Analysis σ} {R : Pairing → σ → σ → Prop}

/-- The same loop from states that are related. -/
theorem foldlM_matches (one : ∀ {W s s'} a, R W s s' → Matches W c c (step s a) (step s' a) R) (items : List κ)
    {W : Pairing} {s s' : σ} (related : R W s s') : Matches W c c (items.foldlM step s) (items.foldlM step s') R := by
  induction items generalizing W s s' with
  | nil =>
    rw [List.foldlM_nil, List.foldlM_nil]
    exact (Mirrors.pure related).matches
  | cons a items ih =>
    rw [List.foldlM_cons, List.foldlM_cons]
    exact (one a related).bind fun _ _ _ _ related => ih related

/-- If any two steps can change places, the order of the steps does not matter. -/
theorem foldlM_perm (refl : ∀ {W s s'}, R W s s' → R W.ofRight s' s')
    (trans : ∀ {W W' s s' s''}, R W s s' → R W' s' s'' → R (W.comp W') s s'')
    (one : ∀ {W s s'} a, R W s s' → Matches W c c (step s a) (step s' a) R)
    (two : ∀ {W s s'} a b, key a ≠ key b → R W s s' →
      Matches W c c (step s a >>= fun s => step s b) (step s' b >>= fun s => step s a) R)
    {items items' : List κ} (perm : items.Perm items') (distinct : (items.map key).Nodup) {W : Pairing} {s s' : σ}
    (related : R W s s') : Matches W c c (items.foldlM step s) (items'.foldlM step s') R := by
  induction perm generalizing W s s' with
  | nil => exact foldlM_matches one [] related
  | cons a _ ih =>
    rw [List.map_cons, List.nodup_cons] at distinct
    rw [List.foldlM_cons, List.foldlM_cons]
    exact (one a related).bind fun _ _ _ _ related => ih distinct.2 related
  | swap a b items =>
    have differ : key b ≠ key a := by
      rw [List.map_cons, List.map_cons, List.nodup_cons] at distinct
      exact fun same => distinct.1 (same ▸ List.mem_cons_self)
    simp only [List.foldlM_cons, ← bind_assoc]
    exact (two b a differ related).bind fun _ _ _ _ related => foldlM_matches one items related
  | trans first _ ih ih' =>
    intro p p' t q left right ran
    obtain ⟨W₁, t₁, q₁, le₁, ran₁, left₁, right₁, related₁⟩ := ih distinct related p p' t q left right ran
    -- the loop in between is run from the second state, once beside the first run and once beside the last
    obtain ⟨W₂, t₂, q₂, le₂, ran₂, left₂, right₂, related₂⟩ :=
      ih' ((first.map key).nodup_iff.1 distinct) (refl related) p' p' t₁ q₁ right right ran₁
    refine ⟨W₁.comp W₂, t₂, q₂, fun a b paired => ?_, ran₂, left₁, right₂, trans related₁ related₂⟩
    exact ⟨b, le₁ a b paired, le₂ b b ⟨rfl, (W.bound paired).2⟩⟩

end Order

/-! ## Steps that work on one symbol -/

/-- Steps of a loop over a registry that change the symbol of one name each, and see of the others only what
`View` says. Each step adds as many names. -/
structure Keyed {κ : Type} (key : κ → String) (step : Registry → κ → Analysis Registry) (c : Context) (added : Nat)
    (Inv : Registry → Prop) (View : κ → Pairing → Registry → Registry → Prop) : Prop where
  size {r r₁ : Registry} {a : κ} : Gives (step r a) c r₁ → List.length r₁ = List.length r + added
  distinct {r r₁ : Registry} {a : κ} : r.names.Nodup → Gives (step r a) c r₁ → r₁.names.Nodup
  frame {r r₁ : Registry} {a : κ} {name : String} : Gives (step r a) c r₁ → name ≠ key a → r₁.find? name = r.find? name
  keeps {r r₁ : Registry} {a : κ} : Inv r → Gives (step r a) c r₁ → Inv r₁
  view {W : Pairing} {r r' : Registry} (a : κ) : r.Same W r' → Inv r → Inv r' → View a W r r'
  viewLeft {W : Pairing} {r r' r₁ : Registry} {a b : κ} : r.Same W r' → Inv r → Inv r' → key b ≠ key a →
    Gives (step r b) c r₁ → View a W r₁ r'
  viewRight {W : Pairing} {r r' r₁ : Registry} {a b : κ} : r.Same W r' → Inv r → Inv r' → key b ≠ key a →
    Gives (step r' b) c r₁ → View a W r r₁
  mirrors {W : Pairing} {r r' : Registry} {a : κ} : View a W r r' →
    Mirrors W c c (step r a) (step r' a) fun W' r₁ r₁' =>
      Option.Rel (DeclSymbol.Same W') (r₁.find? (key a)) (r₁'.find? (key a))

namespace Keyed

variable {κ : Type} {key : κ → String} {step : Registry → κ → Analysis Registry} {added : Nat} {Inv : Registry → Prop}
  {View : κ → Pairing → Registry → Registry → Prop} (keyed : Keyed key step c added Inv View)
include keyed

/-- Both runs take the same step. -/
theorem one {W : Pairing} {r r' : Registry} (a : κ) (related : r.Same W r' ∧ Inv r ∧ Inv r') :
    Matches W c c (step r a) (step r' a) fun W' r₁ r₁' => r₁.Same W' r₁' ∧ Inv r₁ ∧ Inv r₁' := by
  obtain ⟨same, inv, inv'⟩ := related
  intro p p' r₁ q left right ran
  obtain ⟨u, r₁', q', ran', left', right', own⟩ := keyed.mirrors (keyed.view a same inv inv') p p' r₁ q left right ran
  have gives : Gives (step r a) c r₁ := ⟨p, q, ran⟩
  have gives' : Gives (step r' a) c r₁' := ⟨p', q', ran'⟩
  refine ⟨W.grow u, r₁', q', W.le_grow u, ran', left', right', ?_, keyed.keeps inv gives, keyed.keeps inv' gives'⟩
  refine ⟨?_, keyed.distinct same.distinct gives, keyed.distinct same.distinct' gives', fun name => ?_⟩
  · rw [keyed.size gives, keyed.size gives', same.length]
  · by_cases here : name = key a
    · rw [here]
      exact own
    · rw [keyed.frame gives here, keyed.frame gives' here]
      exact (same.mono (W.le_grow u)).find name

/-- Two steps on different symbols can change places. -/
theorem two {W : Pairing} {r r' : Registry} (a b : κ) (differ : key a ≠ key b) (related : r.Same W r' ∧ Inv r ∧ Inv r') :
    Matches W c c (step r a >>= fun r => step r b) (step r' b >>= fun r => step r a)
      fun W' r₁ r₁' => r₁.Same W' r₁' ∧ Inv r₁ ∧ Inv r₁' := by
  obtain ⟨same, inv, inv'⟩ := related
  intro p p' r₂ q left right ran
  obtain ⟨r₁, q₁, ran₁, ran₂⟩ := ran_bind ran
  have gives₁ : Gives (step r a) c r₁ := ⟨p, q₁, ran₁⟩
  have gives₂ : Gives (step r₁ b) c r₂ := ⟨q₁, q, ran₂⟩
  obtain ⟨m, -, -, -, count, -⟩ := keyed.mirrors (keyed.view a same inv inv') p p' r₁ q₁ left right ran₁
  -- the second run takes step `b` first, beside the first run after step `a`
  obtain ⟨n, r₁', q₁', ran₁', left₁, right₁, ownB⟩ :=
    keyed.mirrors (keyed.viewLeft (same.mono (W.le_skip m 0)) inv inv' differ gives₁) q₁ p' r₂ q count right ran₂
  have gives₁' : Gives (step r' b) c r₁' := ⟨p', q₁', ran₁'⟩
  -- and then step `a`, beside the first run before it
  obtain ⟨m', r₂', q', ran₂', left₂, right₂, ownA⟩ :=
    keyed.mirrors (keyed.viewRight (same.mono (W.le_skip 0 n)) inv inv' (Ne.symm differ) gives₁') p q₁' r₁ q₁ left
      (by simpa [Pairing.skip] using right₁) ran₁
  have gives₂' : Gives (step r₁' a) c r₂' := ⟨q₁', q', ran₂'⟩
  obtain rfl : m' = m := by
    rw [count] at left₂
    simpa [Pairing.skip] using left₂.symm
  refine ⟨W.cross m' n, r₂', q', W.le_cross m' n, bind_ran ran₁' ran₂', ?_, ?_, ⟨?_, ?_, ?_, fun name => ?_⟩,
    keyed.keeps (keyed.keeps inv gives₁) gives₂, keyed.keeps (keyed.keeps inv' gives₁') gives₂'⟩
  · simpa [Pairing.skip, Pairing.cross] using left₁
  · simpa [Pairing.skip, Pairing.cross] using right₂
  · rw [keyed.size gives₂, keyed.size gives₁, keyed.size gives₂', keyed.size gives₁', same.length]
  · exact keyed.distinct (keyed.distinct same.distinct gives₁) gives₂
  · exact keyed.distinct (keyed.distinct same.distinct' gives₁') gives₂'
  · by_cases isA : name = key a
    · rw [isA, keyed.frame gives₂ differ]
      exact optionRel_imp (fun _ _ decls => decls.mono (W.skip_grow_le_cross m' n)) ownA
    · by_cases isB : name = key b
      · rw [isB, keyed.frame gives₂' (Ne.symm differ)]
        exact optionRel_imp (fun _ _ decls => decls.mono (W.skip_grow_le_cross' m' n)) ownB
      · rw [keyed.frame gives₂ isB, keyed.frame gives₁ isA, keyed.frame gives₂' isA, keyed.frame gives₁' isB]
        exact (same.mono (W.le_cross m' n)).find name

/-- The order of the steps does not matter. -/
theorem perm {items items' : List κ} (perm : items.Perm items') (distinct : (items.map key).Nodup) {W : Pairing}
    {r r' : Registry} (same : r.Same W r') (inv : Inv r) (inv' : Inv r') :
    Matches W c c (items.foldlM step r) (items'.foldlM step r')
      fun W' r₁ r₁' => r₁.Same W' r₁' ∧ Inv r₁ ∧ Inv r₁' := by
  refine foldlM_perm (R := fun W r r' => r.Same W r' ∧ Inv r ∧ Inv r') (fun related => ?_) (fun first second => ?_)
    (fun a related => keyed.one a related) (fun a b differ related => keyed.two a b differ related) perm distinct
    ⟨same, inv, inv'⟩
  · exact ⟨related.1.ofRight, related.2.2, related.2.2⟩
  · exact ⟨first.1.trans second.1, first.2.1, second.2.2⟩

end Keyed

end ClassScript.Typing
