import Mathlib.Data.List.Forall2
import ClassScript.Typing.Program

/-!
Results that typing can give. Each rule says what must have happened if a sequence, a loop or a demand
came to an end, so that what an accepted program is like is read off from the end (`gives_bind`,
`gives_foldlM`).
-/

namespace ClassScript

/-- A member of the one list has a partner in the other. -/
theorem mem_of_forall₂_right {α β : Type} {R : α → β → Prop} {as : List α} {bs : List β} (related : List.Forall₂ R as bs)
    {b : β} (member : b ∈ bs) : ∃ a ∈ as, R a b := by
  induction related with
  | nil => cases member
  | cons first _ ih =>
    rcases List.mem_cons.1 member with rfl | member
    · exact ⟨_, List.mem_cons_self, first⟩
    · obtain ⟨a, within, related⟩ := ih member
      exact ⟨a, List.mem_cons_of_mem _ within, related⟩

theorem mem_of_forall₂_left {α β : Type} {R : α → β → Prop} {as : List α} {bs : List β} (related : List.Forall₂ R as bs)
    {a : α} (member : a ∈ as) : ∃ b ∈ bs, R a b := mem_of_forall₂_right (R := fun b a => R a b) related.flip member

namespace Typing

/-- A computation with types can give that result. How many variables were handed out before does not
matter. -/
def Gives {α : Type} (x : Analysis α) (c : Context) (a : α) : Prop := ∃ p p', x c p = .ok (a, p')

variable {α β : Type} {c : Context}

/-- What a run from one point results in can be given. -/
theorem gives_of_run {x : Analysis α} {a : α} {p : Progress} (ran : (x c p).toOption.map (·.1) = some a) : Gives x c a := by
  obtain ⟨⟨_, q⟩, result, rfl⟩ := Option.map_eq_some_iff.1 ran
  refine ⟨p, q, ?_⟩
  generalize x c p = r at result
  cases r with
  | error stop => cases result
  | ok given => rw [Option.some.inj result]

theorem gives_pure {a b : α} (gives : Gives (pure a) c b) : b = a := by
  obtain ⟨p, p', ran⟩ := gives
  injection ran with pair
  exact (Prod.mk.inj pair).1.symm

theorem gives_bind {x : Analysis α} {f : α → Analysis β} {b : β} (gives : Gives (x >>= f) c b) :
    ∃ a, Gives x c a ∧ Gives (f a) c b := by
  obtain ⟨p, p', ran⟩ := gives
  change (x c p).bind (fun r => f r.1 c r.2) = .ok (b, p') at ran
  rcases first : x c p with stop | ⟨a, q⟩
  · rw [first] at ran
    cases ran
  · rw [first] at ran
    exact ⟨a, ⟨p, q, first⟩, ⟨q, p', ran⟩⟩

theorem gives_map {f : α → β} {x : Analysis α} {b : β} (gives : Gives (f <$> x) c b) : ∃ a, Gives x c a ∧ b = f a := by
  rw [map_eq_pure_bind] at gives
  obtain ⟨a, inner, gives⟩ := gives_bind gives
  exact ⟨a, inner, gives_pure gives⟩

theorem gives_read {b : Context} (gives : Gives (read : Analysis Context) c b) : b = c := by
  obtain ⟨p, p', ran⟩ := gives
  injection ran with pair
  exact (Prod.mk.inj pair).1.symm

theorem not_gives_reject {span : Span} {fault : TypeFault} {a : α} : ¬ Gives (reject span fault : Analysis α) c a := by
  rintro ⟨p, p', ran⟩
  cases ran

theorem gives_require {condition : Bool} {span : Span} {fault : TypeFault} {u : Unit}
    (gives : Gives (require condition span fault) c u) : condition = true := by
  unfold require at gives
  split at gives
  · assumption
  · exact absurd gives not_gives_reject

theorem gives_noting {span : Span} {x : Analysis Ty} {t : Ty} (gives : Gives (noting span x) c t) : Gives x c t := by
  obtain ⟨t', inner, gives⟩ := gives_bind gives
  obtain ⟨_, -, gives⟩ := gives_bind gives
  exact gives_pure gives ▸ inner

/-! ## Other surroundings -/

theorem gives_withReader {f : Context → Context} {x : Analysis α} {a : α} (gives : Gives (withReader f x) c a) :
    Gives x (f c) a := gives

theorem gives_inFile {file : String} {x : Analysis α} {a : α} (gives : Gives (inFile file x) c a) :
    Gives x { c with file } a := gives

theorem gives_knowing {r : Registry} {x : Analysis α} {a : α} (gives : Gives (knowing r x) c a) :
    Gives x { c with registry := r } a := gives

/-! ## Loops -/

theorem gives_mapM {f : α → Analysis β} {items : List α} {results : List β} (gives : Gives (items.mapM f) c results) :
    List.Forall₂ (fun a b => Gives (f a) c b) items results := by
  induction items generalizing results with
  | nil =>
    rw [List.mapM_nil] at gives
    rw [gives_pure gives]
    exact .nil
  | cons a items ih =>
    rw [List.mapM_cons] at gives
    obtain ⟨b, first, gives⟩ := gives_bind gives
    obtain ⟨bs, rest, gives⟩ := gives_bind gives
    rw [gives_pure gives]
    exact .cons first (ih rest)

theorem gives_forM {f : α → Analysis PUnit} {items : List α} {u : PUnit} (gives : Gives (items.forM f) c u) :
    ∀ a ∈ items, Gives (f a) c PUnit.unit := by
  induction items with
  | nil => simp
  | cons a items ih =>
    obtain ⟨_, first, rest⟩ := gives_bind gives
    intro b member
    rcases List.mem_cons.1 member with rfl | member
    · exact first
    · exact ih rest b member

/-- What one step of a loop preserves holds after all of them. -/
theorem gives_foldlM {f : β → α → Analysis β} {items : List α} {b r : β} {I : List α → β → Prop}
    (step : ∀ done a b b', I done b → Gives (f b a) c b' → I (done ++ [a]) b') (done : List α)
    (gives : Gives (items.foldlM f b) c r) (start : I done b) : I (done ++ items) r := by
  induction items generalizing b done with
  | nil =>
    rw [List.foldlM_nil] at gives
    rw [gives_pure gives, List.append_nil]
    exact start
  | cons a items ih =>
    rw [List.foldlM_cons] at gives
    obtain ⟨b', first, rest⟩ := gives_bind gives
    have ended := ih _ rest (step done a b b' start first)
    rwa [List.append_assoc] at ended

/-- What every step preserves holds after all of them. -/
theorem gives_foldlM_keeps {f : β → α → Analysis β} {items : List α} {b r : β} {I : β → Prop}
    (step : ∀ a b b', I b → Gives (f b a) c b' → I b') (gives : Gives (items.foldlM f b) c r) (start : I b) : I r :=
  gives_foldlM (I := fun _ => I) (fun _ => step) [] gives start

end Typing

end ClassScript
