import ClassScript.Proofs.Views
import Mathlib.Data.List.Forall2

/-!
Acceptance as an order of types. Over declarations without type parameters, and on types without variables,
every question has an answer, each type takes itself, and what takes a type takes all that the type takes
(`acceptance_is_preorder`). For references this is reachability along supertypes, whatever circles they go
round; a function whose result is void takes any result, and yet no chain of slots leads through it to a
wrong one, since apart from void itself only `mixed` takes void.
-/

namespace ClassScript

namespace Ty

/-- Whether a mark makes a type nullable that was not, and that has values. -/
def isMarkable : Ty → Bool
  | nullable _ | mixed | null | void => false
  | _ => true

mutual

/-- Whether a type is written without variables and type arguments, with nullable types as `orNull` makes
them, none of them of void. -/
def isMonomorphic : Ty → Bool
  | nullable t => t.isMarkable && t.isMonomorphic
  | var _ => false
  | function params result => allMonomorphic params && result.isMonomorphic
  | ref _ args => args.isEmpty
  | _ => true

/-- Whether all types are monomorphic. -/
def allMonomorphic : List Ty → Bool
  | [] => true
  | t :: ts => t.isMonomorphic && allMonomorphic ts

end

theorem isMonomorphic_of_mem {t : Ty} {ts : List Ty} (all : allMonomorphic ts = true) (member : t ∈ ts) :
    t.isMonomorphic = true := by
  induction ts with
  | nil => cases member
  | cons u ts ih =>
    rw [allMonomorphic, Bool.and_eq_true] at all
    rcases List.mem_cons.1 member with rfl | later
    · exact all.1
    · exact ih all.2 later

theorem isMonomorphic_base {t : Ty} (plain : t.isMonomorphic = true) : t.base.isMonomorphic = true := by
  cases t with
  | nullable t =>
    rw [isMonomorphic, Bool.and_eq_true] at plain
    exact plain.2
  | _ => exact plain

theorem sizeOf_base_le (t : Ty) : sizeOf t.base ≤ sizeOf t := by
  cases t with
  | nullable t => simp [base, unwrap]
  | _ => exact Nat.le_refl _

theorem eq_nullable_of_base_ne {t : Ty} (marked : t.base ≠ t) : ∃ u, t = nullable u := by
  cases t with
  | nullable u => exact ⟨u, rfl⟩
  | _ => exact absurd rfl marked

/-- Whether a type has no parts and takes only itself. -/
def isFlat : Ty → Bool
  | number | string | boolean | void | null | static _ => true
  | _ => false

end Ty

namespace TypeTable

/-- A slot takes a value. -/
def Accepts (table : TypeTable) (slot value : Ty) : Prop := Answered table (slot, value) true

/-- A look at a question confirms it. -/
def Verdict.Confirms (table : TypeTable) : Verdict → Prop
  | .settled answer => answer = true
  | .further questions => ∀ q ∈ questions, Accepts table q.1 q.2

variable {table : TypeTable}

theorem eq_true_of_allM {α : Type} {f : α → Option Bool} {l : List α} (found : l.allM f = some true) {a : α}
    (member : a ∈ l) : f a = some true := by
  induction l with
  | nil => cases member
  | cons b l ih =>
    simp only [List.allM, Option.bind_eq_bind] at found
    cases first : f b with
    | none => simp [first] at found
    | some answer =>
      rw [first] at found
      cases answer with
      | false => simp at found
      | true =>
        rcases List.mem_cons.1 member with rfl | later
        · exact first
        · exact ih found later

/-- Questions that are all answered yes are so with one number of steps. -/
theorem allM_of_accepts {questions : List (Ty × Ty)} (all : ∀ q ∈ questions, Accepts table q.1 q.2) :
    ∃ fuel, (questions.allM fun q => accepts? table fuel q.1 q.2) = some true := by
  induction questions with
  | nil => exact ⟨0, rfl⟩
  | cons q questions ih =>
    obtain ⟨fuel, first⟩ := all q List.mem_cons_self
    obtain ⟨more, rest⟩ := ih fun r member => all r (List.mem_cons_of_mem q member)
    have raised : (questions.allM fun r => accepts? table (max fuel more) r.1 r.2) = some true :=
      allM_mono (fun r _ b found => accepts?_mono table more _ r.1 r.2 b found (Nat.le_max_right ..)) rest
    have first : accepts? table (max fuel more) q.1 q.2 = some true :=
      accepts?_mono table fuel _ q.1 q.2 true first (Nat.le_max_left ..)
    exact ⟨max fuel more, by simp [List.allM, first, raised]⟩

/-- A slot takes a value if a look at the two confirms it. -/
theorem accepts_iff {slot value : Ty} : Accepts table slot value ↔ (consider table slot value).Confirms table := by
  constructor
  · rintro ⟨_ | fuel, found⟩
    · simp [accepts?] at found
    rw [accepts?_succ] at found
    dsimp only at found
    cases seen : consider table slot value with
    | settled answer =>
      rw [seen] at found
      exact Option.some.inj found
    | further questions =>
      rw [seen] at found
      exact fun q member => ⟨fuel, eq_true_of_allM found member⟩
  · intro confirmed
    cases seen : consider table slot value with
    | settled answer =>
      rw [seen] at confirmed
      exact ⟨1, by rw [accepts?_succ, seen]; exact congrArg some confirmed⟩
    | further questions =>
      rw [seen] at confirmed
      obtain ⟨fuel, found⟩ := allM_of_accepts confirmed
      exact ⟨fuel + 1, by rw [accepts?_succ, seen]; exact found⟩

/-! ## One kind of slot at a time -/

theorem accepts_mixed (value : Ty) : Accepts table .mixed value := accepts_iff.2 rfl

theorem accepts_nullable_null (t : Ty) : Accepts table (.nullable t) .null := accepts_iff.2 rfl

/-- Apart from null, a nullable slot takes what its inner type takes. -/
theorem accepts_nullable_iff {t value : Ty} (other : value ≠ .null) :
    Accepts table (.nullable t) value ↔ Accepts table t value.base := by
  rw [accepts_iff]
  cases value with
  | null => exact absurd rfl other
  | _ => simp [consider, Verdict.Confirms, Ty.base, Ty.unwrap]

/-- Functions take functions with as many parameters, each of which takes what is passed, and with a fitting
result unless none is wanted. -/
theorem accepts_function_iff {params params' : List Ty} {result result' : Ty} :
    Accepts table (.function params result) (.function params' result') ↔
      List.Forall₂ (fun p p' => Accepts table p' p) params params' ∧ (result = .void ∨ Accepts table result result') := by
  rw [accepts_iff, consider, List.forall₂_iff_zip]
  by_cases arity : params.length = params'.length
  · rw [if_neg (by simp [arity])]
    constructor
    · intro all
      refine ⟨⟨arity, fun member => all _ (List.mem_append_left _ (List.mem_map_of_mem member))⟩, ?_⟩
      by_cases nothing : result.isVoid = true
      · left
        cases result <;> simp [Ty.isVoid] at nothing
        rfl
      · right
        exact all (result, result') (List.mem_append_right _ (by simp [nothing]))
    · rintro ⟨⟨-, passed⟩, fits⟩ q member
      rcases List.mem_append.1 member with swapped | last
      · obtain ⟨p, zipped, rfl⟩ := List.mem_map.1 swapped
        exact passed zipped
      · rcases fits with rfl | fits
        · simp [Ty.isVoid] at last
        · split at last
          · cases last
          · obtain rfl := List.mem_singleton.1 last
            exact fits
  · rw [if_pos (by simp [arity])]
    exact ⟨fun no => absurd no (by simp [Verdict.Confirms]), fun all => absurd all.1.1 arity⟩

/-- A reference without arguments takes the references that can be seen as it. -/
theorem accepts_ref_iff {d d' : Nominal} {args : List Ty} :
    Accepts table (.ref d []) (.ref d' args) ↔ (viewAs table d' args d).isSome = true := by
  rw [accepts_iff, consider]
  cases viewAs table d' args d with
  | none => simp [Verdict.Confirms]
  | some view => simp [Verdict.Confirms]

theorem accepts_flat (slot : Ty) (flat : slot.isFlat = true) : Accepts table slot slot := by
  rw [accepts_iff]
  cases slot <;> simp [Ty.isFlat] at flat <;> simp [consider, Verdict.Confirms]

/-! ## What is taken -/

theorem eq_of_accepts_flat {slot value : Ty} (plain : value.isMonomorphic = true) (flat : slot.isFlat = true)
    (takes : Accepts table slot value) : value = slot := by
  rw [accepts_iff] at takes
  cases slot <;> simp [Ty.isFlat] at flat <;> cases value <;>
    simp_all [consider, Verdict.Confirms, Ty.isMonomorphic]

/-- Only functions are taken by functions. -/
theorem function_of_accepts {params : List Ty} {result value : Ty} (plain : value.isMonomorphic = true)
    (takes : Accepts table (.function params result) value) : ∃ params' result', value = .function params' result' := by
  rw [accepts_iff] at takes
  cases value with
  | function params' result' => exact ⟨params', result', rfl⟩
  | var v => cases plain
  | _ => cases takes

/-- Only references are taken by references. -/
theorem ref_of_accepts {d : Nominal} {args : List Ty} {value : Ty} (plain : value.isMonomorphic = true)
    (takes : Accepts table (.ref d args) value) : ∃ d', value = .ref d' [] := by
  rw [accepts_iff] at takes
  cases value with
  | ref d' args' => exact ⟨d', by rw [List.isEmpty_iff.1 plain]⟩
  | var v => cases plain
  | _ => cases takes

/-- Apart from `mixed`, only void takes void, and nothing takes `mixed`. -/
theorem eq_mixed_or_eq_of_accepts {slot value : Ty} (plain : slot.isMonomorphic = true) (odd : value = .mixed ∨ value = .void)
    (takes : Accepts table slot value) : slot = .mixed ∨ slot = value := by
  have plainValue : value.isMonomorphic = true := by rcases odd with rfl | rfl <;> rfl
  cases slot with
  | mixed => exact .inl rfl
  | nullable t =>
    have same : value.base = value := by rcases odd with rfl | rfl <;> rfl
    rw [accepts_nullable_iff (by rcases odd with rfl | rfl <;> simp), same] at takes
    rw [Ty.isMonomorphic, Bool.and_eq_true] at plain
    rcases eq_mixed_or_eq_of_accepts plain.2 odd takes with rfl | rfl
    · cases plain.1
    · rcases odd with rfl | rfl <;> cases plain.1
  | function params result =>
    obtain ⟨_, _, rfl⟩ := function_of_accepts plainValue takes
    simp at odd
  | ref d args =>
    obtain ⟨_, rfl⟩ := ref_of_accepts plainValue takes
    simp at odd
  | var v => cases plain
  | _ => exact .inr (eq_of_accepts_flat plainValue rfl takes).symm

/-- Of the types that are not nullable, only `mixed` takes a nullable one. -/
theorem eq_mixed_of_accepts_nullable {slot t : Ty} (plain : slot.isMonomorphic = true)
    (plainValue : (Ty.nullable t).isMonomorphic = true) (bare : slot.base = slot)
    (takes : Accepts table slot (.nullable t)) : slot = .mixed := by
  cases slot with
  | mixed => rfl
  | nullable u =>
    have longer := congrArg sizeOf bare
    simp [Ty.base, Ty.unwrap] at longer
  | function params result =>
    obtain ⟨_, _, other⟩ := function_of_accepts plainValue takes
    cases other
  | ref d args =>
    obtain ⟨_, other⟩ := ref_of_accepts plainValue takes
    cases other
  | var v => cases plain
  | _ => cases eq_of_accepts_flat plainValue rfl takes

/-! ## The order -/

theorem forall₂_trans {α : Type} {R : α → α → Prop} {as bs cs : List α}
    (each : ∀ a ∈ as, ∀ b ∈ bs, ∀ c ∈ cs, R a b → R b c → R a c) (first : List.Forall₂ R as bs)
    (second : List.Forall₂ R bs cs) : List.Forall₂ R as cs := by
  induction first generalizing cs with
  | nil => exact second
  | @cons a b as bs related _ ih =>
    cases second with
    | @cons _ c _ cs related' rest =>
      refine .cons (each a List.mem_cons_self b List.mem_cons_self c List.mem_cons_self related related') ?_
      exact ih (fun x xs y ys z zs => each x (List.mem_cons_of_mem a xs) y (List.mem_cons_of_mem b ys) z
        (List.mem_cons_of_mem c zs)) rest

/-- A type takes itself. -/
theorem accepts_refl (t : Ty) (plain : t.isMonomorphic = true) : Accepts table t t := by
  cases t with
  | mixed => exact accepts_mixed _
  | nullable t =>
    rw [Ty.isMonomorphic, Bool.and_eq_true] at plain
    exact (accepts_nullable_iff (by simp)).2 (accepts_refl t plain.2)
  | function params result =>
    rw [Ty.isMonomorphic, Bool.and_eq_true] at plain
    refine accepts_function_iff.2 ⟨List.forall₂_same.2 fun p member => ?_, .inr (accepts_refl result plain.2)⟩
    have smaller := List.sizeOf_lt_of_mem member
    exact accepts_refl p (Ty.isMonomorphic_of_mem plain.1 member)
  | ref d args =>
    obtain rfl := List.isEmpty_iff.1 plain
    refine accepts_ref_iff.2 ?_
    rw [viewAs, search_succ, if_pos (beq_self_eq_true d)]
    rfl
  | var v => cases plain
  | _ => exact accepts_flat _ rfl
termination_by sizeOf t

/-- What takes a type takes all that the type takes. The parameters of functions change places, which is why
the three types are measured together. -/
theorem accepts_trans (unparameterized : ∀ d ∈ table, d.params = []) {a b c : Ty} (plainA : a.isMonomorphic = true)
    (plainB : b.isMonomorphic = true) (plainC : c.isMonomorphic = true) (first : Accepts table a b)
    (second : Accepts table b c) : Accepts table a c := by
  cases a with
  | mixed => exact accepts_mixed c
  | nullable a =>
    by_cases isNull : c = .null
    · exact isNull ▸ accepts_nullable_null a
    refine (accepts_nullable_iff isNull).2 ?_
    rw [Ty.isMonomorphic, Bool.and_eq_true] at plainA
    by_cases wasNull : b = .null
    · subst wasNull
      exact absurd (eq_of_accepts_flat plainC rfl second) isNull
    rw [accepts_nullable_iff wasNull] at first
    have smallerB := Ty.sizeOf_base_le b
    have smallerC := Ty.sizeOf_base_le c
    refine accepts_trans unparameterized plainA.2 (Ty.isMonomorphic_base plainB) (Ty.isMonomorphic_base plainC) first ?_
    by_cases bare : b.base = b
    · by_cases bareC : c.base = c
      · rwa [bare, bareC]
      obtain ⟨t, rfl⟩ := Ty.eq_nullable_of_base_ne bareC
      -- what is marked as nullable does not take everything
      obtain rfl := eq_mixed_of_accepts_nullable plainB plainC bare second
      rcases eq_mixed_or_eq_of_accepts plainA.2 (.inl rfl) first with rfl | rfl <;> cases plainA.1
    · obtain ⟨t, rfl⟩ := Ty.eq_nullable_of_base_ne bare
      exact (accepts_nullable_iff isNull).1 second
  | function params result =>
    obtain ⟨params', result', rfl⟩ := function_of_accepts plainB first
    obtain ⟨params'', result'', rfl⟩ := function_of_accepts plainC second
    rw [Ty.isMonomorphic, Bool.and_eq_true] at plainA plainB plainC
    rw [accepts_function_iff] at first second ⊢
    refine ⟨forall₂_trans (fun p inA q inB r inC pass pass' => ?_) first.1 second.1, ?_⟩
    · have sizeP := List.sizeOf_lt_of_mem inA
      have sizeQ := List.sizeOf_lt_of_mem inB
      have sizeR := List.sizeOf_lt_of_mem inC
      exact accepts_trans unparameterized (Ty.isMonomorphic_of_mem plainC.1 inC) (Ty.isMonomorphic_of_mem plainB.1 inB)
        (Ty.isMonomorphic_of_mem plainA.1 inA) pass' pass
    · rcases first.2 with nothing | fits
      · exact .inl nothing
      rcases second.2 with rfl | fits'
      · rcases eq_mixed_or_eq_of_accepts plainA.2 (.inr rfl) fits with rfl | rfl
        · exact .inr (accepts_mixed _)
        · exact .inl rfl
      · exact .inr (accepts_trans unparameterized plainA.2 plainB.2 plainC.2 fits fits')
  | ref d args =>
    obtain rfl := List.isEmpty_iff.1 plainA
    obtain ⟨d', rfl⟩ := ref_of_accepts plainB first
    obtain ⟨d'', rfl⟩ := ref_of_accepts plainC second
    have grounded := grounded_of_unparameterized unparameterized
    rw [accepts_ref_iff, viewAs_isSome_iff grounded] at first second ⊢
    exact second.trans first
  | var v => cases plainA
  | _ =>
    obtain rfl := eq_of_accepts_flat plainB rfl first
    obtain rfl := eq_of_accepts_flat plainC rfl second
    exact first
termination_by sizeOf a + sizeOf b + sizeOf c
decreasing_by
  all_goals
    subst_vars
    simp only [Ty.nullable.sizeOf_spec, Ty.function.sizeOf_spec]
    omega

/-! ## Answers -/

/-- The questions that a question about two monomorphic types comes down to are about smaller ones. -/
theorem further_smaller_monomorphic {slot value : Ty} {questions : List (Ty × Ty)} (plain : slot.isMonomorphic = true)
    (plainValue : value.isMonomorphic = true) (seen : consider table slot value = .further questions) {q : Ty × Ty}
    (member : q ∈ questions) :
    q.1.isMonomorphic = true ∧ q.2.isMonomorphic = true ∧ sizeOf q.1 + sizeOf q.2 < sizeOf slot + sizeOf value := by
  cases slot with
  | nullable t =>
    have isNull : value ≠ .null := by
      rintro rfl
      simp [consider] at seen
    have same : questions = [(t, value.base)] := by
      cases value <;> first
        | exact (Verdict.further.inj seen).symm
        | exact absurd rfl isNull
    obtain rfl := List.mem_singleton.1 (same ▸ member)
    rw [Ty.isMonomorphic, Bool.and_eq_true] at plain
    have smaller := Ty.sizeOf_base_le value
    exact ⟨plain.2, Ty.isMonomorphic_base plainValue, by simp only [Ty.nullable.sizeOf_spec]; omega⟩
  | function params result =>
    cases value with
    | function params' result' =>
      rw [Ty.isMonomorphic, Bool.and_eq_true] at plain plainValue
      rw [consider] at seen
      split at seen
      · cases seen
      obtain rfl := Verdict.further.inj seen
      simp only [Ty.function.sizeOf_spec]
      rcases List.mem_append.1 member with swapped | last
      · obtain ⟨p, zipped, rfl⟩ := List.mem_map.1 swapped
        obtain ⟨inParams, inParams'⟩ := List.of_mem_zip zipped
        have smaller := List.sizeOf_lt_of_mem inParams
        have smaller' := List.sizeOf_lt_of_mem inParams'
        exact ⟨Ty.isMonomorphic_of_mem plainValue.1 inParams', Ty.isMonomorphic_of_mem plain.1 inParams, by
          dsimp only; omega⟩
      · split at last
        · cases last
        · obtain rfl := List.mem_singleton.1 last
          exact ⟨plain.2, plainValue.2, by dsimp only; omega⟩
    | _ => cases seen
  | ref d args =>
    obtain rfl := List.isEmpty_iff.1 plain
    cases value with
    | ref d' args' =>
      rw [consider] at seen
      split at seen <;> cases seen
    | _ => cases seen
  | _ => cases value <;> cases seen

/-- Every question about two monomorphic types has an answer. -/
theorem finishes_monomorphic {slot value : Ty} (plain : slot.isMonomorphic = true)
    (plainValue : value.isMonomorphic = true) : Finishes table slot value := by
  refine finishes_of_acc table (slot, value) ?_
  suffices bounded : ∀ size (q : Ty × Ty), q.1.isMonomorphic = true → q.2.isMonomorphic = true →
      sizeOf q.1 + sizeOf q.2 ≤ size → Acc (fun next q => Asks table q next) q from
    bounded _ (slot, value) plain plainValue (Nat.le_refl _)
  intro size
  induction size with
  | zero =>
    intro q plain plainValue small
    refine ⟨q, fun next ⟨before, after, seen, _⟩ => ?_⟩
    have smaller := (further_smaller_monomorphic plain plainValue seen (q := next) (by simp)).2.2
    omega
  | succ size ih =>
    intro q plain plainValue small
    refine ⟨q, fun next ⟨before, after, seen, _⟩ => ?_⟩
    obtain ⟨plain, plainValue, smaller⟩ := further_smaller_monomorphic plain plainValue seen (q := next) (by simp)
    exact ih next plain plainValue (by omega)

/-- Over declarations without type parameters, whatever circles their supertypes go round, acceptance on
monomorphic types always has an answer, and it is reflexive and transitive. -/
theorem acceptance_is_preorder (unparameterized : ∀ d ∈ table, d.params = []) {a b c : Ty}
    (plainA : a.isMonomorphic = true) (plainB : b.isMonomorphic = true) (plainC : c.isMonomorphic = true) :
    Finishes table a b ∧ Accepts table a a ∧ (Accepts table a b → Accepts table b c → Accepts table a c) :=
  ⟨finishes_monomorphic plainA plainB, accepts_refl a plainA, accepts_trans unparameterized plainA plainB plainC⟩

/-- `class Puppy extends Dog`, `class Dog extends Wolf` and `class Wolf extends Dog`. -/
def circleTable : TypeTable :=
  [⟨⟨"Puppy", false⟩, [], [.ref ⟨"Dog", false⟩ []]⟩,
   ⟨⟨"Dog", false⟩, [], [.ref ⟨"Wolf", false⟩ []]⟩,
   ⟨⟨"Wolf", false⟩, [], [.ref ⟨"Dog", false⟩ []]⟩]

/-- Where `(Puppy) -> void` is wanted, `(Dog) -> Wolf?` fits, and for that `(Wolf) -> Puppy`. -/
theorem circleTable_order :
    Finishes circleTable (.function [.ref ⟨"Puppy", false⟩ []] .void)
        (.function [.ref ⟨"Dog", false⟩ []] (.nullable (.ref ⟨"Wolf", false⟩ []))) ∧
      Accepts circleTable (.function [.ref ⟨"Puppy", false⟩ []] .void)
        (.function [.ref ⟨"Wolf", false⟩ []] (.ref ⟨"Puppy", false⟩ [])) := by
  obtain ⟨finishes, -, trans⟩ := acceptance_is_preorder (show ∀ d ∈ circleTable, d.params = [] by decide)
    (a := .function [.ref ⟨"Puppy", false⟩ []] .void)
    (b := .function [.ref ⟨"Dog", false⟩ []] (.nullable (.ref ⟨"Wolf", false⟩ [])))
    (c := .function [.ref ⟨"Wolf", false⟩ []] (.ref ⟨"Puppy", false⟩ [])) rfl rfl rfl
  exact ⟨finishes, trans ⟨3, by decide⟩ ⟨4, by decide⟩⟩

end TypeTable

end ClassScript
