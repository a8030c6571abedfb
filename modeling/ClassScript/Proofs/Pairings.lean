import Mathlib.Data.List.Forall2
import Mathlib.Order.Defs.PartialOrder
import ClassScript.Proofs.Acceptance

/-!
Types that are the same up to the numbers of their variables. Two runs of typing hand out different numbers;
which of them stand for each other is a pairing, one to one, which only grows (`Pairing.grow`). Replacing
variables, looking at supertypes and asking what a slot accepts does not tell types apart that are alike
(`apply_alike`, `viewAs_alike`, `accepts?_alike`).
-/

namespace ClassScript

/-- Numbers of type variables of two runs that stand for each other, one to one. Those handed out so far are
below `left` and `right`. -/
@[ext] structure Pairing where
  rel : Nat → Nat → Prop
  left : Nat
  right : Nat
  bound {a b : Nat} : rel a b → a < left ∧ b < right
  unique {a b a' b' : Nat} : rel a b → rel a' b' → (a = a' ↔ b = b')

namespace Pairing

/-- What stands for each other does so later. -/
instance : Preorder Pairing where
  le W W' := ∀ a b, W.rel a b → W'.rel a b
  le_refl _ _ _ paired := paired
  le_trans _ _ _ first second a b paired := second a b (first a b paired)

/-- The pairing after as many more variables have been handed out in both runs, one for one. -/
def grow (W : Pairing) (n : Nat) : Pairing where
  rel a b := W.rel a b ∨ ∃ i < n, a = W.left + i ∧ b = W.right + i
  left := W.left + n
  right := W.right + n
  bound := by
    rintro a b (paired | ⟨i, small, rfl, rfl⟩)
    · have := W.bound paired
      omega
    · omega
  unique := by
    rintro a b a' b' (paired | ⟨i, small, rfl, rfl⟩) (paired' | ⟨i', small', rfl, rfl⟩)
    · exact W.unique paired paired'
    · have := W.bound paired
      omega
    · have := W.bound paired'
      omega
    · omega

theorem le_grow (W : Pairing) (n : Nat) : W ≤ W.grow n := fun _ _ paired => .inl paired

@[simp] theorem grow_left (W : Pairing) (n : Nat) : (W.grow n).left = W.left + n := rfl

@[simp] theorem grow_right (W : Pairing) (n : Nat) : (W.grow n).right = W.right + n := rfl

@[simp] theorem grow_zero (W : Pairing) : W.grow 0 = W := by
  ext a b
  · simp [grow]
  · rfl
  · rfl

theorem grow_grow (W : Pairing) (m n : Nat) : (W.grow m).grow n = W.grow (m + n) := by
  ext a b
  · constructor
    · rintro ((paired | ⟨i, small, rfl, rfl⟩) | ⟨i, small, rfl, rfl⟩)
      · exact .inl paired
      · exact .inr ⟨i, by omega, rfl, rfl⟩
      · exact .inr ⟨m + i, by omega, by simp [Nat.add_assoc], by simp [Nat.add_assoc]⟩
    · rintro (paired | ⟨i, small, rfl, rfl⟩)
      · exact .inl (.inl paired)
      · by_cases early : i < m
        · exact .inl (.inr ⟨i, early, rfl, rfl⟩)
        · exact .inr ⟨i - m, by omega, by simp only [grow_left]; omega, by simp only [grow_right]; omega⟩
  · simp [Nat.add_assoc]
  · simp [Nat.add_assoc]

/-- The second run beside itself. -/
def ofRight (W : Pairing) : Pairing where
  rel a b := a = b ∧ a < W.right
  left := W.right
  right := W.right
  bound := by
    rintro a b ⟨rfl, small⟩
    exact ⟨small, small⟩
  unique := by
    rintro a b a' b' ⟨rfl, -⟩ ⟨rfl, -⟩
    rfl

/-- The first run beside a third, by way of the second. -/
def comp (W W' : Pairing) : Pairing where
  rel a c := ∃ b, W.rel a b ∧ W'.rel b c
  left := W.left
  right := W'.right
  bound := by
    rintro a c ⟨b, first, second⟩
    exact ⟨(W.bound first).1, (W'.bound second).2⟩
  unique := by
    rintro a c a' c' ⟨b, first, second⟩ ⟨b', first', second'⟩
    rw [W.unique first first', W'.unique second second']

/-- The pairing after each run has handed out variables that stand for none of the other. -/
def skip (W : Pairing) (m n : Nat) : Pairing where
  rel := W.rel
  left := W.left + m
  right := W.right + n
  bound paired := by
    have := W.bound paired
    omega
  unique := W.unique

theorem le_skip (W : Pairing) (m n : Nat) : W ≤ W.skip m n := fun _ _ paired => paired

/-- The pairing after the first run has handed out `m` variables and then `n`, and the second run those `n` and
then those `m`. -/
def cross (W : Pairing) (m n : Nat) : Pairing where
  rel a b := W.rel a b ∨ (∃ i < m, a = W.left + i ∧ b = W.right + n + i) ∨
    ∃ i < n, a = W.left + m + i ∧ b = W.right + i
  left := W.left + m + n
  right := W.right + n + m
  bound := by
    rintro a b (paired | ⟨i, small, rfl, rfl⟩ | ⟨i, small, rfl, rfl⟩)
    · have := W.bound paired
      omega
    · omega
    · omega
  unique := by
    rintro a b a' b' (paired | ⟨i, small, rfl, rfl⟩ | ⟨i, small, rfl, rfl⟩)
      (paired' | ⟨i', small', rfl, rfl⟩ | ⟨i', small', rfl, rfl⟩)
    · exact W.unique paired paired'
    · have := W.bound paired
      omega
    · have := W.bound paired
      omega
    · have := W.bound paired'
      omega
    · omega
    · omega
    · have := W.bound paired'
      omega
    · omega
    · omega

theorem le_cross (W : Pairing) (m n : Nat) : W ≤ W.cross m n := fun _ _ paired => .inl paired

theorem skip_grow_le_cross (W : Pairing) (m n : Nat) : (W.skip 0 n).grow m ≤ W.cross m n := by
  rintro a b (paired | ⟨i, small, rfl, rfl⟩)
  · exact .inl paired
  · exact .inr (.inl ⟨i, small, rfl, rfl⟩)

theorem skip_grow_le_cross' (W : Pairing) (m n : Nat) : (W.skip m 0).grow n ≤ W.cross m n := by
  rintro a b (paired | ⟨i, small, rfl, rfl⟩)
  · exact .inl paired
  · exact .inr (.inr ⟨i, small, rfl, rfl⟩)

end Pairing

variable {W W' : Pairing}

/-- Type variables that stand for each other. -/
def Paired (W : Pairing) (v v' : TypeVar) : Prop := v.name = v'.name ∧ W.rel v.id v'.id

theorem Paired.mono {v v' : TypeVar} (paired : Paired W v v') (le : W ≤ W') : Paired W' v v' :=
  ⟨paired.1, le _ _ paired.2⟩

theorem Paired.ofRight {v v' : TypeVar} (paired : Paired W v v') : Paired W.ofRight v' v' :=
  ⟨rfl, rfl, (W.bound paired.2).2⟩

theorem Paired.trans {u v w : TypeVar} (first : Paired W u v) (second : Paired W' v w) : Paired (W.comp W') u w :=
  ⟨first.1.trans second.1, v.id, first.2, second.2⟩

theorem Paired.eq_iff {u u' v v' : TypeVar} (first : Paired W u u') (second : Paired W v v') : u = v ↔ u' = v' := by
  obtain ⟨uName, uId⟩ := u
  obtain ⟨uName', uId'⟩ := u'
  obtain ⟨vName, vId⟩ := v
  obtain ⟨vName', vId'⟩ := v'
  obtain ⟨rfl, ids⟩ := first
  obtain ⟨rfl, ids'⟩ := second
  simp [W.unique ids ids']

/-! ## Types -/

mutual

/-- Types that are the same up to paired variables. -/
def Ty.Alike (W : Pairing) : Ty → Ty → Prop
  | .number, u => u = .number
  | .string, u => u = .string
  | .boolean, u => u = .boolean
  | .mixed, u => u = .mixed
  | .void, u => u = .void
  | .null, u => u = .null
  | .nullable t, u => ∃ t', u = .nullable t' ∧ t.Alike W t'
  | .var v, u => ∃ v', u = .var v' ∧ Paired W v v'
  | .function params result, u =>
    ∃ params' result', u = .function params' result' ∧ Ty.AlikeAll W params params' ∧ result.Alike W result'
  | .ref d args, u => ∃ args', u = .ref d args' ∧ Ty.AlikeAll W args args'
  | .static d, u => u = .static d

/-- Lists of types that are the same up to paired variables. -/
def Ty.AlikeAll (W : Pairing) : List Ty → List Ty → Prop
  | [], us => us = []
  | t :: ts, us => ∃ t' ts', us = t' :: ts' ∧ t.Alike W t' ∧ Ty.AlikeAll W ts ts'

end

theorem alikeAll_iff {ts us : List Ty} : Ty.AlikeAll W ts us ↔ List.Forall₂ (Ty.Alike W) ts us := by
  induction ts generalizing us with
  | nil => simp [Ty.AlikeAll]
  | cons t ts ih =>
    constructor
    · rintro ⟨t', ts', rfl, first, rest⟩
      exact .cons first (ih.1 rest)
    · rintro (_ | ⟨first, rest⟩)
      exact ⟨_, _, rfl, first, ih.2 rest⟩

mutual

theorem Ty.Alike.mono {t u : Ty} (alike : t.Alike W u) (le : W ≤ W') : t.Alike W' u := by
  cases t with
  | nullable t =>
    obtain ⟨t', rfl, inner⟩ := alike
    exact ⟨t', rfl, inner.mono le⟩
  | var v =>
    obtain ⟨v', rfl, paired⟩ := alike
    exact ⟨v', rfl, paired.mono le⟩
  | function params result =>
    obtain ⟨params', result', rfl, all, inner⟩ := alike
    exact ⟨params', result', rfl, Ty.AlikeAll.mono all le, inner.mono le⟩
  | ref d args =>
    obtain ⟨args', rfl, all⟩ := alike
    exact ⟨args', rfl, Ty.AlikeAll.mono all le⟩
  | _ => exact alike

theorem Ty.AlikeAll.mono {ts us : List Ty} (alike : Ty.AlikeAll W ts us) (le : W ≤ W') : Ty.AlikeAll W' ts us := by
  cases ts with
  | nil => exact alike
  | cons t ts =>
    obtain ⟨t', ts', rfl, first, rest⟩ := alike
    exact ⟨t', ts', rfl, first.mono le, Ty.AlikeAll.mono rest le⟩

end

mutual

theorem Ty.Alike.ofRight {t u : Ty} (alike : t.Alike W u) : u.Alike W.ofRight u := by
  cases t with
  | nullable t =>
    obtain ⟨t', rfl, inner⟩ := alike
    exact ⟨t', rfl, inner.ofRight⟩
  | var v =>
    obtain ⟨v', rfl, paired⟩ := alike
    exact ⟨v', rfl, paired.ofRight⟩
  | function params result =>
    obtain ⟨params', result', rfl, all, inner⟩ := alike
    exact ⟨params', result', rfl, Ty.AlikeAll.ofRight all, inner.ofRight⟩
  | ref d args =>
    obtain ⟨args', rfl, all⟩ := alike
    exact ⟨args', rfl, Ty.AlikeAll.ofRight all⟩
  | _ =>
    cases alike
    rfl

theorem Ty.AlikeAll.ofRight {ts us : List Ty} (alike : Ty.AlikeAll W ts us) : Ty.AlikeAll W.ofRight us us := by
  cases ts with
  | nil =>
    cases alike
    rfl
  | cons t ts =>
    obtain ⟨t', ts', rfl, first, rest⟩ := alike
    exact ⟨t', ts', rfl, first.ofRight, Ty.AlikeAll.ofRight rest⟩

end

mutual

theorem Ty.Alike.trans {t u v : Ty} (alike : t.Alike W u) (alike' : u.Alike W' v) : t.Alike (W.comp W') v := by
  cases t with
  | nullable t =>
    obtain ⟨_, rfl, inner⟩ := alike
    obtain ⟨_, rfl, inner'⟩ := alike'
    exact ⟨_, rfl, inner.trans inner'⟩
  | var v =>
    obtain ⟨_, rfl, paired⟩ := alike
    obtain ⟨_, rfl, paired'⟩ := alike'
    exact ⟨_, rfl, paired.trans paired'⟩
  | function params result =>
    obtain ⟨_, _, rfl, all, inner⟩ := alike
    obtain ⟨_, _, rfl, all', inner'⟩ := alike'
    exact ⟨_, _, rfl, Ty.AlikeAll.trans all all', inner.trans inner'⟩
  | ref d args =>
    obtain ⟨_, rfl, all⟩ := alike
    obtain ⟨_, rfl, all'⟩ := alike'
    exact ⟨_, rfl, Ty.AlikeAll.trans all all'⟩
  | _ =>
    cases alike
    exact alike'

theorem Ty.AlikeAll.trans {ts us vs : List Ty} (alike : Ty.AlikeAll W ts us) (alike' : Ty.AlikeAll W' us vs) :
    Ty.AlikeAll (W.comp W') ts vs := by
  cases ts with
  | nil =>
    cases alike
    exact alike'
  | cons t ts =>
    obtain ⟨_, _, rfl, first, rest⟩ := alike
    obtain ⟨_, _, rfl, first', rest'⟩ := alike'
    exact ⟨_, _, rfl, first.trans first', Ty.AlikeAll.trans rest rest'⟩

end

namespace Ty.Alike

variable {t u : Ty}

theorem orNull (alike : t.Alike W u) : t.orNull.Alike W u.orNull := by
  cases t with
  | nullable t =>
    obtain ⟨t', rfl, inner⟩ := alike
    exact ⟨t', rfl, inner⟩
  | var v =>
    obtain ⟨v', rfl, paired⟩ := alike
    exact ⟨_, rfl, _, rfl, paired⟩
  | function params result =>
    obtain ⟨params', result', rfl, all, inner⟩ := alike
    exact ⟨_, rfl, _, _, rfl, all, inner⟩
  | ref d args =>
    obtain ⟨args', rfl, all⟩ := alike
    exact ⟨_, rfl, _, rfl, all⟩
  | mixed => cases alike; rfl
  | null => cases alike; rfl
  | _ =>
    cases alike
    exact ⟨_, rfl, rfl⟩

theorem base (alike : t.Alike W u) : t.base.Alike W u.base := by
  cases t with
  | nullable t =>
    obtain ⟨t', rfl, inner⟩ := alike
    exact inner
  | var v =>
    obtain ⟨v', rfl, paired⟩ := alike
    exact ⟨_, rfl, paired⟩
  | function params result =>
    obtain ⟨params', result', rfl, all, inner⟩ := alike
    exact ⟨_, _, rfl, all, inner⟩
  | ref d args =>
    obtain ⟨args', rfl, all⟩ := alike
    exact ⟨_, rfl, all⟩
  | _ =>
    cases alike
    rfl

/-- What depends on the outermost constructor only is the same of types that are alike. -/
theorem byShape {α : Type} (f : Ty → α) (alike : t.Alike W u)
    (nullable : ∀ t t', f (.nullable t) = f (.nullable t')) (var : ∀ v v', f (.var v) = f (.var v'))
    (function : ∀ ps r ps' r', f (.function ps r) = f (.function ps' r'))
    (ref : ∀ d as as', f (.ref d as) = f (.ref d as')) : f u = f t := by
  cases t with
  | nullable t => obtain ⟨t', rfl, -⟩ := alike; exact nullable _ _
  | var v => obtain ⟨v', rfl, -⟩ := alike; exact var _ _
  | function params result => obtain ⟨params', result', rfl, -⟩ := alike; exact function _ _ _ _
  | ref d args => obtain ⟨args', rfl, -⟩ := alike; exact ref _ _ _
  | _ => cases alike; rfl

theorem isVoid (alike : t.Alike W u) : u.isVoid = t.isVoid :=
  alike.byShape Ty.isVoid (fun _ _ => rfl) (fun _ _ => rfl) (fun _ _ _ _ => rfl) fun _ _ _ => rfl

theorem isNull (alike : t.Alike W u) : u.isNull = t.isNull :=
  alike.byShape Ty.isNull (fun _ _ => rfl) (fun _ _ => rfl) (fun _ _ _ _ => rfl) fun _ _ _ => rfl

theorem eq_string (alike : t.Alike W .string) : t = .string := by
  cases t with
  | string => rfl
  | nullable t => obtain ⟨_, same, -⟩ := alike; cases same
  | var v => obtain ⟨_, same, -⟩ := alike; cases same
  | function params result => obtain ⟨_, _, same, -⟩ := alike; cases same
  | ref d args => obtain ⟨_, same, -⟩ := alike; cases same
  | _ => cases alike

end Ty.Alike

/-! ## Replacing variables -/

theorem forall₂_zip {α β γ δ : Type} {R : α → β → Prop} {S : γ → δ → Prop} {as : List α} {bs : List β} {cs : List γ}
    {ds : List δ} (first : List.Forall₂ R as bs) (second : List.Forall₂ S cs ds) :
    List.Forall₂ (fun p q => R p.1 q.1 ∧ S p.2 q.2) (as.zip cs) (bs.zip ds) := by
  induction first generalizing cs ds with
  | nil => exact .nil
  | cons head _ ih =>
    cases second with
    | nil => exact .nil
    | cons head' rest => exact .cons ⟨head, head'⟩ (ih rest)

/-- Substitutions that replace paired variables by types that are alike. -/
def Subst.Alike (W : Pairing) (s s' : Subst) : Prop :=
  List.Forall₂ (fun p p' => Paired W p.1 p'.1 ∧ p.2.Alike W p'.2) s s'

namespace Subst.Alike

variable {s s' : Subst}

theorem mono (alike : s.Alike W s') (le : W ≤ W') : s.Alike W' s' :=
  List.Forall₂.imp (fun _ _ both => ⟨both.1.mono le, both.2.mono le⟩) alike

theorem bind {v v' : TypeVar} {t t' : Ty} (alike : s.Alike W s') (paired : Paired W v v') (types : t.Alike W t') :
    (s.bind v t).Alike W (s'.bind v' t') := by
  refine .cons ⟨paired, types⟩ ?_
  refine List.rel_filter ?_ alike
  intro p p' both
  simp [both.1.eq_iff paired]

theorem find? {v v' : TypeVar} (alike : s.Alike W s') (paired : Paired W v v') :
    Option.Rel (Ty.Alike W) (s.find? v) (s'.find? v') := by
  induction alike with
  | nil => exact .none
  | @cons p p' _ _ first _ ih =>
    obtain ⟨u, t⟩ := p
    obtain ⟨u', t'⟩ := p'
    have same := paired.eq_iff first.1
    by_cases here : v = u
    · have here' := same.1 here
      simp only [Subst.find?, List.lookup_cons, here, here', beq_self_eq_true]
      exact .some first.2
    · have here' : v' ≠ u' := fun equal => here (same.2 equal)
      have differs : (v == u) = false := by simpa using here
      have differs' : (v' == u') = false := by simpa using here'
      simp only [Subst.find?, List.lookup_cons, differs, differs']
      exact ih

theorem ofLists {params params' : List TypeVar} {args args' : List Ty} (paired : List.Forall₂ (Paired W) params params')
    (types : List.Forall₂ (Ty.Alike W) args args') :
    (Subst.ofLists params args).Alike W (Subst.ofLists params' args') := by
  unfold Subst.ofLists
  rw [paired.length_eq, types.length_eq]
  split
  · refine List.rel_foldl ?_ .nil (forall₂_zip paired types)
    exact fun s s' alike p p' both => alike.bind both.1 both.2
  · exact .nil

end Subst.Alike

mutual

/-- Replacing variables alike in types that are alike. -/
theorem apply_alike {s s' : Subst} (subst : s.Alike W s') {t u : Ty} (alike : t.Alike W u) :
    (t.apply s).Alike W (u.apply s') := by
  cases t with
  | nullable t =>
    obtain ⟨t', rfl, inner⟩ := alike
    simp only [Ty.apply]
    exact (apply_alike subst inner).orNull
  | var v =>
    obtain ⟨v', rfl, paired⟩ := alike
    simp only [Ty.apply]
    have found := subst.find? paired
    generalize s.find? v = r at found ⊢
    generalize s'.find? v' = r' at found ⊢
    cases found with
    | none => exact ⟨v', rfl, paired⟩
    | some types => exact types
  | function params result =>
    obtain ⟨params', result', rfl, all, inner⟩ := alike
    simp only [Ty.apply]
    exact ⟨_, _, rfl, applyAll_alike subst all, apply_alike subst inner⟩
  | ref d args =>
    obtain ⟨args', rfl, all⟩ := alike
    simp only [Ty.apply]
    exact ⟨_, rfl, applyAll_alike subst all⟩
  | _ =>
    cases alike
    simp only [Ty.apply, Ty.Alike]

theorem applyAll_alike {s s' : Subst} (subst : s.Alike W s') {ts us : List Ty} (alike : Ty.AlikeAll W ts us) :
    Ty.AlikeAll W (Ty.applyAll s ts) (Ty.applyAll s' us) := by
  cases ts with
  | nil =>
    cases alike
    simp only [Ty.applyAll, Ty.AlikeAll]
  | cons t ts =>
    obtain ⟨t', ts', rfl, first, rest⟩ := alike
    simp only [Ty.applyAll]
    exact ⟨_, _, rfl, apply_alike subst first, applyAll_alike subst rest⟩

end

/-! ## Supertypes -/

/-- Declarations with supertypes that are alike. -/
structure TypeDecl.Alike (W : Pairing) (d d' : TypeDecl) : Prop where
  params : List.Forall₂ (Paired W) d.params d'.params
  supers : List.Forall₂ (Ty.Alike W) d.supers d'.supers

/-- Tables of as many declarations, of which those of the same name are alike. -/
structure TypeTable.Alike (W : Pairing) (table table' : TypeTable) : Prop where
  length : table.length = table'.length
  find (n : Nominal) : Option.Rel (TypeDecl.Alike W) (table.find? n) (table'.find? n)

namespace TypeTable

variable {table table' : TypeTable}

/-- Trails with the same declarations seen and views that are alike. -/
def TrailAlike (W : Pairing) (t t' : Trail) : Prop :=
  t.1 = t'.1 ∧ Option.Rel (Ty.AlikeAll W) t.2 t'.2

/-- One supertype more is followed alike. -/
theorem follow_alike {next next' : List Nominal → Nominal → List Ty → Trail} {s s' : Subst}
    (onward : ∀ seen n args args', Ty.AlikeAll W args args' → TrailAlike W (next seen n args) (next' seen n args'))
    (subst : s.Alike W s') {trail trail' : Trail} (trails : TrailAlike W trail trail') {super super' : Ty}
    (supers : super.Alike W super') : TrailAlike W (follow next s trail super) (follow next' s' trail' super') := by
  obtain ⟨seen, found⟩ := trail
  obtain ⟨seen', found'⟩ := trail'
  obtain ⟨rfl, views⟩ := trails
  cases views with
  | some view => exact ⟨rfl, .some view⟩
  | none =>
    have applied := apply_alike subst supers
    simp only [follow]
    generalize super.apply s = t at applied ⊢
    generalize super'.apply s' = u at applied ⊢
    cases t with
    | ref n args =>
      obtain ⟨args', rfl, all⟩ := applied
      exact onward seen n args args' all
    | nullable t => obtain ⟨t', rfl, -⟩ := applied; exact ⟨rfl, .none⟩
    | var v => obtain ⟨v', rfl, -⟩ := applied; exact ⟨rfl, .none⟩
    | function params result => obtain ⟨params', result', rfl, -⟩ := applied; exact ⟨rfl, .none⟩
    | _ => cases applied; exact ⟨rfl, .none⟩

theorem search_alike (tables : table.Alike W table') (target : Nominal) (fuel : Nat) (visited : List Nominal)
    (decl : Nominal) {args args' : List Ty} (types : Ty.AlikeAll W args args') :
    TrailAlike W (search table target fuel visited decl args) (search table' target fuel visited decl args') := by
  induction fuel generalizing visited decl args args' with
  | zero => exact ⟨rfl, .none⟩
  | succ fuel ih =>
    rw [search_succ, search_succ]
    split
    · exact ⟨rfl, .some types⟩
    · split
      · exact ⟨rfl, .none⟩
      · have found := tables.find decl
        generalize table.find? decl = r at found ⊢
        generalize table'.find? decl = r' at found ⊢
        cases found with
        | none => exact ⟨rfl, .none⟩
        | some decls =>
          have subst := Subst.Alike.ofLists decls.params (alikeAll_iff.1 types)
          refine List.rel_foldl ?_ ⟨rfl, .none⟩ decls.supers
          exact fun _ _ trails _ _ supers => follow_alike (fun seen n _ _ all => ih seen n all) subst trails supers

theorem viewAs_alike (tables : table.Alike W table') (decl target : Nominal) {args args' : List Ty}
    (types : Ty.AlikeAll W args args') :
    Option.Rel (Ty.AlikeAll W) (viewAs table decl args target) (viewAs table' decl args' target) := by
  unfold viewAs
  rw [tables.length]
  exact (search_alike tables target _ [] decl types).2

/-! ## Acceptance -/

/-- Pairs of types that are alike. -/
def PairAlike (W : Pairing) (q q' : Ty × Ty) : Prop := q.1.Alike W q'.1 ∧ q.2.Alike W q'.2

/-- Verdicts with the same answer, or with questions that are alike. -/
inductive VerdictAlike (W : Pairing) : Verdict → Verdict → Prop
  | settled (answer : Bool) : VerdictAlike W (.settled answer) (.settled answer)
  | further {questions questions' : List (Ty × Ty)} :
    List.Forall₂ (PairAlike W) questions questions' → VerdictAlike W (.further questions) (.further questions')

/-- A verdict on a slot that is settled by the outermost constructor of the value. -/
private theorem verdict_byShape {f : Ty → Verdict} {value value' : Ty} (values : value.Alike W value')
    (settles : ∀ t, ∃ answer, f t = .settled answer) (nullable : ∀ t t', f (.nullable t) = f (.nullable t'))
    (var : ∀ v v', f (.var v) = f (.var v')) (function : ∀ ps r ps' r', f (.function ps r) = f (.function ps' r'))
    (ref : ∀ d as as', f (.ref d as) = f (.ref d as')) : VerdictAlike W (f value) (f value') := by
  obtain ⟨answer, settled⟩ := settles value
  rw [values.byShape f nullable var function ref, settled]
  exact .settled answer

theorem consider_alike (tables : table.Alike W table') {slot slot' value value' : Ty} (slots : slot.Alike W slot')
    (values : value.Alike W value') : VerdictAlike W (consider table slot value) (consider table' slot' value') := by
  cases slot with
  | mixed => cases slots; exact .settled true
  | var v => obtain ⟨v', rfl, -⟩ := slots; exact .settled true
  | nullable inner =>
    obtain ⟨inner', rfl, inners⟩ := slots
    cases value with
    | null => cases values; exact .settled true
    | nullable v =>
      obtain ⟨v', rfl, values⟩ := values
      exact .further (.cons ⟨inners, values⟩ .nil)
    | var v =>
      obtain ⟨v', rfl, paired⟩ := values
      exact .further (.cons ⟨inners, v', rfl, paired⟩ .nil)
    | function params result =>
      obtain ⟨params', result', rfl, both⟩ := values
      exact .further (.cons ⟨inners, params', result', rfl, both⟩ .nil)
    | ref d args =>
      obtain ⟨args', rfl, all⟩ := values
      exact .further (.cons ⟨inners, args', rfl, all⟩ .nil)
    | _ => cases values; exact .further (.cons ⟨inners, rfl⟩ .nil)
  | function params result =>
    obtain ⟨params', result', rfl, all, results⟩ := slots
    cases value with
    | function params₁ result₁ =>
      obtain ⟨params₁', result₁', rfl, all₁, results₁⟩ := values
      simp only [consider, (alikeAll_iff.1 all).length_eq, (alikeAll_iff.1 all₁).length_eq, results.isVoid]
      split
      · exact .settled false
      · refine .further (List.rel_append ?_ ?_)
        · refine List.rel_map ?_ (forall₂_zip (alikeAll_iff.1 all) (alikeAll_iff.1 all₁))
          exact fun p q both => ⟨both.2, both.1⟩
        · split
          · exact .nil
          · exact .cons ⟨results, results₁⟩ .nil
    | nullable v => obtain ⟨v', rfl, -⟩ := values; exact .settled false
    | var v => obtain ⟨v', rfl, -⟩ := values; exact .settled true
    | ref d args => obtain ⟨args', rfl, -⟩ := values; exact .settled false
    | _ => cases values; exact .settled false
  | ref d args =>
    obtain ⟨args', rfl, all⟩ := slots
    cases value with
    | ref d₁ args₁ =>
      obtain ⟨args₁', rfl, all₁⟩ := values
      have views := viewAs_alike tables d₁ d all₁
      simp only [consider]
      generalize viewAs table d₁ args₁ d = r at views ⊢
      generalize viewAs table' d₁ args₁' d = r' at views ⊢
      cases views with
      | none => exact .settled false
      | @some view view' views =>
        have types := alikeAll_iff.1 all
        have viewed := alikeAll_iff.1 views
        have empty : args'.isEmpty = args.isEmpty ∧ view'.isEmpty = view.isEmpty := by
          cases types <;> cases viewed <;> exact ⟨rfl, rfl⟩
        simp only [types.length_eq, viewed.length_eq, empty]
        split
        · exact .settled true
        · split
          · exact .settled false
          · exact .further (forall₂_zip types viewed)
    | nullable v => obtain ⟨v', rfl, -⟩ := values; exact .settled false
    | var v => obtain ⟨v', rfl, -⟩ := values; exact .settled true
    | function params result => obtain ⟨params', result', rfl, -⟩ := values; exact .settled false
    | _ => cases values; exact .settled false
  | _ =>
    cases slots
    refine verdict_byShape values (fun t => ?_) (fun _ _ => rfl) (fun _ _ => rfl) (fun _ _ _ _ => rfl) fun _ _ _ => rfl
    cases t <;> exact ⟨_, rfl⟩

/-- Slots that are alike accept values that are alike. -/
theorem accepts?_alike (tables : table.Alike W table') (fuel : Nat) {slot slot' value value' : Ty}
    (slots : slot.Alike W slot') (values : value.Alike W value') :
    accepts? table' fuel slot' value' = accepts? table fuel slot value := by
  induction fuel generalizing slot slot' value value' with
  | zero => rfl
  | succ fuel ih =>
    have verdicts := consider_alike tables slots values
    rw [accepts?_succ, accepts?_succ]
    generalize consider table slot value = v at verdicts ⊢
    generalize consider table' slot' value' = v' at verdicts ⊢
    cases verdicts with
    | settled answer => rfl
    | further questions =>
      dsimp only
      induction questions with
      | nil => rfl
      | cons first _ next =>
        simp only [List.allM]
        rw [ih first.1 first.2, next]

end TypeTable

end ClassScript
