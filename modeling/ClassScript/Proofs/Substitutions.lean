import ClassScript.Types.Basic
import Mathlib.Data.List.Basic
import Mathlib.Data.List.Nodup

/-!
Type variables and what is put in their place. Putting types in for variables twice is the same as putting
them in once, as long as it is so for each variable that occurs (`apply_apply`); nullable types that
collapse on the way are no exception.
-/

namespace ClassScript

namespace Ty

mutual

/-- The variables that occur in a type. -/
def vars : Ty → List TypeVar
  | nullable t => t.vars
  | var v => [v]
  | function params result => varsAll params ++ result.vars
  | ref _ args => varsAll args
  | _ => []

/-- The variables that occur in some types. -/
def varsAll : List Ty → List TypeVar
  | [] => []
  | t :: ts => t.vars ++ varsAll ts

end

@[simp]
theorem orNull_orNull (t : Ty) : t.orNull.orNull = t.orNull := by cases t <;> rfl

theorem applyAll_eq (s : Subst) (ts : List Ty) : applyAll s ts = ts.map (apply s) := by
  induction ts with
  | nil => rfl
  | cons t ts ih => rw [applyAll, ih, List.map_cons]

/-- A type that holds null keeps holding it. -/
theorem apply_orNull (s : Subst) (t : Ty) : t.orNull.apply s = (t.apply s).orNull := by
  cases t with
  | nullable t => exact (orNull_orNull _).symm
  | _ => rfl

mutual

/-- Replacing variables twice is replacing them once, if it is for the variables that occur. -/
theorem apply_apply {s r q : Subst} (t : Ty)
    (each : ∀ v ∈ t.vars, ((var v).apply s).apply r = (var v).apply q) : (t.apply s).apply r = t.apply q := by
  cases t with
  | nullable t =>
    have inner := apply_apply t each
    simp only [apply, apply_orNull, inner]
  | var v => exact each v (List.mem_singleton_self v)
  | function params result =>
    have front := applyAll_applyAll params fun v occurs => each v (List.mem_append_left _ occurs)
    have last := apply_apply result fun v occurs => each v (List.mem_append_right _ occurs)
    simp only [apply, front, last]
  | ref d args =>
    have inside := applyAll_applyAll args each
    simp only [apply, inside]
  | _ => rfl

theorem applyAll_applyAll {s r q : Subst} (ts : List Ty)
    (each : ∀ v ∈ varsAll ts, ((var v).apply s).apply r = (var v).apply q) :
    applyAll r (applyAll s ts) = applyAll q ts := by
  cases ts with
  | nil => rfl
  | cons t ts =>
    have first := apply_apply t fun v occurs => each v (List.mem_append_left _ occurs)
    have rest := applyAll_applyAll ts fun v occurs => each v (List.mem_append_right _ occurs)
    simp only [applyAll, first, rest]

end

end Ty

namespace Subst

variable {params : List TypeVar} {args : List Ty} {v : TypeVar} {t : Ty}

/-- What a parameter stands for is the argument at its place. -/
theorem mem_zip_of_find? (found : (ofLists params args).find? v = some t) : (v, t) ∈ params.zip args := by
  have pairs : ∀ (l : List (TypeVar × Ty)) (s : Subst),
      ∀ p ∈ l.foldl (fun s p => s.bind p.1 p.2) s, p ∈ s ∨ p ∈ l := by
    intro l
    induction l with
    | nil => intro s p member; exact .inl member
    | cons q l ih =>
      intro s p member
      rcases ih (s.bind q.1 q.2) p member with bound | later
      · rcases List.mem_cons.mp bound with same | kept
        · exact .inr (by simp [same])
        · exact .inl (List.mem_of_mem_filter kept)
      · exact .inr (List.mem_cons_of_mem q later)
  unfold find? ofLists at found
  split at found
  · obtain ⟨before, after, split, -⟩ := List.lookup_eq_some_iff.mp found
    have member : (v, t) ∈ (params.zip args).foldl (fun s p => bind s p.1 p.2) [] := by
      rw [split]; simp
    rcases pairs _ _ _ member with initial | zipped
    · simp at initial
    · exact zipped
  · simp at found

theorem find?_ofLists_of_notMem (absent : v ∉ params) : (ofLists params args).find? v = none := by
  rw [Option.eq_none_iff_forall_ne_some]
  intro t found
  exact absent (List.of_mem_zip (mem_zip_of_find? found)).1

/-- A variable stands for what it was bound to last. -/
theorem find?_bind (s : Subst) (w : TypeVar) (u : Ty) (v : TypeVar) :
    (s.bind w u).find? v = if v = w then some u else s.find? v := by
  unfold bind find?
  rw [List.lookup_cons]
  by_cases same : v = w
  · simp [same]
  · have differs : (v == w) = false := by simpa using same
    rw [differs, if_neg same]
    dsimp only
    induction s with
    | nil => rfl
    | cons q s ih =>
      by_cases hidden : q.1 = w
      · rw [List.filter_cons_of_neg (by simp [hidden]), ih, List.lookup_cons, hidden, differs]
      · rw [List.filter_cons_of_pos (by simp [hidden]), List.lookup_cons, List.lookup_cons, ih]

theorem find?_foldl_of_notMem {l : List (TypeVar × Ty)} (s : Subst) (absent : v ∉ l.map Prod.fst) :
    (l.foldl (fun s p => s.bind p.1 p.2) s).find? v = s.find? v := by
  induction l generalizing s with
  | nil => rfl
  | cons q l ih =>
    rw [List.map_cons, List.mem_cons, not_or] at absent
    rw [List.foldl_cons, ih _ absent.2, find?_bind, if_neg absent.1]

theorem isSome_find?_foldl {l : List (TypeVar × Ty)} (s : Subst) (bound : v ∈ l.map Prod.fst) :
    ((l.foldl (fun s p => s.bind p.1 p.2) s).find? v).isSome = true := by
  induction l generalizing s with
  | nil => cases bound
  | cons q l ih =>
    rw [List.foldl_cons]
    by_cases later : v ∈ l.map Prod.fst
    · exact ih _ later
    · have first : v = q.1 := by
        rw [List.map_cons, List.mem_cons] at bound
        exact bound.resolve_right later
      rw [find?_foldl_of_notMem _ later, find?_bind, if_pos first]
      rfl

/-- Every parameter stands for something if there are as many arguments. -/
theorem isSome_find?_ofLists (lengths : params.length = args.length) (member : v ∈ params) :
    ((ofLists params args).find? v).isSome = true := by
  rw [ofLists, if_pos (beq_iff_eq.2 lengths)]
  refine isSome_find?_foldl [] ?_
  rwa [List.map_fst_zip (Nat.le_of_eq lengths)]

theorem find?_ofLists_map (g : Ty → Ty) (params : List TypeVar) (args : List Ty) (v : TypeVar) :
    (ofLists params (args.map g)).find? v = ((ofLists params args).find? v).map g := by
  have mapped : ∀ (l : List (TypeVar × Ty)) (s s' : Subst), (∀ v, s'.find? v = (s.find? v).map g) →
      ((l.map fun p => (p.1, g p.2)).foldl (fun s p => s.bind p.1 p.2) s').find? v =
        ((l.foldl (fun s p => s.bind p.1 p.2) s).find? v).map g := by
    intro l
    induction l with
    | nil => exact fun s s' same => same v
    | cons q l ih =>
      intro s s' same
      refine ih _ _ fun w => ?_
      rw [find?_bind, find?_bind]
      split
      · rfl
      · exact same w
  unfold ofLists
  rw [List.length_map]
  split
  · have zipped : params.zip (args.map g) = (params.zip args).map fun p => (p.1, g p.2) := by
      rw [List.zip_map_right]
      rfl
    rw [zipped]
    exact mapped _ [] [] fun w => rfl
  · rfl

/-- Distinct parameters, as arguments, become what they stand for. -/
theorem applyAll_ofLists_self (distinct : params.Nodup) (lengths : params.length = args.length) :
    Ty.applyAll (ofLists params args) (params.map .var) = args := by
  have found : ∀ (params : List TypeVar) (args : List Ty) (s : Subst), params.Nodup → params.length = args.length →
      params.map (fun v => ((params.zip args).foldl (fun s p => s.bind p.1 p.2) s).find? v) = args.map some := by
    intro params
    induction params with
    | nil => intro args s _ lengths; rw [List.length_eq_zero_iff.1 lengths.symm]; rfl
    | cons w params ih =>
      intro args s distinct lengths
      cases args with
      | nil => cases lengths
      | cons u args =>
        have lengths : params.length = args.length := by simpa using lengths
        rw [List.nodup_cons] at distinct
        rw [List.map_cons, List.map_cons, List.zip_cons_cons, List.foldl_cons, ih args _ distinct.2 lengths,
          find?_foldl_of_notMem _ (by rw [List.map_fst_zip (Nat.le_of_eq lengths)]; exact distinct.1), find?_bind, if_pos rfl]
  have each := found params args [] distinct lengths
  rw [Ty.applyAll_eq, List.map_map, ofLists, if_pos (beq_iff_eq.2 lengths)]
  refine List.ext_getElem (by simpa using lengths) fun i inside inside' => ?_
  have here := congrArg (·[i]?) each
  simp only [List.getElem?_map, List.getElem?_eq_getElem inside', Option.map_some] at here
  have bound : i < params.length := by simpa using inside
  rw [List.getElem?_eq_getElem bound, Option.map_some, Option.some.injEq] at here
  rw [List.getElem_map]
  simp [Ty.apply, here]

end Subst

end ClassScript
