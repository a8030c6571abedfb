import ClassScript.Proofs.Substitutions

/-!
Normal types, in which null is added only to types that do not hold it. Replacing variables by normal types and
widening them keep a type normal, and a normal type without variables is left as it is. Replacing twice is replacing
once by the composition (`Subst.andThen`). All of it is put together in `Ty.substitution_laws`.
-/

namespace ClassScript

namespace Ty

/-! ## Normal types -/

/-- Whether null is a value of a type already: it is nullable, or holds every value, or only null. -/
def holdsNull : Ty → Bool
  | nullable _ | mixed | null => true
  | _ => false

mutual

/-- Whether null is added only to types that do not hold it. -/
def isNormal : Ty → Bool
  | nullable t => !t.holdsNull && t.isNormal
  | function params result => allNormal params && result.isNormal
  | ref _ args => allNormal args
  | _ => true

/-- Whether all of the types are normal. -/
def allNormal : List Ty → Bool
  | [] => true
  | t :: ts => t.isNormal && allNormal ts

end

theorem orNull_of_holdsNull {t : Ty} (holds : t.holdsNull = true) : t.orNull = t := by
  cases t <;> first | rfl | cases holds

theorem orNull_of_bare {t : Ty} (bare : t.holdsNull = false) : t.orNull = nullable t := by
  cases t <;> first | rfl | cases bare

theorem isNormal_orNull {t : Ty} (normal : t.isNormal = true) : t.orNull.isNormal = true := by
  cases holds : t.holdsNull with
  | true => rwa [orNull_of_holdsNull holds]
  | false => rw [orNull_of_bare holds, isNormal, holds, normal]; rfl

/-! ## Replacing and widening -/

mutual

/-- A type stays normal when its variables are replaced by normal types. -/
theorem isNormal_apply {s : Subst} (range : ∀ v u, s.find? v = some u → u.isNormal = true) (t : Ty)
    (normal : t.isNormal = true) : (t.apply s).isNormal = true := by
  cases t with
  | nullable t =>
    rw [isNormal, Bool.and_eq_true] at normal
    rw [apply]
    exact isNormal_orNull (isNormal_apply range t normal.2)
  | var v =>
    rw [apply]
    cases found : s.find? v with
    | none => rfl
    | some u => exact range v u found
  | function params result =>
    rw [isNormal, Bool.and_eq_true] at normal
    rw [apply, isNormal, allNormal_applyAll range params normal.1, isNormal_apply range result normal.2]
    rfl
  | ref d args =>
    rw [isNormal] at normal
    rw [apply, isNormal]
    exact allNormal_applyAll range args normal
  | _ => exact normal

theorem allNormal_applyAll {s : Subst} (range : ∀ v u, s.find? v = some u → u.isNormal = true) (ts : List Ty)
    (normal : allNormal ts = true) : allNormal (applyAll s ts) = true := by
  cases ts with
  | nil => rfl
  | cons t ts =>
    rw [allNormal, Bool.and_eq_true] at normal
    rw [applyAll, allNormal, isNormal_apply range t normal.1, allNormal_applyAll range ts normal.2]
    rfl

end

mutual

/-- A type stays normal when its variables are widened. -/
theorem isNormal_erase (t : Ty) (normal : t.isNormal = true) : t.erase.isNormal = true := by
  cases t with
  | nullable t =>
    rw [isNormal, Bool.and_eq_true] at normal
    rw [erase]
    exact isNormal_orNull (isNormal_erase t normal.2)
  | function params result =>
    rw [isNormal, Bool.and_eq_true] at normal
    rw [erase, isNormal, allNormal_eraseAll params normal.1, isNormal_erase result normal.2]
    rfl
  | ref d args =>
    rw [isNormal] at normal
    rw [erase, isNormal]
    exact allNormal_eraseAll args normal
  | var v => rfl
  | _ => exact normal

theorem allNormal_eraseAll (ts : List Ty) (normal : allNormal ts = true) : allNormal (eraseAll ts) = true := by
  cases ts with
  | nil => rfl
  | cons t ts =>
    rw [allNormal, Bool.and_eq_true] at normal
    rw [eraseAll, allNormal, isNormal_erase t normal.1, allNormal_eraseAll ts normal.2]
    rfl

end

/-! ## Types without variables -/

theorem hasVar_orNull (t : Ty) : t.orNull.hasVar = t.hasVar := by cases t <;> rfl

mutual

/-- No variable is left when all are widened. -/
theorem hasVar_erase (t : Ty) : t.erase.hasVar = false := by
  cases t with
  | nullable t => rw [erase, hasVar_orNull, hasVar_erase t]
  | function params result => rw [erase, hasVar, anyVar_eraseAll params, hasVar_erase result]; rfl
  | ref d args => rw [erase, hasVar, anyVar_eraseAll args]
  | _ => rfl

theorem anyVar_eraseAll (ts : List Ty) : anyVar (eraseAll ts) = false := by
  cases ts with
  | nil => rfl
  | cons t ts => rw [eraseAll, anyVar, hasVar_erase t, anyVar_eraseAll ts]; rfl

end

mutual

/-- A normal type without variables stays what it is. -/
theorem unchanged_of_closed (s : Subst) (t : Ty) (normal : t.isNormal = true) (closed : t.hasVar = false) :
    t.apply s = t ∧ t.erase = t := by
  cases t with
  | nullable t =>
    rw [isNormal, Bool.and_eq_true, Bool.not_eq_true'] at normal
    rw [hasVar] at closed
    obtain ⟨applied, erased⟩ := unchanged_of_closed s t normal.2 closed
    rw [apply, erase, applied, erased]
    -- null is added again to a type that does not hold it
    exact ⟨orNull_of_bare normal.1, orNull_of_bare normal.1⟩
  | function params result =>
    rw [isNormal, Bool.and_eq_true] at normal
    rw [hasVar, Bool.or_eq_false_iff] at closed
    obtain ⟨appliedAll, erasedAll⟩ := unchangedAll_of_closed s params normal.1 closed.1
    obtain ⟨applied, erased⟩ := unchanged_of_closed s result normal.2 closed.2
    rw [apply, erase, appliedAll, erasedAll, applied, erased]
    exact ⟨rfl, rfl⟩
  | ref d args =>
    rw [isNormal] at normal
    rw [hasVar] at closed
    obtain ⟨appliedAll, erasedAll⟩ := unchangedAll_of_closed s args normal closed
    rw [apply, erase, appliedAll, erasedAll]
    exact ⟨rfl, rfl⟩
  | var v => cases closed
  | _ => exact ⟨rfl, rfl⟩

theorem unchangedAll_of_closed (s : Subst) (ts : List Ty) (normal : allNormal ts = true)
    (closed : anyVar ts = false) : applyAll s ts = ts ∧ eraseAll ts = ts := by
  cases ts with
  | nil => exact ⟨rfl, rfl⟩
  | cons t ts =>
    rw [allNormal, Bool.and_eq_true] at normal
    rw [anyVar, Bool.or_eq_false_iff] at closed
    obtain ⟨applied, erased⟩ := unchanged_of_closed s t normal.1 closed.1
    obtain ⟨appliedAll, erasedAll⟩ := unchangedAll_of_closed s ts normal.2 closed.2
    rw [applyAll, eraseAll, applied, erased, appliedAll, erasedAll]
    exact ⟨rfl, rfl⟩

end

end Ty

/-! ## Composition -/

namespace Subst

/-- Replaces variables by what the first substitution says, and those in the results by what the second says. -/
def andThen (s r : Subst) : Subst := s.map (fun p => (p.1, p.2.apply r)) ++ r

theorem find?_andThen (s r : Subst) (v : TypeVar) :
    (s.andThen r).find? v = ((s.find? v).map (·.apply r)).or (r.find? v) := by
  unfold andThen find?
  induction s with
  | nil => rfl
  | cons p s ih =>
    rw [List.map_cons, List.cons_append, List.lookup_cons, List.lookup_cons]
    cases v == p.1 with
    | true => rfl
    | false => exact ih

theorem apply_var_andThen (s r : Subst) (v : TypeVar) :
    (Ty.var v).apply (s.andThen r) = ((Ty.var v).apply s).apply r := by
  rw [Ty.apply, Ty.apply, find?_andThen]
  cases s.find? v with
  | some u => rfl
  | none =>
    rw [Option.getD_none, Ty.apply]
    rfl

end Subst

/-! ## The laws -/

/-- Replacing and widening keep types normal; replacing twice is replacing once, by any substitution that takes every
variable to what it becomes in the end, and there is one; widening leaves no variable; and without variables there is
nothing to replace or to widen. -/
theorem Ty.substitution_laws {t : Ty} {s r : Subst} (normal : t.isNormal = true)
    (range : ∀ v u, s.find? v = some u → u.isNormal = true) (range' : ∀ v u, r.find? v = some u → u.isNormal = true) :
    (t.apply s).isNormal = true ∧ (t.apply r).isNormal = true ∧ t.erase.isNormal = true ∧
      (∀ v, (var v).apply (s.andThen r) = ((var v).apply s).apply r) ∧
      (∀ q : Subst, (∀ v, (var v).apply q = ((var v).apply s).apply r) → (t.apply s).apply r = t.apply q) ∧
      t.erase.hasVar = false ∧ (t.hasVar = false → t.apply s = t ∧ t.erase = t) := by
  refine ⟨isNormal_apply range t normal, isNormal_apply range' t normal, isNormal_erase t normal,
    Subst.apply_var_andThen s r, fun q maps => ?_, hasVar_erase t, fun closed => ?_⟩
  · exact apply_apply t fun v _ => (maps v).symm
  · exact unchanged_of_closed s t normal closed

/-- The variable `T`. -/
def Ty.varT : TypeVar := ⟨"T", 0⟩

/-- The variable `U`. -/
def Ty.varU : TypeVar := ⟨"U", 1⟩

/-- The nullable types in `(Box<T?>, U?) -> T?` collapse when `T` is replaced by `U?`, and again when `U` is replaced by
`mixed`. -/
theorem Ty.collapsing_laws :
    let t : Ty := .function [.ref ⟨"Box", false⟩ [.nullable (.var varT)], .nullable (.var varU)] (.nullable (.var varT))
    let s : Subst := [(varT, .nullable (.var varU))]
    let r : Subst := [(varU, .mixed)]
    (t.apply s).isNormal = true ∧
      (t.apply s).apply r = .function [.ref ⟨"Box", false⟩ [.mixed], .mixed] .mixed ∧
      (t.apply s).apply r = t.apply (s.andThen r) ∧ t.erase.hasVar = false := by
  intro t s r
  have range : ∀ v u, s.find? v = some u → u.isNormal = true := by
    intro v u found
    simp only [s, Subst.find?, List.lookup_cons, List.lookup_nil] at found
    split at found
    · cases found
      rfl
    · cases found
  have range' : ∀ v u, r.find? v = some u → u.isNormal = true := by
    intro v u found
    simp only [r, Subst.find?, List.lookup_cons, List.lookup_nil] at found
    split at found
    · cases found
      rfl
    · cases found
  obtain ⟨kept, -, -, maps, twice, erased, -⟩ := substitution_laws (t := t) (by rfl) range range'
  refine ⟨kept, ?_, twice _ maps, erased⟩
  rfl

end ClassScript
