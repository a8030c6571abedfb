import ClassScript.Proofs.Acceptance
import Mathlib.Logic.Relation

/-!
What a declaration is seen as. The search along supertypes never looks at a declaration twice, and yet it
misses nothing: it finds a target exactly if direct supertypes lead there (`viewAs_isSome_iff`), whatever
circles they go round. The declarations that a failed search has visited are closed under direct supertypes
(`search_closed`), so that none beyond them can be reached.
-/

namespace ClassScript.TypeTable

/-! ## Direct supertypes -/

/-- What is known of a declaration names another one as a direct supertype. -/
def DirectSuper (table : TypeTable) (sub super : Nominal) : Prop :=
  ∃ d, find? table sub = some d ∧ ∃ args, Ty.ref super args ∈ d.supers

/-- A declaration leads to another one along direct supertypes. -/
abbrev Reaches (table : TypeTable) : Nominal → Nominal → Prop := Relation.ReflTransGen (DirectSuper table)

/-- No type parameter is itself a supertype of its declaration. -/
def Grounded (table : TypeTable) : Prop := ∀ d ∈ table, ∀ v ∈ d.params, Ty.var v ∉ d.supers

theorem grounded_of_unparameterized {table : TypeTable} (unparameterized : ∀ d ∈ table, d.params = []) :
    Grounded table := by
  intro d member v isParam
  rw [unparameterized d member] at isParam
  cases isParam

/-- A supertype that refers to a declaration does so whatever the arguments are. -/
theorem ref_of_apply {table : TypeTable} (grounded : Grounded table) {d : TypeDecl} (member : d ∈ table) {super : Ty}
    (listed : super ∈ d.supers) {args as : List Ty} {n : Nominal}
    (applied : super.apply (Subst.ofLists d.params args) = .ref n as) : ∃ written, super = .ref n written := by
  cases super with
  | ref m written =>
    rw [Ty.apply] at applied
    exact ⟨written, by rw [(Ty.ref.inj applied).1]⟩
  | var v =>
    rw [Ty.apply] at applied
    cases found : (Subst.ofLists d.params args).find? v with
    | none => simp [found] at applied
    | some t => exact absurd listed (grounded d member v (List.of_mem_zip (Subst.mem_zip_of_find? found)).1)
  | nullable t =>
    rw [Ty.apply] at applied
    cases inner : t.apply (Subst.ofLists d.params args) <;> simp [inner, Ty.orNull] at applied
  | _ => simp [Ty.apply] at applied

/-! ## What a search finds -/

variable {table : TypeTable} {target : Nominal}

/-- A target that is found can be reached. -/
theorem reaches_of_search (grounded : Grounded table) (fuel : Nat) (visited : List Nominal) (decl : Nominal)
    (args view : List Ty) (found : (search table target fuel visited decl args).2 = some view) :
    Reaches table decl target := by
  induction fuel generalizing visited decl args with
  | zero => simp [search] at found
  | succ fuel ih =>
    rw [search_succ] at found
    split_ifs at found with atTarget old
    · rw [beq_iff_eq.1 atTarget]
    · cases known : find? table decl with
      | none => simp [known] at found
      | some d =>
        rw [known] at found
        obtain ⟨super, listed, seen, n, as, applied, behind⟩ := found_behind_super found rfl
        obtain ⟨written, rfl⟩ := ref_of_apply grounded (find?_nominal known).1 listed applied
        exact Relation.ReflTransGen.head ⟨d, known, written, listed⟩ (ih seen n as behind)

/-- What was seen on the way from `visited` to `seen` is not the target, and neither it nor anything it names
as a direct supertype was missed. -/
structure Closed (table : TypeTable) (target : Nominal) (visited seen : List Nominal) : Prop where
  grown : visited ⊆ seen
  others : ∀ n ∈ seen, n ∉ visited → n ≠ target
  supers : ∀ n ∈ seen, n ∉ visited → ∀ m, DirectSuper table n m → m ∈ seen

theorem closed_refl (visited : List Nominal) : Closed table target visited visited :=
  ⟨List.Subset.refl _, fun _ seen fresh => absurd seen fresh, fun _ seen fresh => absurd seen fresh⟩

theorem Closed.trans {visited between seen : List Nominal} (first : Closed table target visited between)
    (rest : Closed table target between seen) : Closed table target visited seen where
  grown := List.Subset.trans first.grown rest.grown
  others n inSeen fresh := by
    by_cases early : n ∈ between
    · exact first.others n early fresh
    · exact rest.others n inSeen early
  supers n inSeen fresh m direct := by
    by_cases early : n ∈ between
    · exact rest.grown (first.supers n early fresh m direct)
    · exact rest.supers n inSeen early m direct

/-- Where no supertype leads to the target, what was seen on the way is closed, and holds what they refer to. -/
theorem follow_closed {next : List Nominal → Nominal → List Ty → Trail} {s : Subst} {start : List Nominal}
    (each : ∀ before seen n as, start ⊆ before → next before n as = (seen, none) →
      n ∈ seen ∧ Closed table target before seen)
    (supers : List Ty) {before after : List Nominal} (begun : start ⊆ before)
    (failed : supers.foldl (follow next s) (before, none) = (after, none)) :
    Closed table target before after ∧ ∀ super ∈ supers, ∀ n as, super.apply s = .ref n as → n ∈ after := by
  induction supers generalizing before with
  | nil =>
    obtain rfl : before = after := by simpa using failed
    exact ⟨closed_refl before, fun super listed => absurd listed List.not_mem_nil⟩
  | cons super supers ih =>
    rw [List.foldl_cons] at failed
    rcases stepped : follow next s (before, none) super with ⟨seen, found⟩
    rw [stepped] at failed
    cases found with
    | some view =>
      rw [foldl_follow_found] at failed
      cases failed
    | none =>
      have first : Closed table target before seen ∧ ∀ n as, super.apply s = .ref n as → n ∈ seen := by
        unfold follow at stepped
        dsimp only at stepped
        split at stepped
        · next m bs applied =>
          obtain ⟨inSeen, closed⟩ := each before seen m bs begun stepped
          refine ⟨closed, fun n as again => ?_⟩
          rw [applied] at again
          exact (Ty.ref.inj again).1 ▸ inSeen
        · next other =>
          obtain rfl : before = seen := by simpa using stepped
          exact ⟨closed_refl before, fun n as again => absurd again (other n as)⟩
      obtain ⟨rest, held⟩ := ih (List.Subset.trans begun first.1.grown) failed
      refine ⟨first.1.trans rest, fun other listed n as applied => ?_⟩
      rcases List.mem_cons.1 listed with rfl | later
      · exact rest.grown (first.2 n as applied)
      · exact held other later n as applied

/-- Where a search that has enough steps fails, it has seen the declaration, and what it has seen is closed. -/
theorem search_closed (fuel : Nat) (visited seen : List Nominal) (decl : Nominal) (args : List Ty)
    (enough : unvisited table visited < fuel) (failed : search table target fuel visited decl args = (seen, none)) :
    decl ∈ seen ∧ Closed table target visited seen := by
  induction fuel generalizing visited seen decl args with
  | zero => omega
  | succ fuel ih =>
    rw [search_succ] at failed
    split_ifs at failed with atTarget old
    · simp at failed
    · obtain rfl : visited = seen := by simpa using failed
      exact ⟨by simpa using old, closed_refl visited⟩
    have isOther : decl ≠ target := by simpa using atTarget
    have fresh : decl ∉ visited := by simpa using old
    suffices passed : Closed table target (decl :: visited) seen ∧ ∀ m, DirectSuper table decl m → m ∈ seen by
      obtain ⟨closed, supers⟩ := passed
      refine ⟨closed.grown List.mem_cons_self, List.Subset.trans (List.subset_cons_self _ _) closed.grown,
        fun n inSeen unseen => ?_, fun n inSeen unseen m direct => ?_⟩
      · by_cases here : n = decl
        · exact here ▸ isOther
        · exact closed.others n inSeen (by simp [here, unseen])
      · by_cases here : n = decl
        · exact supers m (here ▸ direct)
        · exact closed.supers n inSeen (by simp [here, unseen]) m direct
    cases known : find? table decl with
    | none =>
      obtain rfl : decl :: visited = seen := by simpa [known] using failed
      refine ⟨closed_refl _, fun m direct => ?_⟩
      obtain ⟨d, found, -⟩ := direct
      rw [known] at found
      cases found
    | some d =>
      rw [known] at failed
      obtain ⟨member, named⟩ := find?_nominal known
      have fewer : unvisited table (decl :: visited) < fuel := by
        have less := unvisited_cons_lt member (named ▸ fresh)
        rw [named] at less
        omega
      have each : ∀ before seen n as, decl :: visited ⊆ before →
          search table target fuel before n as = (seen, none) → n ∈ seen ∧ Closed table target before seen := by
        intro before seen n as grown failed
        exact ih before seen n as (Nat.lt_of_le_of_lt (unvisited_mono table grown) fewer) failed
      obtain ⟨closed, held⟩ := follow_closed each d.supers (List.Subset.refl _) failed
      refine ⟨closed, fun m direct => ?_⟩
      obtain ⟨d', found, as, listed⟩ := direct
      obtain rfl := Option.some.inj (found.symm.trans known)
      exact held _ listed m _ (by rw [Ty.apply])

/-- Nothing leads out of what is closed from the start. -/
theorem Closed.reaches {seen : List Nominal} (closed : Closed table target [] seen) {n m : Nominal} (inSeen : n ∈ seen)
    (path : Reaches table n m) : m ∈ seen := by
  induction path with
  | refl => exact inSeen
  | tail _ direct ih => exact closed.supers _ ih List.not_mem_nil _ direct

/-- Direct supertypes are followed to their end, even beside some that are no declarations. -/
theorem viewAs_of_reaches {decl : Nominal} (args : List Ty) (path : Reaches table decl target) :
    (viewAs table decl args target).isSome = true := by
  rw [← Option.ne_none_iff_isSome]
  intro missing
  have few : unvisited table [] ≤ List.length table := List.countP_le_length
  obtain ⟨inSeen, closed⟩ := search_closed (List.length table + 2) [] _ decl args (by omega) (Prod.ext rfl missing)
  exact closed.others target (closed.reaches inSeen path) List.not_mem_nil rfl

/-- A declaration has a view as another one exactly if direct supertypes lead there. -/
theorem viewAs_isSome_iff (grounded : Grounded table) (decl : Nominal) (args : List Ty) (target : Nominal) :
    (viewAs table decl args target).isSome = true ↔ Reaches table decl target := by
  refine ⟨fun found => ?_, viewAs_of_reaches args⟩
  obtain ⟨view, found⟩ := Option.isSome_iff_exists.1 found
  exact reaches_of_search grounded _ [] decl args view found

end ClassScript.TypeTable
