import ClassScript.Proofs.Views

/-!
Declarations seen as their ancestors. The search along supertypes is told as it goes, without a bound (`Walks`):
whatever circles the supertypes go round, it has one outcome, which is what `viewAs` returns (`viewAs_walks`). It
finds exactly what direct supertypes lead to, and the arguments it finds are those that are carried along a path of
supertypes, each declaration's parameters standing for the arguments that it has been reached with (`SeenAs`).
-/

namespace ClassScript.TypeTable

variable {table : TypeTable} {target : Nominal}

/-! ## The walk -/

mutual

/-- A search for the target goes from a declaration with arguments, and what has been visited, to an outcome. -/
inductive Walks (table : TypeTable) (target : Nominal) : List Nominal → Nominal → List Ty → Trail → Prop
  | arrives (visited : List Nominal) (args : List Ty) : Walks table target visited target args (visited, some args)
  | returns {visited : List Nominal} {decl : Nominal} (args : List Ty) :
    decl ≠ target → decl ∈ visited → Walks table target visited decl args (visited, none)
  | strays {visited : List Nominal} {decl : Nominal} (args : List Ty) :
    decl ≠ target → decl ∉ visited → find? table decl = none →
      Walks table target visited decl args (decl :: visited, none)
  | climbs {visited : List Nominal} {decl : Nominal} {args : List Ty} {d : TypeDecl} {trail : Trail} :
    decl ≠ target → decl ∉ visited → find? table decl = some d →
      Tries table target (Subst.ofLists d.params args) (decl :: visited) d.supers trail →
      Walks table target visited decl args trail

/-- A search for the target tries supertypes in order, up to the first that leads to it. -/
inductive Tries (table : TypeTable) (target : Nominal) : Subst → List Nominal → List Ty → Trail → Prop
  | none (s : Subst) (visited : List Nominal) : Tries table target s visited [] (visited, .none)
  | found {s : Subst} {visited seen : List Nominal} {super : Ty} {n : Nominal} {args view : List Ty}
    (supers : List Ty) : super.apply s = .ref n args → Walks table target visited n args (seen, some view) →
      Tries table target s visited (super :: supers) (seen, some view)
  | missed {s : Subst} {visited seen : List Nominal} {super : Ty} {n : Nominal} {args : List Ty} {supers : List Ty}
    {trail : Trail} : super.apply s = .ref n args → Walks table target visited n args (seen, .none) →
      Tries table target s seen supers trail → Tries table target s visited (super :: supers) trail
  | skipped {s : Subst} {visited : List Nominal} {super : Ty} {supers : List Ty} {trail : Trail} :
    (∀ n args, super.apply s ≠ .ref n args) → Tries table target s visited supers trail →
      Tries table target s visited (super :: supers) trail

end

/-- Supertypes are tried as they are followed, if each is walked as it is searched. -/
theorem tries_follow {next : List Nominal → Nominal → List Ty → Trail} {s : Subst} {start : List Nominal}
    (grows : ∀ before n args, before ⊆ (next before n args).1)
    (each : ∀ before n args, start ⊆ before → Walks table target before n args (next before n args))
    (supers : List Ty) {before : List Nominal} (begun : start ⊆ before) :
    Tries table target s before supers (supers.foldl (follow next s) (before, none)) := by
  induction supers generalizing before with
  | nil => exact .none s before
  | cons super supers ih =>
    rw [List.foldl_cons]
    cases applied : super.apply s with
    | ref n args =>
      have walked := each before n args begun
      have grown := List.Subset.trans begun (grows before n args)
      rw [show follow next s (before, none) super = next before n args by simp only [follow, applied]]
      generalize next before n args = trail at walked grown
      obtain ⟨seen, found⟩ := trail
      cases found with
      | some view =>
        rw [foldl_follow_found]
        exact .found supers applied walked
      | none => exact .missed applied walked (ih grown)
    | _ =>
      rw [show follow next s (before, none) super = (before, none) by simp only [follow, applied]]
      exact .skipped (by simp [applied]) (ih begun)

/-- A search that has more steps than there are declarations left to visit walks to its outcome. -/
theorem walks_search (fuel : Nat) (visited : List Nominal) (decl : Nominal) (args : List Ty)
    (enough : unvisited table visited < fuel) :
    Walks table target visited decl args (search table target fuel visited decl args) := by
  induction fuel generalizing visited decl args with
  | zero => omega
  | succ fuel ih =>
    rw [search_succ]
    split_ifs with atTarget old
    · rw [beq_iff_eq.1 atTarget]
      exact .arrives visited args
    · exact .returns args (by simpa using atTarget) (by simpa using old)
    have other : decl ≠ target := by simpa using atTarget
    have fresh : decl ∉ visited := by simpa using old
    cases known : find? table decl with
    | none => exact .strays args other fresh known
    | some d =>
      obtain ⟨member, named⟩ := find?_nominal known
      have fewer : unvisited table (decl :: visited) < fuel := by
        have less := unvisited_cons_lt member (named ▸ fresh)
        rw [named] at less
        omega
      refine .climbs other fresh known (tries_follow (search_grows table target fuel) ?_ d.supers (List.Subset.refl _))
      intro before n as grown
      exact ih before n as (Nat.lt_of_le_of_lt (unvisited_mono table grown) fewer)

mutual

/-- A walk has no other outcome than the search. -/
theorem search_of_walks {visited : List Nominal} {decl : Nominal} {args : List Ty} {trail : Trail}
    (walked : Walks table target visited decl args trail) (fuel : Nat) (enough : unvisited table visited < fuel) :
    search table target fuel visited decl args = trail := by
  obtain ⟨fuel, rfl⟩ : ∃ rest, fuel = rest + 1 := ⟨fuel - 1, by omega⟩
  rw [search_succ]
  cases walked with
  | arrives => rw [if_pos (by simp)]
  | returns _ other old => rw [if_neg (by simpa using other), if_pos (by simpa using old)]
  | strays _ other fresh known => rw [if_neg (by simpa using other), if_neg (by simpa using fresh), known]
  | climbs other fresh known tried =>
    rw [if_neg (by simpa using other), if_neg (by simpa using fresh), known]
    obtain ⟨member, named⟩ := find?_nominal known
    have less := unvisited_cons_lt member (named ▸ fresh)
    rw [named] at less
    exact follow_of_tries tried fuel (by omega)
termination_by (fuel, 0)

/-- Supertypes are followed as they are tried. -/
theorem follow_of_tries {s : Subst} {visited : List Nominal} {supers : List Ty} {trail : Trail}
    (tried : Tries table target s visited supers trail) (fuel : Nat) (enough : unvisited table visited < fuel) :
    supers.foldl (follow (search table target fuel) s) (visited, none) = trail := by
  cases tried with
  | none => rfl
  | found supers applied walked =>
    rw [List.foldl_cons, follow, applied]
    dsimp only
    rw [search_of_walks walked fuel enough, foldl_follow_found]
  | @missed _ _ _ _ n args _ _ applied walked tried =>
    have outcome := search_of_walks walked fuel enough
    have grown := search_grows table target fuel visited n args
    rw [outcome] at grown
    rw [List.foldl_cons, follow, applied]
    dsimp only
    rw [outcome]
    exact follow_of_tries tried fuel (Nat.lt_of_le_of_lt (unvisited_mono table grown) enough)
  | skipped other tried =>
    rw [List.foldl_cons, follow]
    split
    · next n args applied => exact absurd applied (other n args)
    · exact follow_of_tries tried fuel enough
termination_by (fuel, supers.length + 1)

end

/-- The search for an ancestor ends, whatever circles supertypes go round, and has one outcome. -/
theorem viewAs_walks (table : TypeTable) (decl : Nominal) (args : List Ty) (target : Nominal) :
    ∃ seen, ∀ trail, Walks table target [] decl args trail ↔ trail = (seen, viewAs table decl args target) := by
  have few : unvisited table [] ≤ List.length table := List.countP_le_length
  have enough : unvisited table [] < List.length table + 2 := by omega
  refine ⟨(search table target (List.length table + 2) [] decl args).1, fun trail => ⟨fun walked => ?_, ?_⟩⟩
  · rw [← search_of_walks walked (List.length table + 2) enough]
    rfl
  · rintro rfl
    exact walks_search (List.length table + 2) [] decl args enough

/-! ## Arguments along a path -/

/-- A path of supertypes leads from a declaration with arguments to another one with its arguments: at each step the
parameters of a declaration stand for the arguments that it has been reached with. -/
inductive SeenAs (table : TypeTable) : Nominal → List Ty → Nominal → List Ty → Prop
  | itself (decl : Nominal) (args : List Ty) : SeenAs table decl args decl args
  | above {decl n target : Nominal} {args as view : List Ty} {d : TypeDecl} {super : Ty} :
    find? table decl = some d → super ∈ d.supers → super.apply (Subst.ofLists d.params args) = .ref n as →
      SeenAs table n as target view → SeenAs table decl args target view

/-- What is found is seen along a path. -/
theorem seenAs_of_search (fuel : Nat) (visited : List Nominal) (decl : Nominal) (args view : List Ty)
    (found : (search table target fuel visited decl args).2 = some view) : SeenAs table decl args target view := by
  induction fuel generalizing visited decl args with
  | zero => simp [search] at found
  | succ fuel ih =>
    rw [search_succ] at found
    split_ifs at found with atTarget old
    · obtain rfl : decl = target := beq_iff_eq.1 atTarget
      obtain rfl : args = view := Option.some.inj found
      exact .itself decl args
    · cases known : find? table decl with
      | none => simp [known] at found
      | some d =>
        rw [known] at found
        obtain ⟨super, listed, seen, n, as, applied, behind⟩ := found_behind_super found rfl
        exact .above known listed applied (ih seen n as behind)

/-- Over any declarations, the search for an ancestor ends with one outcome. It finds what direct supertypes lead to,
and nothing else where supertypes are declarations; the arguments that it finds have been carried along a path of
supertypes. -/
theorem ancestors_are_seen_along_paths (table : TypeTable) (decl : Nominal) (args : List Ty) (target : Nominal) :
    (∃ seen, ∀ trail, Walks table target [] decl args trail ↔ trail = (seen, viewAs table decl args target)) ∧
      (Reaches table decl target → (viewAs table decl args target).isSome = true) ∧
      (Grounded table → ((viewAs table decl args target).isSome = true ↔ Reaches table decl target)) ∧
      ∀ view, viewAs table decl args target = some view → SeenAs table decl args target view :=
  ⟨viewAs_walks table decl args target, viewAs_of_reaches args,
    fun grounded => viewAs_isSome_iff grounded decl args target,
    fun view found => seenAs_of_search (List.length table + 2) [] decl args view found⟩

/-- `interface Shelf<S> { }`, `interface Link<L> extends Node<L?>, Node<L> { }` and
`interface Node<T> extends Link<T>, Shelf<T> { }` -/
def ringTable : TypeTable :=
  [⟨⟨"Shelf", true⟩, [⟨"S", 0⟩], []⟩,
   ⟨⟨"Link", true⟩, [⟨"L", 1⟩],
    [.ref ⟨"Node", true⟩ [.nullable (.var ⟨"L", 1⟩)], .ref ⟨"Node", true⟩ [.var ⟨"L", 1⟩]]⟩,
   ⟨⟨"Node", true⟩, [⟨"T", 2⟩],
    [.ref ⟨"Link", true⟩ [.var ⟨"T", 2⟩], .ref ⟨"Shelf", true⟩ [.var ⟨"T", 2⟩]]⟩]

/-- From a link the circle is left at the node that is reached first, and its argument is carried on. -/
theorem link_is_seen_as_shelf :
    Grounded ringTable ∧ Reaches ringTable ⟨"Link", true⟩ ⟨"Shelf", true⟩ ∧
      SeenAs ringTable ⟨"Link", true⟩ [.number] ⟨"Shelf", true⟩ [.nullable .number] ∧
      ¬ Reaches ringTable ⟨"Shelf", true⟩ ⟨"Link", true⟩ := by
  have grounded : Grounded ringTable := by
    intro d member v isParam listed
    simp only [ringTable, List.mem_cons, List.not_mem_nil, or_false] at member
    rcases member with rfl | rfl | rfl <;> simp at listed
  have found : viewAs ringTable ⟨"Link", true⟩ [.number] ⟨"Shelf", true⟩ = some [.nullable .number] := rfl
  obtain ⟨-, -, exact, along⟩ := ancestors_are_seen_along_paths ringTable ⟨"Link", true⟩ [.number] ⟨"Shelf", true⟩
  obtain ⟨-, complete, -, -⟩ := ancestors_are_seen_along_paths ringTable ⟨"Shelf", true⟩ [] ⟨"Link", true⟩
  refine ⟨grounded, (exact grounded).1 (by rw [found]; rfl), along _ found, fun path => ?_⟩
  have missing : viewAs ringTable ⟨"Shelf", true⟩ [] ⟨"Link", true⟩ = none := rfl
  have present := complete path
  rw [missing] at present
  cases present

end ClassScript.TypeTable
