import ClassScript.Types.Accepts
import ClassScript.Proofs.Substitutions
import Mathlib.Data.List.Basic
import Mathlib.Order.WellFounded
import Mathlib.Tactic.SplitIfs

/-!
When questions about two types end. A question is settled at once or comes down to further questions
(`consider`), which are asked in order up to the first that is answered no. It has an answer exactly
if no endless chain of questions leads on from it (`finishes_iff_no_chain`). Supertypes whose
arguments hold function parameters can make such a chain; it cannot arise where each declaration has
a bound on the parameters that its supertypes nest (`finishes_of_bounded`).
-/

namespace ClassScript.TypeTable

/-! ## One question -/

/-- What a question comes down to. -/
inductive Verdict where
  | settled (answer : Bool)
  /-- Questions, each a slot and a value, of which all have to be answered yes. -/
  | further (questions : List (Ty × Ty))

/-- Takes one look at a slot and a value. -/
@[grind =]
def consider (table : TypeTable) (slot value : Ty) : Verdict :=
  match slot with
  | .mixed | .var _ => .settled true
  | .number =>
    match value with
    | .var _ | .number => .settled true
    | _ => .settled false
  | .string =>
    match value with
    | .var _ | .string => .settled true
    | _ => .settled false
  | .boolean =>
    match value with
    | .var _ | .boolean => .settled true
    | _ => .settled false
  | .void =>
    match value with
    | .var _ | .void => .settled true
    | _ => .settled false
  | .null =>
    match value with
    | .var _ | .null => .settled true
    | _ => .settled false
  | .nullable inner =>
    match value with
    | .null => .settled true
    | .nullable v => .further [(inner, v)]
    | v => .further [(inner, v)]
  | .function params result =>
    match value with
    | .var _ => .settled true
    | .function params' result' =>
      if params.length != params'.length then .settled false
      else
        .further ((params.zip params').map (fun p => (p.2, p.1)) ++
          if result.isVoid then [] else [(result, result')])
    | _ => .settled false
  | .ref d args =>
    match value with
    | .var _ => .settled true
    | .ref d' args' =>
      match viewAs table d' args' d with
      | none => .settled false
      | some view =>
        if args.isEmpty || view.isEmpty then .settled true
        else if args.length != view.length then .settled false
        else .further (args.zip view)
    | _ => .settled false
  | .static d =>
    match value with
    | .var _ => .settled true
    | .static d' => .settled (d == d')
    | _ => .settled false

private theorem allM_singleton {α : Type} (f : α → Option Bool) (a : α) : [a].allM f = f a := by
  simp only [List.allM]
  cases f a with
  | none => rfl
  | some b => cases b <;> rfl

private theorem allM_map {α β : Type} (f : β → Option Bool) (g : α → β) (l : List α) :
    (l.map g).allM f = l.allM fun a => f (g a) := by
  induction l with
  | nil => rfl
  | cons a l ih => simp only [List.map_cons, List.allM, ih]

private theorem allM_append {α : Type} (f : α → Option Bool) (l m : List α) :
    (l ++ m).allM f = (l.allM f).bind fun ok => if ok then m.allM f else some false := by
  induction l with
  | nil => rfl
  | cons a l ih =>
    simp only [List.cons_append, List.allM, ih, Option.bind_eq_bind]
    cases f a with
    | none => rfl
    | some b => cases b <;> rfl

theorem allM_mono {α : Type} {f g : α → Option Bool} {l : List α} {answer : Bool}
    (keeps : ∀ a ∈ l, ∀ b, f a = some b → g a = some b) (found : l.allM f = some answer) :
    l.allM g = some answer := by
  induction l with
  | nil => exact found
  | cons a l ih =>
    simp only [List.allM, Option.bind_eq_bind] at found ⊢
    cases first : f a with
    | none => simp [first] at found
    | some b =>
      rw [keeps a (by simp) b first]
      rw [first] at found
      cases b with
      | false => exact found
      | true => exact ih (fun c member => keeps c (by simp [member])) found

/-- The bounded procedure takes one look and asks the further questions with one step less. -/
theorem accepts?_succ (table : TypeTable) (fuel : Nat) (slot value : Ty) :
    accepts? table (fuel + 1) slot value =
      match consider table slot value with
      | .settled answer => some answer
      | .further questions => questions.allM fun q => accepts? table fuel q.1 q.2 := by
  cases slot with
  | nullable inner => cases value <;> simp only [accepts?, consider, allM_singleton]
  | function params result =>
    cases value with
    | function params' result' =>
      simp only [accepts?, consider]
      by_cases arity : params.length != params'.length
      · simp only [arity, if_true]
      · rw [if_neg arity, if_neg arity]
        dsimp only
        rw [allM_append, allM_map]
        cases (params.zip params').allM fun p => accepts? table fuel p.2 p.1 with
        | none => rfl
        | some ok =>
          cases ok with
          | false => rfl
          | true =>
            cases nothing : result.isVoid with
            | true => rfl
            | false => exact (allM_singleton (fun q : Ty × Ty => accepts? table fuel q.1 q.2) (result, result')).symm
    | _ => rfl
  | ref d args =>
    cases value with
    | ref d' args' =>
      simp only [accepts?, consider]
      cases viewAs table d' args' d with
      | none => rfl
      | some view => dsimp only; split_ifs <;> rfl
    | _ => rfl
  | _ => cases value <;> rfl

/-! ## Answers and chains of questions -/

/-- A question is answered so, given enough steps. -/
def Answered (table : TypeTable) (q : Ty × Ty) (answer : Bool) : Prop :=
  ∃ fuel, accepts? table fuel q.1 q.2 = some answer

/-- A question has an answer, which stays the same with any larger number of steps. -/
def Finishes (table : TypeTable) (slot value : Ty) : Prop :=
  ∃ steps answer, ∀ fuel, steps ≤ fuel → accepts? table fuel slot value = some answer

/-- To answer `q`, the question `next` is asked: those before it have been answered yes. -/
def Asks (table : TypeTable) (q next : Ty × Ty) : Prop :=
  ∃ before after, consider table q.1 q.2 = .further (before ++ next :: after) ∧
    ∀ earlier ∈ before, Answered table earlier true

/-- More steps do not change an answer. -/
theorem accepts?_mono (table : TypeTable) (fuel more : Nat) (slot value : Ty) (answer : Bool)
    (answered : accepts? table fuel slot value = some answer) (le : fuel ≤ more) :
    accepts? table more slot value = some answer := by
  induction fuel generalizing more slot value answer with
  | zero => simp [accepts?] at answered
  | succ fuel ih =>
    obtain ⟨rest, rfl⟩ : ∃ rest, more = rest + 1 := ⟨more - 1, by omega⟩
    have fewer : fuel ≤ rest := by omega
    rw [accepts?_succ] at answered ⊢
    cases seen : consider table slot value with
    | settled b => rw [seen] at answered; exact answered
    | further questions =>
      rw [seen] at answered
      exact allM_mono (fun q _ b found => ih rest q.1 q.2 b found fewer) answered

theorem finishes_of_answered {table : TypeTable} {slot value : Ty} {answer : Bool}
    (answered : Answered table (slot, value) answer) : Finishes table slot value := by
  obtain ⟨fuel, found⟩ := answered
  exact ⟨fuel, answer, fun more le => accepts?_mono table fuel more slot value answer found le⟩

/-- Questions that are asked in order have an answer together once each that is reached has one. -/
private theorem allM_answered (table : TypeTable) (questions : List (Ty × Ty))
    (reached : ∀ before q after, questions = before ++ q :: after →
      (∀ earlier ∈ before, Answered table earlier true) → Finishes table q.1 q.2) :
    ∃ steps answer, (questions.allM fun q => accepts? table steps q.1 q.2) = some answer := by
  induction questions with
  | nil => exact ⟨0, true, rfl⟩
  | cons q questions ih =>
    obtain ⟨steps, answer, stable⟩ := reached [] q questions rfl (by simp)
    cases answer with
    | false => exact ⟨steps, false, by simp [List.allM, stable steps (Nat.le_refl steps)]⟩
    | true =>
      have yes : Answered table q true := ⟨steps, stable steps (Nat.le_refl steps)⟩
      obtain ⟨restSteps, answer, restFound⟩ := ih fun before r after split earlierYes =>
        reached (q :: before) r after (by rw [split, List.cons_append]) (by
          intro earlier member
          rcases List.mem_cons.mp member with same | later
          · exact same ▸ yes
          · exact earlierYes earlier later)
      refine ⟨max steps restSteps, answer, ?_⟩
      have rest := allM_mono (g := fun r => accepts? table (max steps restSteps) r.1 r.2)
        (fun r _ b found => accepts?_mono table restSteps _ r.1 r.2 b found (Nat.le_max_right ..)) restFound
      simp [List.allM, stable (max steps restSteps) (Nat.le_max_left ..), rest]

/-- Of questions that have an answer together, each that is reached has one. -/
private theorem answered_of_allM {table : TypeTable} {fuel : Nat} {questions : List (Ty × Ty)} {answer : Bool}
    (found : (questions.allM fun q => accepts? table fuel q.1 q.2) = some answer)
    {before after : List (Ty × Ty)} {q : Ty × Ty} (split : questions = before ++ q :: after)
    (yes : ∀ earlier ∈ before, Answered table earlier true) :
    ∃ b, accepts? table fuel q.1 q.2 = some b := by
  subst split
  induction before with
  | nil =>
    simp only [List.nil_append, List.allM, Option.bind_eq_bind] at found
    cases first : accepts? table fuel q.1 q.2 with
    | none => simp [first] at found
    | some b => exact ⟨b, rfl⟩
  | cons e before ih =>
    simp only [List.cons_append, List.allM, Option.bind_eq_bind] at found
    cases first : accepts? table fuel e.1 e.2 with
    | none => simp [first] at found
    | some b =>
      obtain ⟨other, otherYes⟩ := yes e (by simp)
      have same : b = true := by
        have left := accepts?_mono table fuel (max fuel other) e.1 e.2 b first (Nat.le_max_left ..)
        have right := accepts?_mono table other (max fuel other) e.1 e.2 true otherYes (Nat.le_max_right ..)
        rw [left] at right
        exact Option.some.inj right
      subst same
      rw [first] at found
      exact ih (fun earlier member => yes earlier (by simp [member])) found

private theorem acc_of_answered (table : TypeTable) (fuel : Nat) (q : Ty × Ty) (answer : Bool)
    (found : accepts? table fuel q.1 q.2 = some answer) : Acc (fun next q => Asks table q next) q := by
  induction fuel generalizing q answer with
  | zero => simp [accepts?] at found
  | succ fuel ih =>
    refine ⟨q, fun next asked => ?_⟩
    obtain ⟨before, after, seen, yes⟩ := asked
    rw [accepts?_succ, seen] at found
    obtain ⟨b, nextFound⟩ := answered_of_allM found rfl yes
    exact ih next b nextFound

theorem finishes_of_acc (table : TypeTable) (q : Ty × Ty)
    (reachable : Acc (fun next q => Asks table q next) q) : Finishes table q.1 q.2 := by
  induction reachable with
  | intro q _ ih =>
    cases seen : consider table q.1 q.2 with
    | settled b => exact finishes_of_answered ⟨1, by rw [accepts?_succ, seen]⟩
    | further questions =>
      obtain ⟨steps, answer, found⟩ := allM_answered table questions fun before r after split yes =>
        ih r ⟨before, after, by rw [seen, split], yes⟩
      exact finishes_of_answered ⟨steps + 1, by rw [accepts?_succ, seen]; exact found⟩

/-- A question has an answer exactly if it does not lead to an endless chain of questions, each asked
to answer the one before. -/
theorem finishes_iff_no_chain (table : TypeTable) (slot value : Ty) :
    Finishes table slot value ↔
      ¬ ∃ chain : Nat → Ty × Ty, chain 0 = (slot, value) ∧ ∀ n, Asks table (chain n) (chain (n + 1)) := by
  rw [← not_acc_iff_exists_descending_chain (r := fun next q => Asks table q next), not_not]
  constructor
  · rintro ⟨steps, answer, stable⟩
    exact acc_of_answered table steps (slot, value) answer (stable steps (Nat.le_refl steps))
  · exact finishes_of_acc table (slot, value)

/-! ## Bounded nesting of parameters -/

mutual

/-- How deeply function parameters are nested in a type if each declaration counts for its bound. -/
def depth (bound : Nominal → Nat) : Ty → Nat
  | .nullable t => depth bound t
  | .function params result => max (depthAll bound params + 1) (depth bound result)
  | .ref d args => bound d + depthAll bound args
  | _ => 0

/-- The largest nesting of function parameters in some types. -/
def depthAll (bound : Nominal → Nat) : List Ty → Nat
  | [] => 0
  | t :: ts => max (depth bound t) (depthAll bound ts)

end

/-- Each declaration has a bound, and none of its supertypes goes beyond it. -/
def Bounded (table : TypeTable) (bound : Nominal → Nat) : Prop :=
  ∀ d ∈ table, ∀ super ∈ d.supers, depth bound super ≤ bound d.nominal

theorem depth_le_depthAll (bound : Nominal → Nat) {t : Ty} {ts : List Ty} (member : t ∈ ts) :
    depth bound t ≤ depthAll bound ts := by
  induction ts with
  | nil => simp at member
  | cons u ts ih =>
    rcases List.mem_cons.mp member with same | later
    · subst same; exact Nat.le_max_left ..
    · exact Nat.le_trans (ih later) (Nat.le_max_right ..)

theorem depth_orNull (bound : Nominal → Nat) (t : Ty) : depth bound t.orNull = depth bound t := by
  cases t <;> simp [Ty.orNull, depth]

mutual

/-- Replacing variables by types of limited depth adds at most that limit. -/
theorem depth_apply_le (bound : Nominal → Nat) (s : Subst) (limit : Nat)
    (small : ∀ v t, s.find? v = some t → depth bound t ≤ limit) (t : Ty) :
    depth bound (t.apply s) ≤ depth bound t + limit := by
  cases t with
  | nullable t =>
    rw [Ty.apply, depth_orNull]
    exact depth_apply_le bound s limit small t
  | var v =>
    rw [Ty.apply]
    cases found : s.find? v with
    | none => simp [depth]
    | some t =>
      have bounded := small v t found
      simp only [Option.getD_some, depth]
      omega
  | function params result =>
    have paramsLe := depthAll_apply_le bound s limit small params
    have resultLe := depth_apply_le bound s limit small result
    simp only [Ty.apply, depth]
    omega
  | ref d args =>
    have argsLe := depthAll_apply_le bound s limit small args
    simp only [Ty.apply, depth]
    omega
  | _ => simp [Ty.apply, depth]

theorem depthAll_apply_le (bound : Nominal → Nat) (s : Subst) (limit : Nat)
    (small : ∀ v t, s.find? v = some t → depth bound t ≤ limit) (ts : List Ty) :
    depthAll bound (Ty.applyAll s ts) ≤ depthAll bound ts + limit := by
  cases ts with
  | nil => simp [Ty.applyAll, depthAll]
  | cons t ts =>
    have headLe := depth_apply_le bound s limit small t
    have tailLe := depthAll_apply_le bound s limit small ts
    simp only [Ty.applyAll, depthAll]
    omega

end

/-- What a parameter stands for is one of the arguments. -/
theorem find?_ofLists_mem {params : List TypeVar} {args : List Ty} {v : TypeVar} {t : Ty}
    (found : (Subst.ofLists params args).find? v = some t) : t ∈ args :=
  (List.of_mem_zip (Subst.mem_zip_of_find? found)).2

/-! ## Views along supertypes -/

/-- The declarations seen so far, and the arguments of the target once it is found. -/
abbrev Trail := List Nominal × Option (List Ty)

/-- Goes on with one supertype unless the target is found. -/
def follow (next : List Nominal → Nominal → List Ty → Trail) (s : Subst) (trail : Trail) (super : Ty) : Trail :=
  match trail with
  | (seen, some view) => (seen, some view)
  | (seen, none) =>
    match super.apply s with
    | .ref n args => next seen n args
    | _ => (seen, none)

theorem follow_eq (ask : List Nominal → Nominal → List Ty → Trail) (s : Subst) :
    (fun (trail : Trail) super =>
      match trail with
      | (seen, found) =>
        match found with
        | some view => (seen, some view)
        | none =>
          match super.apply s with
          | .ref n as => ask seen n as
          | _ => (seen, none)) = follow ask s := by
  funext trail super
  obtain ⟨seen, found⟩ := trail
  cases found <;> rfl

theorem search_succ (table : TypeTable) (target : Nominal) (fuel : Nat) (visited : List Nominal)
    (decl : Nominal) (args : List Ty) :
    search table target (fuel + 1) visited decl args =
      if decl == target then (visited, some args)
      else if visited.contains decl then (visited, none)
      else
        match find? table decl with
        | none => (decl :: visited, none)
        | some d =>
          d.supers.foldl (follow (search table target fuel) (Subst.ofLists d.params args)) (decl :: visited, none) := by
  rw [search]
  split_ifs
  · rfl
  · rfl
  · cases find? table decl with
    | none => rfl
    | some d => exact congrArg (fun f => d.supers.foldl f (decl :: visited, none)) (follow_eq _ _)

/-- Once the target is found, no further supertype is followed. -/
theorem foldl_follow_found (next : List Nominal → Nominal → List Ty → Trail) (s : Subst) (supers : List Ty)
    (seen : List Nominal) (view : List Ty) :
    supers.foldl (follow next s) (seen, some view) = (seen, some view) := by
  induction supers with
  | nil => rfl
  | cons super supers ih => exact ih

/-- A target that is found along some supertypes is found behind one of them. -/
theorem found_behind_super {next : List Nominal → Nominal → List Ty → Trail} {s : Subst} {supers : List Ty}
    {trail : Trail} {view : List Ty} (found : (supers.foldl (follow next s) trail).2 = some view)
    (notYet : trail.2 = none) :
    ∃ super ∈ supers, ∃ seen n args, super.apply s = .ref n args ∧ (next seen n args).2 = some view := by
  induction supers generalizing trail with
  | nil => simp [notYet] at found
  | cons super supers ih =>
    obtain ⟨seen, before⟩ := trail
    dsimp only at notYet
    subst notYet
    rw [List.foldl_cons] at found
    by_cases here : (follow next s (seen, none) super).2 = none
    · obtain ⟨other, member, rest⟩ := ih found here
      exact ⟨other, List.mem_cons_of_mem super member, rest⟩
    · obtain ⟨v, foundHere⟩ := Option.ne_none_iff_exists'.mp here
      have same : v = view := by
        have pair : follow next s (seen, none) super = ((follow next s (seen, none) super).1, some v) := by
          rw [← foundHere]
        rw [pair, foldl_follow_found] at found
        exact Option.some.inj found
      subst same
      refine ⟨super, by simp, seen, ?_⟩
      unfold follow at foundHere
      dsimp only at foundHere
      split at foundHere
      · next n args applied => exact ⟨n, args, applied, foundHere⟩
      · simp at foundHere

theorem find?_nominal {table : TypeTable} {n : Nominal} {d : TypeDecl} (found : find? table n = some d) :
    d ∈ table ∧ d.nominal = n := by
  refine ⟨List.mem_of_find?_eq_some found, ?_⟩
  have named := List.find?_some found
  simpa using named

/-- Seen as a supertype, a reference nests no more parameters than it does itself. -/
theorem depthAll_search_le {table : TypeTable} {bound : Nominal → Nat} (bounded : Bounded table bound)
    (target : Nominal) (fuel : Nat) (visited : List Nominal) (decl : Nominal) (args view : List Ty)
    (found : (search table target fuel visited decl args).2 = some view) :
    depthAll bound view ≤ bound decl + depthAll bound args := by
  induction fuel generalizing visited decl args with
  | zero => simp [search] at found
  | succ fuel ih =>
    rw [search_succ] at found
    split_ifs at found with atTarget old
    · have same : args = view := by simpa using found
      subst same
      omega
    · cases known : find? table decl with
      | none => simp [known] at found
      | some d =>
        rw [known] at found
        obtain ⟨member, named⟩ := find?_nominal known
        obtain ⟨super, superMember, seen, n, superArgs, applied, behind⟩ := found_behind_super found rfl
        have viewLe := ih seen n superArgs behind
        have appliedLe := depth_apply_le bound (Subst.ofLists d.params args) (depthAll bound args)
          (fun v t here => depth_le_depthAll bound (find?_ofLists_mem here)) super
        have superLe := bounded d member super superMember
        rw [applied, depth] at appliedLe
        rw [named] at superLe
        omega

/-- How many declarations have not been visited. -/
def unvisited (table : TypeTable) (visited : List Nominal) : Nat :=
  List.countP (fun d => !visited.contains d.nominal) table

theorem unvisited_mono (table : TypeTable) {visited more : List Nominal} (sub : visited ⊆ more) :
    unvisited table more ≤ unvisited table visited := by
  refine List.countP_mono_left fun d _ fresh => ?_
  simp only [Bool.not_eq_true', List.contains_eq_mem, decide_eq_false_iff_not] at fresh ⊢
  exact fun member => fresh (sub member)

theorem unvisited_cons_lt {table : TypeTable} {visited : List Nominal} {d : TypeDecl} (member : d ∈ table)
    (fresh : d.nominal ∉ visited) : unvisited table (d.nominal :: visited) < unvisited table visited := by
  induction table with
  | nil => simp at member
  | cons e table ih =>
    have tailLe := unvisited_mono table (List.subset_cons_self d.nominal visited)
    unfold unvisited at ih tailLe ⊢
    rw [List.countP_cons, List.countP_cons]
    rcases List.mem_cons.mp member with same | later
    · subst same
      simp only [List.contains_eq_mem, List.mem_cons, fresh]
      simp
      simp at tailLe
      omega
    · have tailLt := ih later
      by_cases known : e.nominal ∈ visited
      · simp [known] at tailLt ⊢
        omega
      · by_cases same : e.nominal = d.nominal
        · simp [same, fresh] at tailLt ⊢
          omega
        · simp [known, same] at tailLt ⊢
          omega

private theorem follow_grows {next : List Nominal → Nominal → List Ty → Trail}
    (grows : ∀ seen n args, seen ⊆ (next seen n args).1) (s : Subst) (supers : List Ty) (trail : Trail) :
    trail.1 ⊆ (supers.foldl (follow next s) trail).1 := by
  induction supers generalizing trail with
  | nil => exact List.Subset.refl _
  | cons super supers ih =>
    refine List.Subset.trans ?_ (ih (follow next s trail super))
    obtain ⟨seen, found⟩ := trail
    cases found with
    | some view => exact List.Subset.refl _
    | none =>
      unfold follow
      dsimp only
      split
      · exact grows seen _ _
      · exact List.Subset.refl _

theorem search_grows (table : TypeTable) (target : Nominal) (fuel : Nat) (visited : List Nominal)
    (decl : Nominal) (args : List Ty) : visited ⊆ (search table target fuel visited decl args).1 := by
  induction fuel generalizing visited decl args with
  | zero => exact List.Subset.refl _
  | succ fuel ih =>
    rw [search_succ]
    split_ifs
    · exact List.Subset.refl _
    · exact List.Subset.refl _
    · cases find? table decl with
      | none => exact List.subset_cons_self decl visited
      | some d =>
        refine List.Subset.trans (List.subset_cons_self decl visited) ?_
        exact follow_grows ih _ d.supers (decl :: visited, none)

/-- Every nested search has visited one more declaration, so a search that starts with more steps than
there are unvisited declarations does not depend on their number. -/
theorem search_stable (table : TypeTable) (target : Nominal) (fuel more : Nat) (visited : List Nominal)
    (decl : Nominal) (args : List Ty) (enough : unvisited table visited < fuel)
    (enoughMore : unvisited table visited < more) :
    search table target fuel visited decl args = search table target more visited decl args := by
  induction fuel generalizing more visited decl args with
  | zero => omega
  | succ fuel ih =>
    obtain ⟨rest, rfl⟩ : ∃ rest, more = rest + 1 := ⟨more - 1, by omega⟩
    rw [search_succ, search_succ]
    by_cases atTarget : decl == target
    · rw [if_pos atTarget, if_pos atTarget]
    rw [if_neg atTarget, if_neg atTarget]
    by_cases old : visited.contains decl
    · rw [if_pos old, if_pos old]
    rw [if_neg old, if_neg old]
    cases known : find? table decl with
    | none => rfl
    | some d =>
      obtain ⟨member, named⟩ := find?_nominal known
      have fresh : d.nominal ∉ visited := by simpa [named] using old
      have fewer := unvisited_cons_lt member fresh
      rw [named] at fewer
      have folds : ∀ (supers : List Ty) (trail : Trail), unvisited table trail.1 ≤ unvisited table (decl :: visited) →
          supers.foldl (follow (search table target fuel) (Subst.ofLists d.params args)) trail =
            supers.foldl (follow (search table target rest) (Subst.ofLists d.params args)) trail := by
        intro supers
        induction supers with
        | nil => intro trail _; rfl
        | cons super supers foldIh =>
          intro trail seenLe
          have same : follow (search table target fuel) (Subst.ofLists d.params args) trail super =
              follow (search table target rest) (Subst.ofLists d.params args) trail super := by
            obtain ⟨seen, found⟩ := trail
            cases found with
            | some view => rfl
            | none =>
              dsimp only at seenLe
              unfold follow
              dsimp only
              split
              · exact ih rest seen _ _ (by omega) (by omega)
              · rfl
          rw [List.foldl_cons, List.foldl_cons, same]
          refine foldIh _ (Nat.le_trans (unvisited_mono table ?_) seenLe)
          exact follow_grows (search_grows table target rest) _ [super] trail
      exact folds d.supers (decl :: visited, none) (Nat.le_refl _)

/-! ## Questions over a bounded table -/

private theorem sizeOf_arg_lt (d : Nominal) {t : Ty} {args : List Ty} (member : t ∈ args) :
    sizeOf t < sizeOf (Ty.ref d args) := by
  have inList := List.sizeOf_lt_of_mem member
  simp only [Ty.ref.sizeOf_spec]
  omega

private theorem further_ref {table : TypeTable} {d d' : Nominal} {args args' : List Ty} {questions : List (Ty × Ty)}
    (seen : consider table (.ref d args) (.ref d' args') = .further questions) :
    ∃ view, viewAs table d' args' d = some view ∧ questions = args.zip view := by
  simp only [consider] at seen
  cases viewed : viewAs table d' args' d with
  | none => simp [viewed] at seen
  | some view =>
    simp only [viewed] at seen
    split_ifs at seen
    exact ⟨view, rfl, (Verdict.further.inj seen).symm⟩

/-- A further question has parameters nested less deeply in its two types taken together, or just as
deeply with a smaller slot. Parameters change sides, which is why the depths are added. -/
theorem further_smaller {table : TypeTable} {bound : Nominal → Nat} (bounded : Bounded table bound)
    {slot value : Ty} {questions : List (Ty × Ty)} (seen : consider table slot value = .further questions)
    {q : Ty × Ty} (member : q ∈ questions) :
    depth bound q.1 + depth bound q.2 < depth bound slot + depth bound value ∨
      depth bound q.1 + depth bound q.2 ≤ depth bound slot + depth bound value ∧ sizeOf q.1 < sizeOf slot := by
  cases slot with
  | nullable inner =>
    refine .inr ?_
    cases value <;> simp only [consider, Verdict.further.injEq, reduceCtorEq] at seen <;>
      (subst seen; rw [List.mem_singleton] at member; subst member; simp [depth])
  | function params result =>
    cases value with
    | function params' result' =>
      simp only [consider] at seen
      split_ifs at seen
      all_goals
        rw [← Verdict.further.inj seen] at member
        rcases List.mem_append.mp member with swapped | last
      · obtain ⟨p, zipped, rfl⟩ := List.mem_map.mp swapped
        have left := depth_le_depthAll bound (List.of_mem_zip zipped).1
        have right := depth_le_depthAll bound (List.of_mem_zip zipped).2
        simp only [depth]
        omega
      · simp at last
      · obtain ⟨p, zipped, rfl⟩ := List.mem_map.mp swapped
        have left := depth_le_depthAll bound (List.of_mem_zip zipped).1
        have right := depth_le_depthAll bound (List.of_mem_zip zipped).2
        simp only [depth]
        omega
      · rw [List.mem_singleton] at last
        subst last
        simp only [depth, Ty.function.sizeOf_spec]
        omega
    | _ => simp [consider] at seen
  | ref d args =>
    cases value with
    | ref d' args' =>
      obtain ⟨view, viewed, rfl⟩ := further_ref seen
      have left := depth_le_depthAll bound (List.of_mem_zip member).1
      have right := depth_le_depthAll bound (List.of_mem_zip member).2
      have viewLe := depthAll_search_le bounded d _ [] d' args' view viewed
      have smaller := sizeOf_arg_lt d (List.of_mem_zip member).1
      simp only [depth]
      omega
    | _ => simp [consider] at seen
  | _ => cases value <;> simp [consider] at seen

/-- Where the nesting of parameters in supertypes is bounded, every question has an answer. -/
theorem finishes_of_bounded {table : TypeTable} {bound : Nominal → Nat} (bounded : Bounded table bound)
    (slot value : Ty) : Finishes table slot value := by
  have measured : WellFounded fun (next q : Ty × Ty) =>
      Prod.Lex (· < ·) (· < ·) (depth bound next.1 + depth bound next.2, sizeOf next.1)
        (depth bound q.1 + depth bound q.2, sizeOf q.1) :=
    InvImage.wf (fun q : Ty × Ty => (depth bound q.1 + depth bound q.2, sizeOf q.1))
      (WellFoundedRelation.wf (α := Nat × Nat))
  refine finishes_of_acc table (slot, value) (Subrelation.accessible ?_ (measured.apply (slot, value)))
  rintro next q ⟨before, after, seen, -⟩
  rcases further_smaller bounded seen (q := next) (by simp) with shallower | ⟨asDeep, smaller⟩
  · exact Prod.Lex.left _ _ shallower
  · rcases Nat.lt_or_eq_of_le asDeep with less | same
    · exact Prod.Lex.left _ _ less
    · rw [same]; exact Prod.Lex.right _ smaller

/-- The number of steps of a view does not matter once it exceeds the number of declarations. -/
theorem search_eq_viewAs (table : TypeTable) (decl target : Nominal) (args : List Ty) (fuel : Nat)
    (enough : List.length table < fuel) : (search table target fuel [] decl args).2 = viewAs table decl args target := by
  have few : unvisited table [] ≤ List.length table := List.countP_le_length
  rw [viewAs, search_stable table target fuel (List.length table + 2) [] decl args (by omega) (by omega)]

/-- When acceptance comes to an end: views always do, whatever the supertypes are; a question does
exactly if no endless chain of questions leads on from it; and none does over a table that bounds the
nesting of parameters in its supertypes. -/
theorem acceptance_ends_iff_no_endless_chain (table : TypeTable) (slot value : Ty) :
    (∀ decl target args fuel, List.length table < fuel →
      (search table target fuel [] decl args).2 = viewAs table decl args target) ∧
    (Finishes table slot value ↔
      ¬ ∃ chain : Nat → Ty × Ty, chain 0 = (slot, value) ∧ ∀ n, Asks table (chain n) (chain (n + 1))) ∧
    ((∃ bound, Bounded table bound) → Finishes table slot value) := by
  refine ⟨?_, finishes_iff_no_chain table slot value, ?_⟩
  · intro decl target args fuel enough
    exact search_eq_viewAs table decl target args fuel enough
  · rintro ⟨bound, bounded⟩
    exact finishes_of_bounded bounded slot value

/-- An interface with a parameter. -/
def taker : Nominal := ⟨"Taker", true⟩

/-- A generic class whose supertype is a `taker` of functions of its parameter. -/
def listener : Nominal := ⟨"Listener", false⟩

/-- `interface Taker<Z>` and `class Listener<T> implements Taker<(T) -> void>`. -/
def listenerTable : TypeTable :=
  [⟨taker, [⟨"Z", 0⟩], []⟩,
   ⟨listener, [⟨"T", 1⟩], [.ref taker [.function [.var ⟨"T", 1⟩] .void]]⟩]

theorem listenerTable_ends :
    Finishes listenerTable (.ref taker [.function [.number] .void]) (.ref listener [.number]) := by
  refine (acceptance_ends_iff_no_endless_chain _ _ _).2.2 ⟨fun n => if n = listener then 1 else 0, ?_⟩
  intro d member super superMember
  simp only [listenerTable, List.mem_cons, List.not_mem_nil, or_false] at member
  rcases member with rfl | rfl
  · simp at superMember
  · simp only [List.mem_singleton] at superMember
    subst superMember
    decide

/-! ## A chain that does not end -/

/-- A declaration names another as a direct supertype. -/
def Extends (table : TypeTable) (sub super : Nominal) : Prop :=
  ∃ d ∈ table, d.nominal = sub ∧ ∃ args, Ty.ref super args ∈ d.supers

/-- No declaration inherits from itself. -/
def Acyclic (table : TypeTable) : Prop := ∀ n, ¬ Relation.TransGen (Extends table) n n

/-- A class whose supertype mentions it below two function parameters. -/
def knot : Nominal := ⟨"Knot", false⟩

/-- `Taker<(Knot) -> void>`. -/
def knotSlot : Ty := .ref taker [.function [.ref knot []] .void]

/-- `interface Taker<Z>` and `class Knot implements Taker<(Taker<(Knot) -> void>) -> void>`. -/
def knotTable : TypeTable :=
  [⟨taker, [⟨"Z", 0⟩], []⟩,
   ⟨knot, [], [.ref taker [.function [knotSlot] .void]]⟩]

private theorem knotTable_extends {sub super : Nominal} (direct : Extends knotTable sub super) :
    sub = knot ∧ super = taker := by
  obtain ⟨d, member, named, args, listed⟩ := direct
  simp only [knotTable, List.mem_cons, List.not_mem_nil, or_false] at member
  rcases member with rfl | rfl
  · simp at listed
  · simp only [List.mem_singleton, Ty.ref.injEq] at listed
    exact ⟨named.symm, listed.1⟩

private theorem knotTable_acyclic : Acyclic knotTable := by
  intro n cycle
  -- the only supertype has none itself, so a path of supertypes has one step
  have single : ∀ m, Relation.TransGen (Extends knotTable) n m → n = knot ∧ m = taker := by
    intro m path
    induction path with
    | single direct => exact knotTable_extends direct
    | tail _ direct ih => exact ⟨ih.1, (knotTable_extends direct).2⟩
  obtain ⟨isKnot, isTaker⟩ := single n cycle
  rw [isKnot] at isTaker
  exact absurd isTaker (by decide)

/-- Whether a slot for takers takes a knot comes down to the same question again, after its two
types have changed sides twice. -/
theorem knot_question_never_ends :
    Acyclic knotTable ∧ ¬ Finishes knotTable knotSlot (.ref knot []) := by
  refine ⟨knotTable_acyclic, fun finishes => ?_⟩
  let asked : Ty × Ty := (knotSlot, .ref knot [])
  let swapped : Ty × Ty := (.function [.ref knot []] .void, .function [knotSlot] .void)
  refine (finishes_iff_no_chain _ _ _).mp finishes ⟨fun n => if n % 2 = 0 then asked else swapped, rfl, ?_⟩
  intro n
  have there : Asks knotTable asked swapped := ⟨[], [], rfl, by simp⟩
  have back : Asks knotTable swapped asked := ⟨[], [], rfl, by simp⟩
  rcases Nat.mod_two_eq_zero_or_one n with even | odd
  · have next : (n + 1) % 2 = 1 := by omega
    simpa [even, next] using there
  · have next : (n + 1) % 2 = 0 := by omega
    simpa [odd, next] using back

end ClassScript.TypeTable
