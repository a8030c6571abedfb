import ClassScript.Proofs.MemberResolution
import ClassScript.Proofs.TypeParameters
import ClassScript.Proofs.Views

/-!
Member types and type arguments. A member is seen through its owner's parameters, which stand for what the chain of
supertypes makes of the receiver's arguments. Seeing it through a class with its own parameters as arguments and then
putting types in for them is the same as seeing it through the class with those types
(`member_types_commute_with_arguments`), since no type that is written above the class mentions its parameters. The
type of an inherited field that was found by looking at its initial value may mention them
(`inferred_type_keeps_parameter`).
-/

namespace ClassScript

/-! ## Putting types in twice -/

/-- Putting types in for the parameters, and then for what is left, is putting them in at once, if what is not bound
at first stays. -/
theorem Ty.apply_ofLists {params : List TypeVar} {args : List Ty} {s : Subst} (t : Ty)
    (unbound : ∀ v ∈ t.vars, (Subst.ofLists params args).find? v = none → s.find? v = none) :
    (t.apply (.ofLists params args)).apply s = t.apply (.ofLists params (Ty.applyAll s args)) := by
  refine Ty.apply_apply t fun v occurs => ?_
  rw [Ty.applyAll_eq]
  simp only [Ty.apply, Subst.find?_ofLists_map]
  cases bound : (Subst.ofLists params args).find? v with
  | none => simp [Ty.apply, unbound v occurs bound]
  | some u => rfl

namespace TypeTable

variable {table : TypeTable} {target root : Nominal} {s : Subst}

/-- A trail with types put in for variables of what was found. -/
def Trail.under (s : Subst) (trail : Trail) : Trail := (trail.1, trail.2.map (Ty.applyAll s))

/-- Only declarations other than `root` are ahead: the variables of their supertypes are left alone. -/
structure Apart (table : TypeTable) (root : Nominal) (s : Subst) : Prop where
  refs : ∀ d ∈ table, ∀ super ∈ d.supers, ∃ n as, super = Ty.ref n as
  unbound : ∀ d ∈ table, d.nominal ≠ root → ∀ super ∈ d.supers, ∀ v ∈ super.vars, s.find? v = none

/-- Where the search behind each supertype commutes with putting types in, so does the search behind all of them. -/
theorem foldl_follow_under {next : List Nominal → Nominal → List Ty → Trail} {q q' : Subst}
    (each : ∀ seen n as, root ∈ seen → next seen n (Ty.applyAll s as) = (next seen n as).under s)
    (grows : ∀ seen n as, seen ⊆ (next seen n as).1) {supers : List Ty}
    (refs : ∀ super ∈ supers, ∃ n as, super = Ty.ref n as)
    (applied : ∀ super ∈ supers, super.apply q' = (super.apply q).apply s) {t : Trail} (begun : root ∈ t.1) :
    supers.foldl (follow next q') (t.under s) = (supers.foldl (follow next q) t).under s := by
  induction supers generalizing t with
  | nil => rfl
  | cons super supers ih =>
    obtain ⟨seen, found⟩ := t
    cases found with
    | some view =>
      rw [foldl_follow_found]
      exact foldl_follow_found ..
    | none =>
      obtain ⟨n, as, rfl⟩ := refs _ List.mem_cons_self
      have first : follow next q' (seen, none) (.ref n as) = (follow next q (seen, none) (.ref n as)).under s := by
        have here := applied _ List.mem_cons_self
        simp only [Ty.apply, Ty.ref.injEq, true_and] at here
        simp only [follow, Ty.apply, here]
        exact each seen n _ begun
      rw [List.foldl_cons, List.foldl_cons]
      change supers.foldl (follow next q') (follow next q' (seen, none) (.ref n as)) = _
      rw [first]
      refine ih (fun _ later => refs _ (List.mem_cons_of_mem _ later)) (fun _ later => applied _ (List.mem_cons_of_mem _ later)) ?_
      simp only [follow, Ty.apply]
      exact grows seen n _ begun

/-- A search that has left `root` behind commutes with putting types in. -/
theorem search_under (apart : Apart table root s) (fuel : Nat) (visited : List Nominal) (decl : Nominal) (args : List Ty)
    (behind : root ∈ visited) :
    search table target fuel visited decl (Ty.applyAll s args) =
      Trail.under s (search table target fuel visited decl args) := by
  induction fuel generalizing visited decl args with
  | zero => rfl
  | succ fuel ih =>
    rw [search_succ, search_succ]
    split_ifs with atTarget old
    · rfl
    · rfl
    · cases known : find? table decl with
      | none => rfl
      | some d =>
        obtain ⟨member, named⟩ := find?_nominal known
        have other : d.nominal ≠ root := by
          rintro same
          rw [named] at same
          exact old (by simpa [same] using behind)
        exact foldl_follow_under (t := (decl :: visited, none)) ih (search_grows table target fuel) (apart.refs d member)
          (fun super listed => (Ty.apply_ofLists super fun v occurs _ => apart.unbound d member other super listed v occurs).symm)
          (List.mem_cons_of_mem decl behind)

/-- What a declaration is seen as, with its own parameters as arguments, becomes what it is seen as with others. -/
theorem viewAs_under {d : TypeDecl} (apart : Apart table d.nominal s) (known : find? table d.nominal = some d)
    {args : List Ty} (own : ∀ v, (Subst.ofLists d.params args).find? v = none → s.find? v = none) (target : Nominal) :
    viewAs table d.nominal (Ty.applyAll s args) target = (viewAs table d.nominal args target).map (Ty.applyAll s) := by
  obtain ⟨member, -⟩ := find?_nominal known
  have searched : search table target (List.length table + 2) [] d.nominal (Ty.applyAll s args) =
      Trail.under s (search table target (List.length table + 2) [] d.nominal args) := by
    rw [search_succ, search_succ, known]
    split_ifs
    · rfl
    · rfl
    · exact foldl_follow_under (t := ([d.nominal], none)) (fun seen n as => search_under apart _ seen n as)
        (search_grows table target _) (apart.refs d member)
        (fun super _ => (Ty.apply_ofLists super fun v _ => own v).symm) List.mem_cons_self
  exact congrArg Prod.snd searched

end TypeTable

/-! ## Variables of types that are written -/

namespace Registry

variable {r : Registry} {n : Nat} {B : DeclSymbol → String → Prop} {d e : DeclSymbol}

/-- A type that is at home in a declaration does not mention the parameters of another one. -/
theorem notMem_params_of_alike (member : d ∈ r) (other : d.name ≠ e.name) {t : Ty}
    (alike : t.Alike (.sparing n (r.Foreign e)) t) {v : TypeVar} (occurs : v ∈ t.vars) : v ∉ d.params := by
  intro isParam
  exact (alike.rel_of_mem_vars occurs).2.2 ⟨d, member, other, v, isParam, rfl⟩

/-- What is not bound by the parameters as their own arguments is no parameter. -/
theorem unbound_of_self {args : List Ty} (d : DeclSymbol) (v : TypeVar)
    (unbound : (Subst.ofLists d.params d.selfArgs).find? v = none) : (Subst.ofLists d.params args).find? v = none := by
  refine Subst.find?_ofLists_of_notMem fun isParam => ?_
  have lengths : d.params.length = d.selfArgs.length := by simp [DeclSymbol.selfArgs]
  have bound := Subst.isSome_find?_ofLists lengths isParam
  rw [unbound] at bound
  cases bound

/-- In the table of a settled registry, only a declaration itself mentions its parameters. -/
theorem Homely.table_apart (homely : r.Homely n B) (member : d ∈ r) (args : List Ty) :
    r.table.Apart d.nominal (.ofLists d.params args) := by
  refine ⟨fun e within super listed => ?_, fun e within differs super listed v occurs => ?_⟩
  · obtain ⟨e', -, rfl⟩ := List.mem_map.1 within
    obtain ⟨⟨n, as⟩, -, rfl⟩ := List.mem_map.1 listed
    exact ⟨n, as, rfl⟩
  · obtain ⟨e', there, rfl⟩ := List.mem_map.1 within
    refine Subst.find?_ofLists_of_notMem (notMem_params_of_alike (e := e') member (fun same => differs ?_)
      (List.forall₂_same.1 (homely.own e' there).supers super listed) occurs)
    rw [eq_of_name homely.names member there same]

/-- What the parameters of an owner stand for, seen through a class with arguments, is what they stand for, seen
through it with its own parameters, with the arguments put in. -/
theorem Homely.viewSubst_under (homely : r.Homely n B) (member : d ∈ r) {args : List Ty}
    (lengths : d.params.length = args.length) {o : DeclSymbol} {owner : Nominal} (found : r.find? owner.name = some o) :
    ∃ view, Typing.viewSubst r d.nominal d.selfArgs owner = .ofLists o.params view ∧
      Typing.viewSubst r d.nominal args owner = .ofLists o.params (Ty.applyAll (.ofLists d.params args) view) ∧
      (owner = d.nominal → view = d.selfArgs) := by
  refine ⟨(r.table.viewAs d.nominal d.selfArgs owner).getD [], by rw [Typing.viewSubst, found], ?_, ?_⟩
  · have known : r.table.find? d.nominal = some ⟨d.nominal, d.params, d.supers⟩ := by
      rw [TypeTable.find?, table, List.find?_map]
      change Option.map _ (List.find? (fun e => e.nominal == d.nominal) r) = _
      rw [find?_nominal homely.names, show r.find? d.nominal.name = some d from find?_of_mem homely.names member]
      simp
    have moved := TypeTable.viewAs_under (d := ⟨d.nominal, d.params, d.supers⟩)
      (homely.table_apart member args) known (unbound_of_self d) owner
    rw [DeclSymbol.selfArgs, Subst.applyAll_ofLists_self (homely.distinct d member) lengths] at moved
    rw [Typing.viewSubst, found]
    dsimp only
    rw [moved, DeclSymbol.selfArgs]
    cases r.table.viewAs d.nominal (d.params.map .var) owner <;> rfl
  · rintro rfl
    rw [TypeTable.viewAs, TypeTable.search_succ, if_pos (beq_self_eq_true _)]
    rfl

end Registry

/-! ## Members of classes -/

namespace Typing

variable {ctx : Context} {r : Registry} {d : DeclSymbol} {scope : Scope} {recv : Receiver} {name : String} {span : Span}
  {m : Member} {symbol : MemberSymbol} {subst : Option Subst}

/-- The type of a member, in terms of the parameters of its owner. -/
def MemberSymbol.type? : MemberSymbol → Option Ty
  | .field f => f.type
  | .method m => some m.signature

/-- A member of a declaration. -/
def MemberSymbol.Of (d : DeclSymbol) : MemberSymbol → Prop
  | .field f => f ∈ d.fields
  | .method m => m ∈ d.methods

/-- No parameter of `d` is in the type of a member, unless `d` owns it: it is a method, or a field for which a type
is written or the initial value brought none in. -/
def MemberSymbol.Apart (r : Registry) (d : DeclSymbol) : MemberSymbol → Prop
  | .method _ => True
  | .field f => f.owner = d.nominal ∨ (∀ o ∈ r.find? f.owner.name, f.name ∉ o.decl.untyped) ∨
      ∀ t ∈ f.type, ∀ v ∈ t.vars, v ∉ d.params

instance : ∀ symbol : MemberSymbol, Decidable (symbol.Apart r d)
  | .method _ => .isTrue trivial
  | .field f => inferInstanceAs (Decidable (f.owner = d.nominal ∨ (∀ o ∈ r.find? f.owner.name, f.name ∉ o.decl.untyped) ∨
      ∀ t ∈ f.type, ∀ v ∈ t.vars, v ∉ d.params))

/-- The type of a member that is read through a receiver. -/
def readMember (scope : Scope) (recv : Receiver) (name : String) (span : Span) : Analysis Ty := do
  (← useMember scope recv name span).type

/-- The member of a class is a member of a declaration, which owns it. -/
theorem member?_of_class {p : LinkedProgram} (describes : r.Describes p) (declared : recv.decl ∈ r)
    (isClass : recv.decl.nominal.isInterface = false) (found : member? r recv name = some (symbol, subst)) :
    ∃ e ∈ r, symbol.owner = e.nominal ∧ symbol.Of e := by
  have above {e : DeclSymbol} (within : e ∈ r.ancestors recv.decl) : e ∈ r :=
    (Registry.line_ancestors describes declared).2.2 within
  rcases member?_class isClass found with ⟨f, rfl, isField⟩ | ⟨m, rfl, -, isMethod⟩
  · obtain ⟨e, within, isField⟩ := List.exists_of_findSome?_eq_some isField
    have member := List.mem_of_find?_eq_some isField
    obtain ⟨_, -, symbolizes⟩ := mem_of_forall₂_right (describes.membered e (above within)).fields member
    exact ⟨e, above within, symbolizes.owner, member⟩
  · obtain ⟨e, within, isMethod⟩ := List.exists_of_findSome?_eq_some isMethod
    have member := List.mem_of_find?_eq_some (Option.filter_eq_some_iff.1 isMethod).1
    obtain ⟨_, -, symbolizes⟩ := mem_of_forall₂_right (describes.membered e (above within)).methods member
    exact ⟨e, above within, symbolizes.owner, member⟩

/-- A member of a class is used with what the arguments of the receiver make its owner's parameters stand for. -/
theorem gives_useMember_class (isClass : recv.decl.nominal.isInterface = false)
    (gives : Gives (useMember scope recv name span) ctx m) :
    member? ctx.registry recv name = some (m.symbol, none) ∧
      m.subst = viewSubst ctx.registry recv.decl.nominal recv.args m.symbol.owner := by
  obtain ⟨_, isRead, gives⟩ := gives_bind gives
  rw [gives_read isRead] at gives
  dsimp only at gives
  rcases found : member? ctx.registry recv name with _ | ⟨symbol, subst⟩
  · rw [found] at gives
    exact absurd gives not_gives_reject
  · rw [found] at gives
    obtain ⟨_, -, gives⟩ := gives_bind gives
    obtain ⟨_, -, gives⟩ := gives_bind gives
    obtain ⟨_, -, gives⟩ := gives_bind gives
    obtain ⟨_, -, gives⟩ := gives_bind gives
    obtain rfl := gives_pure gives
    obtain rfl : subst = none := by
      simp only [member?, isClass, Bool.false_eq_true, if_false] at found
      split at found
      · cases found
        rfl
      · obtain ⟨_, -, same⟩ := Option.map_eq_some_iff.1 found
        cases same
        rfl
    exact ⟨rfl, rfl⟩

/-- Whether a member of a class may be used does not depend on the arguments of the receiver. -/
theorem gives_useMember_args (isClass : d.nominal.isInterface = false) {isStatic : Bool} {args : List Ty}
    (gives : Gives (useMember scope ⟨d, args, isStatic⟩ name span) ctx m) (args' : List Ty) :
    ∃ m', Gives (useMember scope ⟨d, args', isStatic⟩ name span) ctx m' := by
  obtain ⟨p, q, ran⟩ := gives
  have found : member? ctx.registry ⟨d, args', isStatic⟩ name = member? ctx.registry ⟨d, args, isStatic⟩ name := by
    simp only [member?, isClass, Bool.false_eq_true, if_false]
  obtain ⟨_, p₁, isRead, ran⟩ := ran_bind ran
  cases isRead
  dsimp only at ran
  rcases here : member? ctx.registry ⟨d, args, isStatic⟩ name with _ | ⟨symbol, subst⟩
  · rw [here] at ran
    cases ran
  · rw [here] at ran
    obtain ⟨_, p₁, ran₁, ran⟩ := ran_bind ran
    obtain ⟨_, p₂, ran₂, ran⟩ := ran_bind ran
    obtain ⟨_, p₃, ran₃, ran⟩ := ran_bind ran
    obtain ⟨_, p₄, ran₄, ran⟩ := ran_bind ran
    refine ⟨⟨symbol, subst.getD (viewSubst ctx.registry d.nominal args' symbol.owner)⟩, p, p₄, ?_⟩
    refine bind_ran (a := ctx) rfl ?_
    dsimp only
    rw [found, here]
    exact bind_ran ran₁ (bind_ran ran₂ (bind_ran ran₃ (bind_ran ran₄ rfl)))

theorem type_eq_pure {t : Ty} (known : m.symbol.type? = some t) : m.type = pure (t.apply m.subst) := by
  obtain ⟨symbol, subst⟩ := m
  cases symbol with
  | field f =>
    have known : f.type = some t := known
    simp only [Member.type, known]
  | method m =>
    obtain rfl := Option.some.inj known
    rfl

/-! ## Their types -/

/-- The type of a member of a settled declaration is known, and has no variables that are foreign there, except that of
a field for which none is written. -/
theorem Settled.type?_of (settled : Settled r) {e : DeclSymbol} (member : e ∈ r) (isMember : symbol.Of e) :
    ∃ t, symbol.type? = some t ∧ ∀ d ∈ r, d.name ≠ e.name →
      (∀ f, symbol = .field f → f.name ∉ e.decl.untyped) → ∀ v ∈ t.vars, v ∉ d.params := by
  obtain ⟨n, homely⟩ := settled.homely
  have own := homely.own e member
  cases symbol with
  | field f =>
    obtain ⟨t, known⟩ := Option.isSome_iff_exists.1 (settled.typed e member f isMember)
    refine ⟨t, known, fun d within other written v occurs => ?_⟩
    have types := (List.forall₂_same.1 own.fields f isMember).type.resolve_left (written f rfl)
    rw [known] at types
    cases types with
    | some alike => exact Registry.notMem_params_of_alike within other alike occurs
  | method m =>
    refine ⟨m.signature, rfl, fun d within other _ v occurs => ?_⟩
    exact Registry.notMem_params_of_alike within other (List.forall₂_same.1 own.methods m isMember).signature occurs

/-- Variables of a member's type that are not bound on the way from its owner are no parameters of the class. -/
theorem Settled.unbound (settled : Settled r) (declared : d ∈ r) {e : DeclSymbol} (above : e ∈ r)
    (owner : symbol.owner = e.nominal) (isMember : symbol.Of e) (apart : symbol.Apart r d) {t : Ty}
    (known : symbol.type? = some t) {view args : List Ty} (atHome : symbol.owner = d.nominal → view = d.selfArgs)
    {v : TypeVar} (occurs : v ∈ t.vars) (free : (Subst.ofLists e.params view).find? v = none) :
    (Subst.ofLists d.params args).find? v = none := by
  obtain ⟨n, homely⟩ := settled.homely
  obtain ⟨t', known', noForeign⟩ := settled.type?_of above isMember
  obtain rfl := Option.some.inj (known.symm.trans known')
  by_cases here : symbol.owner = d.nominal
  · obtain rfl : e = d := Registry.eq_of_name homely.names above declared (congrArg Nominal.name (owner.symm.trans here))
    rw [atHome here] at free
    exact Registry.unbound_of_self e v free
  · have other : d.name ≠ e.name := fun same =>
      here (owner.trans (congrArg DeclSymbol.nominal (Registry.eq_of_name homely.names declared above same).symm))
    refine Subst.find?_ofLists_of_notMem ?_
    cases symbol with
    | field f =>
      rcases apart with isOwn | written | absent
      · exact absurd isOwn here
      · refine noForeign d declared other (fun _ same => ?_) v occurs
        obtain rfl := MemberSymbol.field.inj same
        refine written e ?_
        rw [show f.owner = e.nominal from owner]
        exact Registry.find?_of_mem homely.names above
      · exact absent t known v occurs
    | method m => exact noForeign d declared other (fun _ same => by cases same) v occurs

/-- The type of a member that is read through a class with arguments is the type that is read through the class with
its own parameters, with the arguments put in for them. -/
theorem member_types_commute_with_arguments {p : LinkedProgram} {c : Checked} (accepted : p.check = .ok c)
    (declared : d ∈ c.registry) (isClass : d.nominal.isInterface = false) {args : List Ty}
    (lengths : args.length = d.params.length) (known : ctx.registry = c.registry) {t : Ty}
    (reads : Gives (readMember scope ⟨d, d.selfArgs, false⟩ name span) ctx t)
    (apart : ∀ symbol, member? c.registry ⟨d, d.selfArgs, false⟩ name = some (symbol, none) → symbol.Apart c.registry d) :
    ∀ u, Gives (readMember scope ⟨d, args, false⟩ name span) ctx u ↔ u = t.apply (.ofLists d.params args) := by
  have settled : Settled c.registry := settled_of_declare rfl (declares_of_check accepted)
  obtain ⟨n, homely⟩ := settled.homely
  obtain ⟨m, uses, reads⟩ := gives_bind reads
  obtain ⟨found, view⟩ := gives_useMember_class isClass uses
  rw [known] at found view
  obtain ⟨e, above, owner, isMember⟩ := member?_of_class (describes_of_check accepted) declared isClass found
  obtain ⟨own, hasType, -⟩ := settled.type?_of above isMember
  have isOwner : c.registry.find? m.symbol.owner.name = some e := by
    rw [owner]
    exact Registry.find?_of_mem homely.names above
  obtain ⟨args₀, self, others, atHome⟩ := homely.viewSubst_under declared lengths.symm isOwner
  have moved : t.apply (.ofLists d.params args) = own.apply (viewSubst c.registry d.nominal args m.symbol.owner) := by
    rw [type_eq_pure hasType] at reads
    rw [gives_pure reads, view, self, others]
    exact Ty.apply_ofLists own fun v => settled.unbound declared above owner isMember (apart _ found) hasType atHome
  -- the same member is read through the class with other arguments
  have same {m' : Member} (uses' : Gives (useMember scope ⟨d, args, false⟩ name span) ctx m') :
      m'.type = pure (t.apply (.ofLists d.params args)) := by
    obtain ⟨found', view'⟩ := gives_useMember_class isClass uses'
    rw [known] at found' view'
    have sameSymbol : m'.symbol = m.symbol := by
      simp only [member?, isClass, Bool.false_eq_true, if_false] at found found'
      rw [found] at found'
      exact (Prod.mk.inj (Option.some.inj found')).1.symm
    rw [type_eq_pure (t := own) (by rw [sameSymbol, hasType]), view', sameSymbol, moved]
  intro u
  constructor
  · intro reads'
    obtain ⟨m', uses', types'⟩ := gives_bind reads'
    rw [same uses'] at types'
    exact gives_pure types'
  · rintro rfl
    obtain ⟨m', p, q, ran⟩ := gives_useMember_args isClass uses args
    exact ⟨p, q, bind_ran ran (by rw [same ⟨p, q, ran⟩]; rfl)⟩

/-- What is read of a class depends on nothing but the member. -/
theorem readMember_unique {p : LinkedProgram} {c : Checked} (accepted : p.check = .ok c) (known : ctx.registry = c.registry)
    (declared : recv.decl ∈ c.registry) (isClass : recv.decl.nominal.isInterface = false) {t u : Ty}
    (reads : Gives (readMember scope recv name span) ctx t) (reads' : Gives (readMember scope recv name span) ctx u) :
    t = u := by
  have settled : Settled c.registry := settled_of_declare rfl (declares_of_check accepted)
  obtain ⟨m, uses, types⟩ := gives_bind reads
  obtain ⟨m', uses', types'⟩ := gives_bind reads'
  obtain ⟨found, view⟩ := gives_useMember_class isClass uses
  obtain ⟨found', view'⟩ := gives_useMember_class isClass uses'
  have same : m.symbol = m'.symbol := by
    rw [found] at found'
    exact (Prod.mk.inj (Option.some.inj found')).1
  rw [known] at found
  obtain ⟨e, above, -, isMember⟩ := member?_of_class (describes_of_check accepted) declared isClass found
  obtain ⟨own, hasType, -⟩ := settled.type?_of above isMember
  rw [type_eq_pure hasType] at types
  rw [type_eq_pure (same ▸ hasType)] at types'
  rw [gives_pure types, gives_pure types', view, view', same]

end Typing

/-! ## A type that is written, and one that is not -/

open Sample

/-- The type of a public member of an instance of a class with arguments. -/
def Checked.reads? (c : Checked) (d : DeclSymbol) (args : List Ty) (name : String) : Option Ty :=
  ((Typing.readMember .global ⟨d, args, false⟩ name Span.none) ⟨c.registry, "main.clasp", [], .void⟩ ⟨0, [], []⟩).toOption.map
    (·.1)

/-- The variable that a type is. -/
def Ty.var? : Ty → Option TypeVar
  | .var v => some v
  | _ => none

/-- `open class Box<T> { public value: T?; }`, `class C<A> extends Box<A?> { }` -/
def boxed : LinkedProgram :=
  .ofProgram ⟨"main.clasp",
    [.declares (parametric ["T"] (cls "Box" none [declared false "value" (.simple default "T" true)] [])),
      .declares { parametric ["A"] (cls "C" none [] []) with
        heading := .ofClass false (some (.generic default "Box" [.simple default "A" true] false)) [] }],
    default⟩

/-- The member `value` of `C` has the nullable type of its parameter. -/
abbrev Checked.Boxes (c : Checked) (d : DeclSymbol) : Prop :=
  d.name = "C" ∧ d.nominal.isInterface = false ∧ d.params.length = 1 ∧
    (((c.reads? d d.selfArgs "value").filter fun t => t.unwrap.2).map Ty.base).bind Ty.var? = d.params.head? ∧
    ∀ found ∈ Typing.member? c.registry ⟨d, d.selfArgs, false⟩ "value", found.1.Apart c.registry d

theorem gives_of_reads? {c : Checked} {d : DeclSymbol} {args : List Ty} {name : String} {t : Ty}
    (reads : c.reads? d args name = some t) :
    Typing.Gives (Typing.readMember .global ⟨d, args, false⟩ name Span.none) ⟨c.registry, "main.clasp", [], .void⟩ t :=
  Typing.gives_of_run reads

/-- Two marks for null are one. -/
theorem boxed_value_is_nullable :
    ∃ c d ctx, boxed.check = .ok c ∧ d ∈ c.registry ∧ d.name = "C" ∧ ctx.registry = c.registry ∧
      Typing.Gives (Typing.readMember .global ⟨d, [.number], false⟩ "value" Span.none) ctx (.nullable .number) := by
  obtain ⟨c, accepted, d, declared, isC, isClass, single, nullable, apart⟩ :=
    exists_accepted (p := boxed) (P := fun c => ∃ d ∈ c.registry, c.Boxes d) (by decide +kernel)
  obtain ⟨v, params⟩ := List.length_eq_one_iff.1 single
  rw [params, List.head?_cons, Option.bind_eq_some_iff] at nullable
  obtain ⟨inner, isInner, isVar⟩ := nullable
  obtain ⟨t, isNullable, rfl⟩ := Option.map_eq_some_iff.1 isInner
  obtain ⟨reads, marked⟩ := Option.filter_eq_some_iff.1 isNullable
  refine ⟨c, d, ⟨c.registry, "main.clasp", [], .void⟩, accepted, declared, isC, rfl, ?_⟩
  refine (Typing.member_types_commute_with_arguments accepted declared isClass (by rw [single]; rfl) rfl
    (gives_of_reads? reads) (fun symbol found => apart (symbol, none) found) _).2 ?_
  cases t with
  | nullable t =>
    cases t with
    | var w =>
      obtain rfl := Option.some.inj isVar
      rw [params]
      simp [Ty.apply, Subst.ofLists, Subst.bind, Subst.find?, Ty.orNull]
    | _ => cases isVar
  | _ => cases marked

/-- `open class O { public x = C.y; }`, `class C<T> extends O { public static y: T; }` -/
def inferring : LinkedProgram :=
  .ofProgram ⟨"main.clasp",
    [.declares (cls "O" none [field "x" (.member default (.name (named "C")) (named "y"))] []),
      .declares (parametric ["T"] (cls "C" (some "O") [declared true "y" (.simple default "T" false)] []))],
    default⟩

/-- The member `x` of `C` has the parameter as its type, whatever the argument is. -/
abbrev Checked.KeepsParameter (c : Checked) (d : DeclSymbol) : Prop :=
  d.nominal.isInterface = false ∧ d.params.length = 1 ∧ ∃ v ∈ d.params,
    (c.reads? d d.selfArgs "x").bind Ty.var? = some v ∧ (c.reads? d [.number] "x").bind Ty.var? = some v

/-- The type of `x` is found by looking at its initial value, and is the parameter of a class that inherits it. It stays
that parameter when the class has an argument. -/
theorem inferred_type_keeps_parameter :
    ∃ c d ctx t, inferring.check = .ok c ∧ d ∈ c.registry ∧ d.nominal.isInterface = false ∧ d.params.length = 1 ∧
      ctx.registry = c.registry ∧
      Typing.Gives (Typing.readMember .global ⟨d, d.selfArgs, false⟩ "x" Span.none) ctx t ∧
      ¬ Typing.Gives (Typing.readMember .global ⟨d, [.number], false⟩ "x" Span.none) ctx
        (t.apply (.ofLists d.params [.number])) := by
  obtain ⟨c, accepted, d, declared, isClass, single, keeps⟩ :=
    exists_accepted (p := inferring) (P := fun c => ∃ d ∈ c.registry, c.KeepsParameter d) (by decide +kernel)
  obtain ⟨v, isParam, isVar, isVar'⟩ := keeps
  obtain ⟨t, reads, isVar⟩ := Option.bind_eq_some_iff.1 isVar
  obtain ⟨t', reads', isVar'⟩ := Option.bind_eq_some_iff.1 isVar'
  refine ⟨c, d, _, t, accepted, declared, isClass, single, rfl, gives_of_reads? reads, fun moved => ?_⟩
  have same := Typing.readMember_unique accepted rfl declared isClass moved (gives_of_reads? reads')
  obtain ⟨w, params⟩ := List.length_eq_one_iff.1 single
  cases t with
  | var w' =>
    obtain rfl := Option.some.inj isVar
    rw [params, List.mem_singleton] at isParam
    rw [params, isParam] at same
    simp [Ty.apply, Subst.ofLists, Subst.bind, Subst.find?] at same
    rw [← same] at isVar'
    cases isVar'
  | _ => cases isVar

end ClassScript
