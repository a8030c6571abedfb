import ClassScript.Proofs.Extents
import ClassScript.Proofs.Gives

/-!
Typing within bounds. A computation stays within bounds if every access that it notes and every fault that it stops at
is one that they allow (`Stays`). There is one rule for each way to put computations together, and one lemma for each
function of typing that has no code in it: it places its faults at the spans that it is given, and uses private members
only where the declaration around it may (`Permitted`).
-/

namespace ClassScript.Typing

/-- What typing may note, and why it may stop. -/
structure Bounds where
  access : Access → Prop
  fault : Diagnostic → Prop

/-- A computation notes only accesses and stops only at faults that the bounds allow. -/
structure Stays {α : Type} (b : Bounds) (c : Context) (x : Analysis α) : Prop where
  notes : ∀ {p a q}, x c p = .ok (a, q) → ∀ u ∈ q.accesses, u ∈ p.accesses ∨ b.access u
  stops : ∀ {p d}, x c p = .error (.rejected d) → b.fault d

namespace Stays

variable {α β : Type} {b b' : Bounds} {c : Context} {x : Analysis α}

theorem mono (stays : Stays b c x) (accesses : ∀ u, b.access u → b'.access u) (faults : ∀ d, b.fault d → b'.fault d) :
    Stays b' c x :=
  ⟨fun ran u noted => (stays.notes ran u noted).imp_right (accesses u), fun ran => faults _ (stays.stops ran)⟩

/-- What notes no accesses and does not stop stays within any bounds. -/
theorem of_ok (succeeds : ∀ p, ∃ a q, x c p = .ok (a, q) ∧ q.accesses = p.accesses) : Stays b c x := by
  refine ⟨fun {p a q} ran u noted => ?_, fun {p d} ran => ?_⟩
  · obtain ⟨a', q', ran', same⟩ := succeeds p
    rw [ran'] at ran
    cases ran
    exact .inl (same ▸ noted)
  · obtain ⟨a', q', ran', -⟩ := succeeds p
    rw [ran'] at ran
    cases ran

theorem pure (a : α) : Stays b c (pure a) := of_ok fun p => ⟨a, p, rfl, rfl⟩

theorem bind {f : α → Analysis β} (first : Stays b c x) (next : ∀ a, Gives x c a → Stays b c (f a)) :
    Stays b c (x >>= f) := by
  have split {p : Progress} {r : Except Stop (β × Progress)} (ran : (x >>= f) c p = r) :
      (∃ stop, x c p = .error stop ∧ r = .error stop) ∨ ∃ a q, x c p = .ok (a, q) ∧ f a c q = r := by
    change (x c p).bind (fun r => f r.1 c r.2) = r at ran
    rcases ended : x c p with stop | ⟨a, q⟩
    · rw [ended] at ran
      exact .inl ⟨stop, rfl, ran.symm⟩
    · rw [ended] at ran
      exact .inr ⟨a, q, rfl, ran⟩
  refine ⟨fun {p a q} ran u noted => ?_, fun {p d} ran => ?_⟩
  · rcases split ran with ⟨_, -, failed⟩ | ⟨a', q', ended, ran⟩
    · cases failed
    · rcases (next a' ⟨p, q', ended⟩).notes ran u noted with early | allowed
      · exact first.notes ended u early
      · exact .inr allowed
  · rcases split ran with ⟨_, ended, failed⟩ | ⟨a', q', ended, ran⟩
    · cases failed
      exact first.stops ended
    · exact (next a' ⟨p, q', ended⟩).stops ran

theorem read {f : Context → Analysis α} (next : Stays b c (f c)) : Stays b c (read >>= f) :=
  bind (of_ok fun p => ⟨c, p, rfl, rfl⟩) fun _ gives => gives_read gives ▸ next

theorem map {f : α → β} (stays : Stays b c x) : Stays b c (f <$> x) := by
  rw [map_eq_pure_bind]
  exact stays.bind fun a _ => pure (f a)

theorem ite {condition : Bool} {y : Analysis α} (yes : condition = true → Stays b c x)
    (no : condition = false → Stays b c y) :
    Stays b c (if condition then x else y) := by
  cases condition with
  | true => exact yes rfl
  | false => exact no rfl

theorem reject {span : Span} {fault : TypeFault}
    (allowed : b.fault ⟨.typing, fault.code, fault.message, span, c.file⟩) :
    Stays b c (reject span fault : Analysis α) := by
  refine ⟨fun ran => ?_, fun ran => ?_⟩
  · cases ran
  · cases ran
    exact allowed

theorem require {condition : Bool} {span : Span} {fault : TypeFault}
    (allowed : condition = false → b.fault ⟨.typing, fault.code, fault.message, span, c.file⟩) :
    Stays b c (require condition span fault) :=
  ite (fun _ => pure ()) fun fails => reject (allowed fails)

theorem note (span : Span) (t : Ty) : Stays b c (note span t) := of_ok fun _ => ⟨_, _, rfl, rfl⟩

theorem noteAccess {span : Span} {owner : Nominal} {isPrivate throughParent : Bool}
    (allowed : b.access ⟨c.file, span, owner, isPrivate, throughParent⟩) :
    Stays b c (noteAccess span owner isPrivate throughParent) := by
  refine ⟨fun ran u noted => ?_, fun ran => ?_⟩
  · cases ran
    rcases List.mem_cons.1 noted with rfl | early
    · exact .inr allowed
    · exact .inl early
  · cases ran

theorem noting {span : Span} {x : Analysis Ty} (stays : Stays b c x) : Stays b c (noting span x) :=
  stays.bind fun t _ => (note span t).bind fun _ _ => pure t

theorem freshVar (name : String) : Stays b c (freshVar name) := of_ok fun _ => ⟨_, _, rfl, rfl⟩

theorem fresh (name : String) : Stays b c (fresh name) := (freshVar name).bind fun _ _ => pure _

theorem accepts (slot value : Ty) : Stays b c (accepts slot value) := by
  refine read ?_
  split
  · exact pure _
  · refine ⟨fun ran => ?_, fun ran => ?_⟩ <;> cases ran

theorem requireAccepts {slot value : Ty} {span : Span} {fault : TypeFault}
    (allowed : b.fault ⟨.typing, fault.code, fault.message, span, c.file⟩) :
    Stays b c (requireAccepts slot value span fault) :=
  (accepts slot value).bind fun _ _ => require fun _ => allowed

theorem withReader {f : Context → Context} (stays : Stays b (f c) x) : Stays b c (withReader f x) :=
  ⟨fun ran => stays.notes ran, fun ran => stays.stops ran⟩

/-! ### Loops -/

theorem mapM {f : α → Analysis β} {items : List α} (each : ∀ a ∈ items, Stays b c (f a)) : Stays b c (items.mapM f) := by
  induction items with
  | nil =>
    rw [List.mapM_nil]
    exact pure []
  | cons a items ih =>
    rw [List.mapM_cons]
    refine (each a List.mem_cons_self).bind fun _ _ => ?_
    exact (ih fun b member => each b (List.mem_cons_of_mem a member)).bind fun _ _ => pure _

theorem forM {f : α → Analysis PUnit} {items : List α} (each : ∀ a ∈ items, Stays b c (f a)) :
    Stays b c (items.forM f) := by
  induction items with
  | nil => exact pure ()
  | cons a items ih =>
    refine (each a List.mem_cons_self).bind fun _ _ => ?_
    exact ih fun b member => each b (List.mem_cons_of_mem a member)

/-- A loop stays within bounds if every step does that starts from what the steps before have preserved. -/
theorem foldlM {f : β → α → Analysis β} {items : List α} {r : β} {I : β → Prop}
    (each : ∀ r, I r → ∀ a ∈ items, Stays b c (f r a)) (step : ∀ r a r', I r → Gives (f r a) c r' → I r')
    (start : I r) :
    Stays b c (items.foldlM f r) := by
  induction items generalizing r with
  | nil =>
    rw [List.foldlM_nil]
    exact pure r
  | cons a items ih =>
    rw [List.foldlM_cons]
    refine (each r start a List.mem_cons_self).bind fun r' gives => ?_
    exact ih (fun r holds a' member => each r holds a' (List.mem_cons_of_mem a member)) (step r a r' start gives)

end Stays

/-! ## Code of a declaration -/

/-- The members of a declaration may use a private one: it is their own or one of their superclass. A constructor may
also call that of its superclass, whoever declares it. -/
inductive Permitted (r : Registry) (around : Option Nominal) (u : Access) : Prop
  | shown (isShown : u.isPrivate = false)
  | own (isOwn : around = some u.owner)
  | parent {d : DeclSymbol} {args : List Ty} (isAround : around.bind (fun n => r.find? n.name) = some d)
    (isParent : d.parent = some (u.owner, args))
  | through {d base : DeclSymbol} {n : Nominal} {args : List Ty} {m : MethodSymbol}
    (throughParent : u.throughParent = true)
    (isAround : around.bind (fun n => r.find? n.name) = some d) (isParent : d.parent = some (n, args))
    (found : r.find? n.name = some base) (isConstructor : r.constructor? base = some m) (isOwner : m.owner = u.owner)

/-- The bounds of code of a declaration: faults and accesses are placed at its spans, in the file that is typed. -/
def Context.bounds (c : Context) (spans : List Span) (around : Option Nominal) : Bounds where
  access u := u.file = c.file ∧ u.span ∈ spans ∧ Permitted c.registry around u
  fault d := d.file = c.file ∧ d.span ∈ spans

/-- Code of a declaration stays within its bounds. -/
abbrev Confined {α : Type} (spans : List Span) (around : Option Nominal) (c : Context) (x : Analysis α) : Prop :=
  Stays (c.bounds spans around) c x

section Parts

variable {α : Type} {c : Context} {spans : List Span} {around : Option Nominal} {scope : Scope}

namespace Confined

theorem reject {span : Span} {fault : TypeFault} (within : span ∈ spans) :
    Confined spans around c (reject span fault : Analysis α) := Stays.reject ⟨rfl, within⟩

theorem require {condition : Bool} {span : Span} {fault : TypeFault} (within : span ∈ spans) :
    Confined spans around c (require condition span fault) := Stays.require fun _ => ⟨rfl, within⟩

theorem requireAccepts {slot value : Ty} {span : Span} {fault : TypeFault} (within : span ∈ spans) :
    Confined spans around c (requireAccepts slot value span fault) := Stays.requireAccepts ⟨rfl, within⟩

theorem noteAccess {span : Span} {owner : Nominal} {isPrivate throughParent : Bool} (within : span ∈ spans)
    (permitted : Permitted c.registry around ⟨c.file, span, owner, isPrivate, throughParent⟩) :
    Confined spans around c (noteAccess span owner isPrivate throughParent) := Stays.noteAccess ⟨rfl, within, permitted⟩

/-- Code with other type parameters in scope, or with another expected result. -/
theorem withReader {f : Context → Context} {x : Analysis α} (confined : Confined spans around (f c) x)
    (sameFile : (f c).file = c.file) (sameRegistry : (f c).registry = c.registry) :
    Confined spans around c (withReader f x) := by
  unfold Confined Context.bounds at confined ⊢
  rw [sameFile, sameRegistry] at confined
  exact Stays.withReader confined

end Confined

/-- What a scope sees is permitted. -/
theorem permitted_of_seesPrivate {r : Registry} {u : Access}
    (sees : (!u.isPrivate || seesPrivate r scope u.owner) = true) : Permitted r scope.owner u := by
  cases hidden : u.isPrivate with
  | false => exact .shown hidden
  | true =>
    rw [hidden] at sees
    unfold seesPrivate at sees
    cases isAround : scope.owner with
    | none => simp [isAround] at sees
    | some n =>
      simp only [isAround, Bool.not_true, Bool.false_or, Bool.or_eq_true] at sees
      rcases sees with isOwn | isParent
      · exact .own (congrArg some (eq_of_beq isOwn))
      · cases found : r.find? n.name with
        | none => simp [found] at isParent
        | some d =>
          simp only [found] at isParent
          obtain ⟨⟨m, args⟩, written, same⟩ := (Option.any_eq_true _ _).1 isParent
          obtain rfl := eq_of_beq same
          exact .parent found written

/-! ### Types -/

theorem named_confined {span : Span} (within : span ∈ spans) (name : String) (args : List Ty) :
    Confined spans around c (named span name args) := by
  refine Stays.read ?_
  split
  · exact (Confined.require within).bind fun _ _ => .pure _
  · split
    · exact (Confined.require within).bind fun _ _ => .pure _
    · split
      · exact (Confined.require within).bind fun _ _ => .pure _
      · exact Stays.fresh name

mutual

theorem written_confined (t : TypeExpr) (within : t.spans ⊆ spans) : Confined spans around c (written t) := by
  have here := within t.span_mem_spans
  cases t with
  | simple m name nullable =>
    rw [written]
    exact (named_confined here name []).bind fun _ _ => .pure _
  | generic m name args nullable =>
    simp only [TypeExpr.spans, List.cons_subset] at within
    rw [written]
    refine (allWritten_confined args within.2).bind fun args _ => ?_
    exact (named_confined here name args).bind fun _ _ => .pure _
  | function m params result nullable =>
    simp only [TypeExpr.spans, List.cons_subset, List.append_subset] at within
    rw [written]
    refine (allWritten_confined params within.2.1).bind fun _ _ => ?_
    exact (written_confined result within.2.2).bind fun _ _ => .pure _

theorem allWritten_confined (ts : List TypeExpr) (within : TypeExpr.spansAll ts ⊆ spans) :
    Confined spans around c (allWritten ts) := by
  cases ts with
  | nil =>
    rw [allWritten]
    exact .pure []
  | cons t ts =>
    simp only [TypeExpr.spansAll, List.append_subset] at within
    rw [allWritten]
    refine (written_confined t within.1).bind fun _ _ => ?_
    exact (allWritten_confined ts within.2).bind fun _ _ => .pure _

end

/-- A type that may be written. -/
theorem declared_confined (type : Option TypeExpr) (within : TypeExpr.spansOf? type ⊆ spans) {f : Option Ty → Analysis α}
    (next : ∀ t, Confined spans around c (f t)) :
    Confined spans around c
      (match type with
        | some t => (some <$> written t) >>= f
        | none => pure none >>= f) := by
  cases type with
  | none => exact next none
  | some t => exact (written_confined t within).map.bind fun _ _ => next _

theorem writtenOr_confined (name : String) (type : Option TypeExpr) (within : TypeExpr.spansOf? type ⊆ spans) :
    Confined spans around c (writtenOr name type) := by
  cases type with
  | none => exact Stays.fresh name
  | some t => exact written_confined t within

/-! ### Members -/

theorem builtinRef?_confined (name : String) (args : List Ty) : Confined spans around c (builtinRef? name args) := by
  refine Stays.read ?_
  split <;> exact .pure _

theorem boxed?_confined (t : Ty) : Confined spans around c (boxed? t) := by
  refine Stays.read ?_
  split <;> exact .pure _

theorem type_confined (m : Member) : Confined spans around c m.type := by
  unfold Member.type
  split
  · split
    · exact .pure _
    · exact Stays.fresh _
  · exact .pure _

/-- What a search for a receiver ends with: one that is found, or a fault. -/
theorem receiverOr_confined {span : Span} (within : span ∈ spans) (t : Ty) (found : Option Receiver) :
    Confined spans around c
      (match found with
        | some recv => Pure.pure (some recv)
        | none => reject span (.noMembers t.unwrap.1)) := by
  cases found with
  | none => exact Confined.reject within
  | some recv => exact .pure _

theorem receiver?_confined {span : Span} (within : span ∈ spans) (t : Ty) :
    Confined spans around c (receiver? span t) := by
  refine Stays.read ?_
  dsimp only
  split
  · exact .pure none
  · exact Stays.bind (.pure _) fun found _ => receiverOr_confined within t found
  · exact Stays.bind (.pure _) fun found _ => receiverOr_confined within t found
  · exact (boxed?_confined _).bind fun _ _ => Stays.bind (.pure _) fun found _ => receiverOr_confined within t found

theorem parentReceiver_confined {span : Span} (within : span ∈ spans) :
    Confined spans around c (parentReceiver scope span) := by
  refine Stays.read ?_
  split
  · exact (Confined.require within).bind fun _ _ => (Stays.note _ _).bind fun _ _ => .pure _
  · exact Confined.reject within

theorem useMember_confined (recv : Receiver) (name : String) {span : Span} (within : span ∈ spans) :
    Confined spans scope.owner c (useMember scope recv name span) := by
  refine Stays.read ?_
  dsimp only
  split
  · exact Confined.reject within
  · refine (Confined.require within).bind fun _ _ => (Confined.require within).bind fun _ _ => ?_
    refine (Confined.require within).bind fun _ allowed => ?_
    have permitted := permitted_of_seesPrivate (u := ⟨c.file, span, _, _, false⟩) (gives_require allowed)
    exact (Confined.noteAccess within permitted).bind fun _ _ => .pure _

theorem requireAssignable_confined (m : Member) (name : String) {span : Span} (within : span ∈ spans) :
    Confined spans around c (requireAssignable scope m name span) := by
  unfold requireAssignable
  split
  · exact Confined.reject within
  · exact Confined.require within

theorem methodSignature_confined (name : String) (m : MethodSymbol) (subst : Subst) (count : Nat) {span : Span}
    (within : span ∈ spans) : Confined spans around c (methodSignature name m subst count span) :=
  (Confined.require within).bind fun _ _ => .pure _

theorem valueSignature_confined (name : String) (t : Ty) (count : Nat) {span callee : Span} (within : span ∈ spans)
    (called : callee ∈ spans) : Confined spans around c (valueSignature name t count span callee) := by
  unfold valueSignature
  split
  · exact (Stays.fresh _).bind fun _ _ => .pure _
  · exact (Confined.require within).bind fun _ _ => .pure _
  · exact Confined.reject called

theorem indexSignature_confined (recv : Option Receiver) (name : String) (count : Nat) {span : Span}
    (within : span ∈ spans) : Confined spans scope.owner c (indexSignature scope recv name count span) := by
  unfold indexSignature
  split
  · exact (Stays.fresh _).bind fun _ _ => .pure _
  · refine (useMember_confined _ name within).bind fun m _ => ?_
    split
    · exact methodSignature_confined _ _ _ _ within
    · exact Confined.reject within

theorem constructorSignature_confined (d : DeclSymbol) (args : List Ty) (ctor : Option MethodSymbol) (count : Nat)
    {span : Span} (within : span ∈ spans) : Confined spans around c (constructorSignature d args ctor count span) := by
  unfold constructorSignature
  split
  · exact (Confined.require within).bind fun _ _ => .pure _
  · exact Stays.read (methodSignature_confined _ _ _ _ within)

theorem requirePassed_confined (want : Option Ty) (got : Ty) {span : Span} (within : span ∈ spans) :
    Confined spans around c (requirePassed want got span) := by
  unfold requirePassed
  split
  · exact .pure ()
  · exact (Confined.require within).bind fun _ _ => Confined.requireAccepts within

end Parts

end ClassScript.Typing
