import ClassScript.Evaluation.Statements

/-!
Computations that leave the stack as they find it. A computation is steady on some live slots if,
started with them, it ends with the same slots, running calls and file, whether it succeeds or stops,
and never uses a slot that is not live (`Steady`). Opening a scope is not steady; doing so and
releasing it again is (`steady_releasing`, `steady_inContext`).
-/

namespace ClassScript.Evaluation

variable {α β : Type} {slots : Array Nat}

/-- The outcome of a computation that began in `s` leaves the stack as it was: the slots and the frames
in them, the running calls, and the file of failures. No slot was used that is not live. -/
structure Undisturbed (s : State) (after : Except Stop α × State) : Prop where
  slots : after.2.env.slots = s.env.slots
  calls : after.2.calls = s.calls
  file : after.2.file = s.file
  live : ∀ slot, after.1 ≠ .error (.deadScope slot)

theorem undisturbed_ok {s s' : State} (a : α) (slots : s'.env.slots = s.env.slots) (calls : s'.calls = s.calls)
    (file : s'.file = s.file) : Undisturbed s (.ok a, s') :=
  ⟨slots, calls, file, fun _ => by simp⟩

theorem undisturbed_error {s s' : State} {stop : Stop} (slots : s'.env.slots = s.env.slots)
    (calls : s'.calls = s.calls) (file : s'.file = s.file) (live : ∀ slot, stop ≠ .deadScope slot) :
    Undisturbed s ((.error stop : Except Stop α), s') :=
  ⟨slots, calls, file, fun slot same => live slot (Except.error.inj same)⟩

/-- A computation leaves the stack as it was whenever it begins with these live slots. -/
def Steady (slots : Array Nat) (x : Run α) : Prop :=
  ∀ w s, s.env.slots = slots → Undisturbed s (x w s)

/-! ## Sequences -/

/-- A sequence stops where its first part stops. -/
theorem bind_run (x : Run α) (f : α → Run β) (w : World) (s : State) :
    (x >>= f) w s =
      match x w s with
      | (.ok a, s') => f a w s'
      | (.error stop, s') => (.error stop, s') := by
  show (ExceptT.bindCont (fun a => f a w) (x w s).1) (x w s).2 = _
  rcases x w s with ⟨r, s'⟩
  cases r <;> rfl

theorem steady_pure (a : α) : Steady slots (pure a) := fun _ _ _ => undisturbed_ok a rfl rfl rfl

theorem steady_bind {x : Run α} {f : α → Run β} (first : Steady slots x) (rest : ∀ a, Steady slots (f a)) :
    Steady slots (x >>= f) := by
  intro w s same
  have begun := first w s same
  rw [bind_run]
  rcases ran : x w s with ⟨r, s'⟩
  rw [ran] at begun
  cases r with
  | error stop => exact ⟨begun.slots, begun.calls, begun.file, fun slot => by simpa using begun.live slot⟩
  | ok a =>
    have ended := rest a w s' (begun.slots.trans same)
    exact ⟨ended.slots.trans begun.slots, ended.calls.trans begun.calls, ended.file.trans begun.file, ended.live⟩

theorem steady_forM {items : List β} {f : β → Run PUnit} (each : ∀ b, Steady slots (f b)) :
    Steady slots (items.forM f) := by
  induction items with
  | nil => exact steady_pure _
  | cons b items ih => exact steady_bind (each b) fun _ => ih

theorem steady_mapM {items : List β} {f : β → Run α} (each : ∀ b, Steady slots (f b)) :
    Steady slots (items.mapM f) := by
  induction items with
  | nil => rw [List.mapM_nil]; exact steady_pure _
  | cons b items ih =>
    rw [List.mapM_cons]
    exact steady_bind (each b) fun _ => steady_bind ih fun _ => steady_pure _

/-! ## Reading and changing the state -/

theorem steady_get : Steady slots (get : Run State) := fun _ s _ => undisturbed_ok s rfl rfl rfl

theorem steady_read : Steady slots (read : Run World) := fun w _ _ => undisturbed_ok w rfl rfl rfl

theorem steady_modifyGet {f : State → α × State}
    (keeps : ∀ s, (f s).2.env.slots = s.env.slots ∧ (f s).2.calls = s.calls ∧ (f s).2.file = s.file) :
    Steady slots (modifyGet f : Run α) := fun _ s _ =>
  undisturbed_ok (f s).1 (keeps s).1 (keeps s).2.1 (keeps s).2.2

theorem steady_modify {f : State → State}
    (keeps : ∀ s, (f s).env.slots = s.env.slots ∧ (f s).calls = s.calls ∧ (f s).file = s.file) :
    Steady slots (modify f : Run PUnit) := steady_modifyGet keeps

theorem steady_endless : Steady slots (throw .endless : Run α) := fun _ _ _ =>
  undisturbed_error rfl rfl rfl fun _ => Stop.noConfusion

theorem steady_failed (d : Diagnostic) : Steady slots (throw (.failed d) : Run α) := fun _ _ _ =>
  undisturbed_error rfl rfl rfl fun _ => Stop.noConfusion

theorem steady_fail (span : Span) (fault : RunFault) : Steady slots (fail span fault : Run α) :=
  steady_bind steady_get fun _ => steady_failed _

/-- What follows a failure does not matter. -/
theorem steady_fail_bind (span : Span) (fault : RunFault) (f : α → Run β) :
    Steady slots (fail span fault >>= f) := by
  intro w s _
  exact undisturbed_error rfl rfl rfl fun _ => Stop.noConfusion

theorem steady_heap : Steady slots heap := steady_bind steady_get fun _ => steady_pure _

theorem steady_modifyHeap (f : Heap → Heap) : Steady slots (modifyHeap f) :=
  steady_modify fun _ => ⟨rfl, rfl, rfl⟩

theorem steady_typeName (v : Value) : Steady slots (typeName v) :=
  steady_bind steady_heap fun _ => steady_pure _

/-- A failure that needs the name of the type of a value for its message. -/
theorem steady_failNamed (span : Span) (fault : String → RunFault) (v : Value) :
    Steady slots (do fail span (fault (← typeName v)) : Run α) :=
  steady_bind (steady_typeName v) fun name => steady_fail span (fault name)

theorem steady_text (v : Value) : Steady slots (text v) := by
  refine steady_bind steady_heap fun h => ?_
  cases h.text? v with
  | some s => exact steady_pure s
  | none => exact steady_endless

theorem steady_print (s : Bytes) : Steady slots (print s) := steady_modify fun _ => ⟨rfl, rfl, rfl⟩

theorem steady_noteInitial : Steady slots noteInitial := steady_modify fun _ => ⟨rfl, rfl, rfl⟩

theorem steady_noteTurn : Steady slots noteTurn := steady_modify fun _ => ⟨rfl, rfl, rfl⟩

theorem steady_current : Steady slots current := steady_bind steady_get fun _ => steady_pure _

theorem checkCancelled_eq (span : Span) (w : World) (s : State) :
    checkCancelled span w s = (match s.allowance with
      | none => pure ()
      | some 0 => fail span .cancelled
      | some (n + 1) => set { s with checks := s.checks + 1, allowance := some n } : Run Unit) w
        { s with checks := s.checks + 1 } := rfl

theorem steady_checkCancelled (span : Span) : Steady slots (checkCancelled span) := by
  intro w s same
  rw [checkCancelled_eq]
  rcases s.allowance with _ | _ | n
  · exact undisturbed_ok () rfl rfl rfl
  · exact undisturbed_error rfl rfl rfl fun _ => Stop.noConfusion
  · exact undisturbed_ok () rfl rfl rfl

/-! ## Failures that become results -/

/-- A use of a dead slot is never covered up. -/
theorem attempt_deadScope_iff (x : Run α) (w : World) (s : State) (slot : Nat) :
    (attempt x w s).1 = .error (.deadScope slot) ↔ (x w s).1 = .error (.deadScope slot) := by
  unfold attempt
  rcases x w s with ⟨(d | _ | dead) | a, t⟩
  · constructor <;> intro same <;> cases same
  · constructor <;> intro same <;> cases same
  · constructor <;> intro same <;> cases same <;> rfl
  · constructor <;> intro same <;> cases same

theorem steady_attempt {x : Run α} (steady : Steady slots x) : Steady slots (attempt x) := by
  intro w s same
  have ended := steady w s same
  unfold attempt
  rcases ran : x w s with ⟨r, s'⟩
  rw [ran] at ended
  rcases r with (d | _ | dead) | a
  · exact undisturbed_ok _ ended.slots ended.calls ended.file
  · exact undisturbed_error ended.slots ended.calls ended.file fun _ => Stop.noConfusion
  · exact absurd rfl (ended.live dead)
  · exact undisturbed_ok _ ended.slots ended.calls ended.file

/-! ## Scopes -/

theorem frameOf_eq (scope : ScopeId) (w : World) (s : State) :
    frameOf scope w s = (match s.env.capture? scope with
      | some frame => pure frame
      | none => throw (.deadScope scope) : Run Nat) w s := rfl

/-- A use of a slot is refused exactly if the slot is not live. -/
theorem frameOf_deadScope_iff (scope : ScopeId) (w : World) (s : State) :
    (frameOf scope w s).1 = .error (.deadScope scope) ↔ s.env.height ≤ scope := by
  rw [frameOf_eq]
  cases held : s.env.capture? scope with
  | some frame =>
    have live : scope < s.env.height := (Array.getElem?_eq_some_iff.mp held).1
    constructor
    · intro refused
      cases refused
    · intro dead
      exact absurd live (Nat.not_lt.mpr dead)
  | none =>
    have dead : s.env.height ≤ scope := Array.getElem?_eq_none_iff.mp held
    exact ⟨fun _ => dead, fun _ => rfl⟩

theorem steady_frameOf {scope : ScopeId} (live : scope < slots.size) : Steady slots (frameOf scope) := by
  intro w s same
  have held : s.env.capture? scope = some slots[scope] := by
    rw [Environment.capture?, same, Array.getElem?_eq_getElem live]
  rw [frameOf_eq, held]
  exact steady_pure _ w s same

theorem steady_setVariable (frame : Nat) (name : String) (v : Value) : Steady slots (setVariable frame name v) :=
  steady_modify fun _ => ⟨rfl, rfl, rfl⟩

theorem steady_binding? {scope : ScopeId} (live : scope < slots.size) (name : String) :
    Steady slots (binding? scope name) :=
  steady_bind (steady_frameOf live) fun _ => steady_bind steady_get fun _ => steady_pure _

theorem steady_define {scope : ScopeId} (live : scope < slots.size) (name : String) (v : Value) :
    Steady slots (define scope name v) :=
  steady_bind (steady_frameOf live) fun frame => steady_setVariable frame name v

theorem steady_assign {scope : ScopeId} (live : scope < slots.size) (name : String) (v : Value) :
    Steady slots (assign scope name v) := by
  refine steady_bind (steady_frameOf live) fun frame => steady_bind steady_get fun s => ?_
  cases s.env.seenFrom frame name with
  | none => exact steady_pure false
  | some found => exact steady_bind (steady_setVariable found.1 name v) fun _ => steady_pure true

/-- A computation may leave open scopes behind, above these slots; all else is as with steady ones. -/
def Opens (slots : Array Nat) (x : Run α) : Prop :=
  ∀ w s, s.env.slots = slots →
    (∃ opened, (x w s).2.env.slots = slots ++ opened) ∧ (x w s).2.calls = s.calls ∧
      (x w s).2.file = s.file ∧ ∀ slot, (x w s).1 ≠ .error (.deadScope slot)

/-- A computation in a new scope leaves that scope open. The scope is the slot above the others. -/
theorem opens_openFrame (frame : Nat) {body : ScopeId → Run α}
    (steady : ∀ id, Steady (slots.push id) (body slots.size)) :
    Opens slots (do let scope ← openFrame frame; body scope) := by
  intro w s same
  have ran : (do let scope ← openFrame frame; body scope : Run α) w s =
      body slots.size w { s with env := (s.env.pushFrame frame).2 } := by
    rw [bind_run, ← same]
    rfl
  have pushed : (s.env.pushFrame frame).2.slots = slots.push s.env.frames.size := by
    rw [← same]
    rfl
  have ended := steady s.env.frames.size w { s with env := (s.env.pushFrame frame).2 } pushed
  rw [ran]
  exact ⟨⟨#[s.env.frames.size], ended.slots.trans pushed⟩, ended.calls, ended.file, ended.live⟩

theorem opens_bind {x : Run α} {f : α → Run β} (first : Steady slots x) (rest : ∀ a, Opens slots (f a)) :
    Opens slots (x >>= f) := by
  intro w s same
  have begun := first w s same
  rw [bind_run]
  rcases ran : x w s with ⟨r, s'⟩
  rw [ran] at begun
  cases r with
  | error stop => exact ⟨⟨#[], by simpa using begun.slots.trans same⟩, begun.calls, begun.file, fun slot failed =>
      begun.live slot (congrArg Except.error (Except.error.inj failed))⟩
  | ok a =>
    obtain ⟨opened, calls, file, live⟩ := rest a w s' (begun.slots.trans same)
    exact ⟨opened, calls.trans begun.calls, file.trans begun.file, live⟩

theorem opens_openScope {outer : ScopeId} (live : outer < slots.size) {body : ScopeId → Run α}
    (steady : ∀ id, Steady (slots.push id) (body slots.size)) :
    Opens slots (do let scope ← openScope outer; body scope) := by
  have regrouped : (do let scope ← openScope outer; body scope : Run α) =
      (do let frame ← frameOf outer; let scope ← openFrame frame; body scope) := by
    unfold openScope
    rw [bind_assoc]
  rw [regrouped]
  exact opens_bind (steady_frameOf live) fun frame => opens_openFrame frame steady

private theorem slots_release {e : Environment Value} {opened : Array Nat} (nonempty : 0 < slots.size)
    (grown : e.slots = slots ++ opened) : (e.release slots.size).slots = slots := by
  have least : max slots.size 1 = slots.size := by omega
  simp [Environment.release, grown, least]

/-- Releasing what a computation opened restores the slots, whether it succeeds or stops. -/
theorem steady_releasing {x : Run α} (nonempty : 0 < slots.size) (opens : Opens slots x) :
    Steady slots (releasing x) := by
  intro w s same
  obtain ⟨⟨opened, grown⟩, calls, file, live⟩ := opens w s same
  have restored := slots_release nonempty grown
  rw [← same] at restored
  exact ⟨restored, calls, file, live⟩

/-- Code in a method context of its own ends with the context, file and scopes from before. -/
theorem steady_inContext {x : Run α} (context : CallFrame) (file : Option String) (nonempty : 0 < slots.size)
    (opens : Opens slots x) : Steady slots (inContext context file x) := by
  intro w s same
  obtain ⟨⟨opened, grown⟩, calls, -, live⟩ :=
    opens w { s.noteContext with calls := context :: s.calls, file := file.getD s.file } same
  have restored := slots_release nonempty grown
  rw [← same] at restored
  exact ⟨restored, congrArg List.tail calls, rfl, live⟩

end ClassScript.Evaluation
