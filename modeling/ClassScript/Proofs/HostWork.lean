import ClassScript.Evaluation.Calls

/-!
What the host can do to a running program. The methods of the host read the heap, change arrays and
iterators, make new ones, print, and call functions back; nothing else. A relation between computations
that all of this respects, and that sequences keep, relates every method of the host under two evaluators
that are related where it calls back (`HostRelated.method`, `HostRelated.classMethod`,
`HostRelated.boxedMethod`). A property of computations is the case of one evaluator (`HostClosed`).
-/

namespace ClassScript.Evaluation

open Standard

/-- Two heaps are the same for the host: it sees no code. -/
structure SameForHost (h h' : Heap) : Prop where
  arrays : h'.arrays = h.arrays
  cursor (id : Nat) : h'.cursor id = h.cursor id
  node (id : Nat) : h'.node id = h.node id
  equal (v w : Value) : h'.equal v w = h.equal v w

theorem SameForHost.refl (h : Heap) : SameForHost h h := ⟨rfl, fun _ => rfl, fun _ => rfl, fun _ _ => rfl⟩

theorem SameForHost.itemPlace {h h' : Heap} (same : SameForHost h h') (v : Value) (place : Nat) (items : List Value) :
    itemPlace h' v place items = itemPlace h v place items := by
  induction items generalizing place with
  | nil => rfl
  | cons w items ih => rw [Standard.itemPlace, same.equal, ih, Standard.itemPlace]

/-- A relation between computations that the work of host methods respects, as long as it calls nothing back. -/
structure HostRelated (R : {α : Type} → Run α → Run α → Prop) : Prop where
  pure {α : Type} (a : α) : R (pure a : Run α) (pure a)
  bind {α β : Type} {x y : Run α} {f g : α → Run β} : R x y → (∀ a, R (f a) (g a)) → R (x >>= f) (y >>= g)
  time : R (do give (.number (← read).clock) : HostRun) (do give (.number (← read).clock))
  heap_bind {α : Type} {f g : Heap → Run α} :
    (∀ h h', SameForHost h h' → R (f h) (g h')) → R (heap >>= f) (heap >>= g)
  text (v : Value) : R (text v) (text v)
  print (s : Bytes) : R (print s) (print s)
  modifyArrays (f : Arrays → Arrays) : R (modifyArrays f) (modifyArrays f)
  modifyCursor (id : Nat) (f : ArrayCursor → ArrayCursor) : R (modifyCursor id f) (modifyCursor id f)
  newArray (storage : Storage) : R (newArray storage) (newArray storage)
  newCursor (array : Nat) : R (newCursor array) (newCursor array)

namespace HostRelated

variable {R : {α : Type} → Run α → Run α → Prop} {k k' : Evaluator} {span span' : Span} {args : List HostArg}

/-- Functions can be called back, at a span under each evaluator. -/
def CallsBack (R : {α : Type} → Run α → Run α → Prop) (k k' : Evaluator) (span span' : Span) : Prop :=
  ∀ f item, R (k.callValue f [item] span) (k'.callValue f [item] span')

/-- A call of a host method under one evaluator is related to the same call under the other. -/
def Alike (R : {α : Type} → Run α → Run α → Prop) (k k' : Evaluator) (span span' : Span) (args : List HostArg)
    (m : HostMethod) : Prop :=
  R (m.call k span args) (m.call k' span' args)

/-! ## Kinds of methods -/

theorem nullary {work : HostRun} (holds : R work work) : Alike R k k' span span' args (.nullary work) := holds

theorem ofNumber (related : HostRelated R) {work : Float → HostRun} (holds : ∀ x, R (work x) (work x)) :
    Alike R k k' span span' args (.ofNumber work) := by
  unfold Alike HostMethod.ofNumber
  dsimp only
  split
  · exact holds _
  · exact related.pure _

theorem ofText (related : HostRelated R) {work : Bytes → HostRun} (holds : ∀ t, R (work t) (work t)) :
    Alike R k k' span span' args (.ofText work) := by
  unfold Alike HostMethod.ofText
  dsimp only
  split
  · exact holds _
  · exact related.pure _

theorem ofTruth (related : HostRelated R) {work : Bool → HostRun} (holds : ∀ b, R (work b) (work b)) :
    Alike R k k' span span' args (.ofTruth work) := by
  unfold Alike HostMethod.ofTruth
  dsimp only
  split
  · exact holds _
  · exact related.pure _

theorem ofAny (related : HostRelated R) {work : Value → HostRun} (holds : ∀ v, R (work v) (work v)) :
    Alike R k k' span span' args (.ofAny work) := by
  unfold Alike HostMethod.ofAny
  dsimp only
  split
  · exact holds _
  · exact related.pure _

theorem ofNumbers (related : HostRelated R) {work : Float → Float → HostRun}
    (holds : ∀ x y, R (work x y) (work x y)) :
    Alike R k k' span span' args (.ofNumbers work) := by
  unfold Alike HostMethod.ofNumbers
  dsimp only
  split
  · exact holds _ _
  · exact related.pure _

theorem ofAnys (related : HostRelated R) {work : Value → Value → HostRun}
    (holds : ∀ v w, R (work v w) (work v w)) :
    Alike R k k' span span' args (.ofAnys work) := by
  unfold Alike HostMethod.ofAnys
  dsimp only
  split
  · exact holds _ _
  · exact related.pure _

theorem ofNumberAny (related : HostRelated R) {work : Float → Value → HostRun}
    (holds : ∀ x v, R (work x v) (work x v)) :
    Alike R k k' span span' args (.ofNumberAny work) := by
  unfold Alike HostMethod.ofNumberAny
  dsimp only
  split
  · exact holds _ _
  · exact related.pure _

theorem ofFunction (related : HostRelated R) (calls : CallsBack R k k' span span') {work : (Value → HostRun) → HostRun}
    (holds : ∀ callback callback', (∀ v, R (callback v) (callback' v)) → R (work callback) (work callback')) :
    Alike R k k' span span' args (.ofFunction work) := by
  unfold Alike HostMethod.ofFunction
  dsimp only
  split
  · refine holds _ _ fun item => ?_
    split
    · exact related.pure _
    · exact related.bind (calls _ item) fun v => related.pure _
  · exact related.pure _

theorem give (related : HostRelated R) (v : Value) : R (give v) (give v) := related.pure _

theorem refuse (related : HostRelated R) (fault : HostFault) : R (refuse fault) (refuse fault) := related.pure _

theorem mapM (related : HostRelated R) {α β : Type} {items : List β} {f : β → Run α}
    (each : ∀ b, R (f b) (f b)) :
    R (items.mapM f) (items.mapM f) := by
  induction items with
  | nil => rw [List.mapM_nil]; exact related.pure _
  | cons b items ih =>
    rw [List.mapM_cons]
    exact related.bind (each b) fun _ => related.bind ih fun _ => related.pure _

/-! ## Arrays -/

private theorem traverse (related : HostRelated R) {callback callback' : Value → HostRun}
    (calls : ∀ v, R (callback v) (callback' v)) (storage place count : Nat) :
    R (traverse callback storage place count) (traverse callback' storage place count) := by
  induction count generalizing place with
  | zero => exact related.pure _
  | succ count ih =>
    refine related.heap_bind fun h h' same => ?_
    rw [same.arrays]
    refine related.bind (calls _) fun r => ?_
    cases r with
    | error fault => exact related.pure _
    | ok v =>
      refine related.bind (ih (place + 1)) fun rest => ?_
      cases rest with
      | error fault => exact related.pure _
      | ok results => exact related.pure _

private theorem collected (related : HostRelated R) (items : List Value) : R (collected items) (collected items) := by
  refine related.bind (related.newArray _) fun h => ?_
  cases h with
  | array id => exact related.bind (related.modifyArrays _) fun _ => related.give _
  | _ => exact related.give _

/-- A method that calls back for every element and works on the results. -/
private theorem traversal (related : HostRelated R) (calls : CallsBack R k k' span span') (id : Nat)
    {work : List (Value × Value) → HostRun} (holds : ∀ r, R (work r) (work r)) :
    Alike R k k' span span' args (.ofFunction fun callback => do
      match ← traverseArray id callback with
      | .error fault => Evaluation.refuse fault
      | .ok results => work results) := by
  refine related.ofFunction calls fun callback callback' each => ?_
  have visited : R (traverseArray id callback) (traverseArray id callback') := by
    refine related.heap_bind fun h h' same => ?_
    rw [same.arrays]
    exact related.traverse each _ _ _
  refine related.bind visited fun r => ?_
  cases r with
  | error fault => exact related.refuse fault
  | ok results => exact holds results

theorem arrayMethod (related : HostRelated R) (calls : CallsBack R k k' span span') {id : Nat} {name : String}
    {m : HostMethod} (found : arrayMethod? id name = some m) : Alike R k k' span span' args m := by
  unfold arrayMethod? at found
  split at found
  · cases found
    exact related.ofAny fun v => related.bind (related.modifyArrays _) fun _ => related.give _
  · cases found
    refine nullary (related.heap_bind fun h h' same => ?_)
    rw [same.arrays]
    exact related.bind (related.modifyArrays _) fun _ => related.give _
  · cases found
    refine related.ofNumber fun x => related.heap_bind fun h h' same => ?_
    rw [same.arrays]
    exact related.pure _
  · cases found
    refine related.ofNumberAny fun x v => related.heap_bind fun h h' same => ?_
    rw [same.arrays]
    split
    · exact related.refuse _
    · exact related.bind (related.modifyArrays _) fun _ => related.give _
  · cases found
    refine nullary (related.heap_bind fun h h' same => ?_)
    rw [same.arrays]
    exact related.give _
  · cases found
    exact nullary (related.bind (related.newCursor _) fun _ => related.give _)
  · cases found
    refine related.ofAny fun v => related.heap_bind fun h h' same => ?_
    rw [same.arrays, same.itemPlace]
    split
    · exact related.give _
    · exact related.give _
  · cases found
    refine related.ofAny fun v => related.heap_bind fun h h' same => ?_
    rw [same.arrays, same.itemPlace]
    exact related.give _
  · cases found
    refine related.ofText fun separator => related.heap_bind fun h h' same => ?_
    rw [same.arrays]
    exact related.bind (related.mapM related.text) fun parts => related.give _
  · cases found
    exact related.traversal calls id fun r => related.bind (related.newArray _) fun _ => related.give _
  · cases found
    exact related.traversal calls id fun r => related.collected _
  · cases found
    exact related.traversal calls id fun r => related.give _
  · cases found
    refine nullary (related.heap_bind fun h h' same => ?_)
    rw [same.arrays]
    split
    · exact related.refuse _
    · exact related.give _
  · cases found
    exact nullary (related.bind (related.text _) fun _ => related.give _)
  · cases found

theorem iteratorMethod (related : HostRelated R) {id : Nat} {name : String} {m : HostMethod}
    (found : iteratorMethod? id name = some m) : Alike R k k' span span' args m := by
  unfold iteratorMethod? at found
  split at found <;> cases found
  · exact nullary (related.bind (related.modifyCursor _ _) fun _ => related.give _)
  · refine nullary (related.heap_bind fun h h' same => ?_)
    rw [same.arrays, same.cursor]
    exact related.give _
  · exact nullary (related.bind (related.modifyCursor _ _) fun _ => related.give _)
  · refine nullary (related.heap_bind fun h h' same => ?_)
    rw [same.arrays, same.cursor]
    exact related.pure _

/-! ## Primitive values, printing, assertions and markup -/

theorem stringMethod (related : HostRelated R) {s : Bytes} {name : String} {m : HostMethod}
    (found : stringMethod? s name = some m) : Alike R k k' span span' args m := by
  unfold stringMethod? at found
  split at found <;> cases found
  · exact nullary (related.give _)
  · exact related.ofNumber fun _ => related.pure _
  · exact related.ofText fun _ => related.give _
  · exact related.ofNumbers fun _ _ => related.pure _
  · exact nullary (related.give _)
  · exact nullary (related.give _)
  · exact nullary (related.give _)
  · exact related.ofText fun _ => related.bind (related.newArray _) fun _ => related.give _
  · exact related.ofText fun _ => related.give _
  · exact related.ofText fun _ => related.give _
  · exact related.ofText fun _ => related.give _

theorem numberMethod (related : HostRelated R) {x : Float} {name : String} {m : HostMethod}
    (found : numberMethod? x name = some m) : Alike R k k' span span' args m := by
  unfold numberMethod? at found
  split at found <;> cases found
  · exact nullary (related.give _)
  · exact related.ofNumber fun _ => related.pure _
  · exact nullary (related.give _)
  · exact nullary (related.give _)
  · exact nullary (related.give _)
  · exact nullary (related.give _)

theorem numberClassMethod (related : HostRelated R) {name : String} {m : HostMethod}
    (found : numberClassMethod? name = some m) : Alike R k k' span span' args m := by
  unfold numberClassMethod? at found
  split at found <;> cases found
  · exact related.ofText fun _ => related.pure _
  · exact related.ofNumbers fun _ _ => related.give _
  · exact related.ofNumbers fun _ _ => related.give _

theorem booleanMethod (related : HostRelated R) {b : Bool} {name : String} {m : HostMethod}
    (found : booleanMethod? b name = some m) : Alike R k k' span span' args m := by
  unfold booleanMethod? at found
  split at found <;> cases found
  exact nullary (related.give _)

theorem systemMethod (related : HostRelated R) {name : String} {m : HostMethod}
    (found : systemMethod? name = some m) : Alike R k k' span span' args m := by
  unfold systemMethod? at found
  split at found <;> cases found
  · refine related.ofAny fun v => related.bind (related.text v) fun t => ?_
    exact related.bind (related.print _) fun _ => related.give _
  · refine related.ofAny fun v => related.bind (related.text v) fun t => ?_
    exact related.bind (related.print _) fun _ => related.give _
  · exact nullary related.time

theorem assertMethod (related : HostRelated R) {name : String} {m : HostMethod}
    (found : assertMethod? name = some m) : Alike R k k' span span' args m := by
  unfold assertMethod? at found
  split at found <;> cases found
  · refine related.ofAnys fun expected actual => related.heap_bind fun h h' same => ?_
    rw [same.equal]
    split
    · exact related.give _
    · exact related.bind (related.text _) fun _ => related.bind (related.text _) fun _ => related.refuse _
  · refine related.ofTruth fun b => ?_
    split
    · exact related.give _
    · exact related.refuse _
  · refine related.ofAny fun v => ?_
    split
    · exact related.give _
    · exact related.bind (related.text _) fun _ => related.refuse _
  · exact related.ofText fun _ => related.refuse _

theorem nodeMethod (related : HostRelated R) {id : Nat} {name : String} {m : HostMethod}
    (found : nodeMethod? id name = some m) : Alike R k k' span span' args m := by
  unfold nodeMethod? at found
  split at found <;> cases found
  all_goals
    refine nullary (related.heap_bind fun h h' same => ?_)
    rw [same.node]
    exact related.give _

/-! ## All methods -/

theorem method (related : HostRelated R) (calls : CallsBack R k k' span span') {h : Host} {name : String} {m : HostMethod}
    (found : Standard.method? h name = some m) : Alike R k k' span span' args m := by
  cases h with
  | array id => exact related.arrayMethod calls found
  | iterator id => exact related.iteratorMethod found
  | node id => exact related.nodeMethod found

theorem classMethod (related : HostRelated R) {c : HostClass} {name : String} {m : HostMethod}
    (found : classMethod? c name = some m) : Alike R k k' span span' args m := by
  cases c with
  | number => exact related.numberClassMethod found
  | system => exact related.systemMethod found
  | assert => exact related.assertMethod found
  | _ => cases found

theorem boxedMethod (related : HostRelated R) {c : HostClass} {v : Value} {name : String} {m : HostMethod}
    (found : boxedMethod? c v name = some m) : Alike R k k' span span' args m := by
  unfold boxedMethod? at found
  split at found
  · exact related.stringMethod found
  · exact related.numberMethod found
  · exact related.booleanMethod found
  · cases found

end HostRelated

/-! ## Properties of one computation -/

/-- A property of computations that the work of host methods has, as long as it calls nothing back. -/
structure HostClosed (Φ : {α : Type} → Run α → Prop) : Prop where
  pure {α : Type} (a : α) : Φ (pure a : Run α)
  bind {α β : Type} {x : Run α} {f : α → Run β} : Φ x → (∀ a, Φ (f a)) → Φ (x >>= f)
  read : Φ (read : Run World)
  heap : Φ heap
  text (v : Value) : Φ (text v)
  print (s : Bytes) : Φ (print s)
  modifyArrays (f : Arrays → Arrays) : Φ (modifyArrays f)
  modifyCursor (id : Nat) (f : ArrayCursor → ArrayCursor) : Φ (modifyCursor id f)
  newArray (storage : Storage) : Φ (newArray storage)
  newCursor (array : Nat) : Φ (newCursor array)

namespace HostClosed

variable {Φ : {α : Type} → Run α → Prop} {k : Evaluator} {span : Span} {args : List HostArg}

/-- Functions can be called back at a span. -/
def CallsBack (Φ : {α : Type} → Run α → Prop) (k : Evaluator) (span : Span) : Prop :=
  ∀ f item, Φ (k.callValue f [item] span)

/-- A property is the relation that does not look at the second computation. -/
theorem related (closed : HostClosed Φ) : HostRelated fun {_} x _ => Φ x where
  pure := closed.pure
  bind := closed.bind
  time := closed.bind closed.read fun _ => closed.pure _
  heap_bind rest := closed.bind closed.heap fun h => rest h h (.refl h)
  text := closed.text
  print := closed.print
  modifyArrays := closed.modifyArrays
  modifyCursor := closed.modifyCursor
  newArray := closed.newArray
  newCursor := closed.newCursor

theorem method (closed : HostClosed Φ) (calls : CallsBack Φ k span) {h : Host} {name : String} {m : HostMethod}
    (found : Standard.method? h name = some m) : Φ (m.call k span args) :=
  (closed.related.method calls found : HostRelated.Alike _ k k span span args m)

theorem classMethod (closed : HostClosed Φ) {c : HostClass} {name : String} {m : HostMethod}
    (found : classMethod? c name = some m) : Φ (m.call k span args) :=
  (closed.related.classMethod found : HostRelated.Alike _ k k span span args m)

theorem boxedMethod (closed : HostClosed Φ) {c : HostClass} {v : Value} {name : String} {m : HostMethod}
    (found : boxedMethod? c v name = some m) : Φ (m.call k span args) :=
  (closed.related.boxedMethod found : HostRelated.Alike _ k k span span args m)

end HostClosed

end ClassScript.Evaluation
