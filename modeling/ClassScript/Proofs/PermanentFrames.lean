import Mathlib.Data.List.Forall2
import Mathlib.Logic.Function.Basic
import ClassScript.Environment

/-!
The slots of an environment against a ledger in which nothing is ever freed. In the ledger every scope that is opened
gets a frame of its own, and is known by the frames that lie around it; a release frees nothing, it only says which
number the next scope gets. Whatever is asked of live slots and of handles that were given out, an environment answers
like the ledger (`slots_refine_permanent_frames`).
-/

namespace ClassScript.Environment

variable {α : Type}

/-! ## Requests -/

/-- What is asked of an environment. Scopes are named by their slots, captured frames by the order in which they were
given out. -/
inductive Request (α : Type) where
  | push (slot : Nat)
  | pushCaptured (handle : Nat)
  | capture (slot : Nat)
  | mark
  | release (height : Int)
  | get (slot : Nat) (name : String)
  | set (slot : Nat) (name : String) (v : α)
  | update (slot : Nat) (name : String) (v : α)

/-- What comes back. -/
inductive Reply (α : Type) where
  | slot (id : Nat)
  | handle (id : Nat)
  | height (n : Nat)
  | value (v : Option α)
  | updated (done : Bool)
  | done

/-- Answers requests one after the other, up to one that cannot be answered. -/
def answers {σ : Type} (answer : σ → Request α → Option (Reply α × σ)) :
    σ → List (Request α) → Option (List (Reply α) × σ)
  | s, [] => some ([], s)
  | s, r :: rest => do
    let (reply, s) ← answer s r
    let (more, s) ← answers answer s rest
    return (reply :: more, s)

/-- An environment in use, with the frames that were captured. -/
structure Client (α : Type) where
  env : Environment α
  held : List Nat

namespace Client

/-- The global scope alone, and nothing captured. -/
def start : Client α := ⟨.empty, []⟩

/-- Answers a request, unless it is about a slot that is not live or a handle that was not given out. -/
def answer (c : Client α) : Request α → Option (Reply α × Client α)
  | .push slot => (c.env.push? slot).map fun opened => (.slot opened.1, { c with env := opened.2 })
  | .pushCaptured handle => c.held[handle]?.map fun frame =>
    (.slot (c.env.pushFrame frame).1, { c with env := (c.env.pushFrame frame).2 })
  | .capture slot => (c.env.capture? slot).map fun frame =>
    (.handle c.held.length, { c with held := c.held ++ [frame] })
  | .mark => some (.height c.env.height, c)
  | .release height => some (.done, { c with env := c.env.release height.toNat })
  | .get slot name => (c.env.capture? slot).map fun _ => (.value (c.env.get? slot name), c)
  | .set slot name v => (c.env.set? slot name v).map fun env => (.done, { c with env })
  | .update slot name v => (c.env.capture? slot).map fun _ =>
    match c.env.update? slot name v with
    | some env => (.updated true, { c with env })
    | none => (.updated false, c)

end Client

/-! ## The ledger -/

/-- Every scope that was ever opened. A scope is the list of its frame and the frames around it, from inside out. -/
structure Ledger (α : Type) where
  /-- How many frames there are; none is ever freed. -/
  opened : Nat
  vars : Nat → String → Option α
  /-- The number that the next scope gets. -/
  height : Nat
  /-- The scope that got a number last. -/
  scopes : Nat → List Nat
  /-- The scopes that were captured. -/
  held : List (List Nat)

namespace Ledger

/-- The global scope alone, and nothing captured. -/
def start : Ledger α := ⟨1, fun _ _ => none, 1, fun _ => [0], []⟩

/-- The scope of a number that is in use. -/
def scope? (l : Ledger α) (slot : Nat) : Option (List Nat) := if slot < l.height then some (l.scopes slot) else none

/-- Opens a scope with a new frame inside another. -/
def enter (l : Ledger α) (around : List Nat) : Ledger α :=
  { l with
    opened := l.opened + 1
    vars := Function.update l.vars l.opened fun _ => none
    height := l.height + 1
    scopes := Function.update l.scopes l.height (l.opened :: around) }

/-- The nearest frame of a scope that has the variable. -/
def holder? (l : Ledger α) (scope : List Nat) (name : String) : Option Nat :=
  scope.find? fun frame => (l.vars frame name).isSome

/-- Gives a variable of a frame a value. -/
def assign (l : Ledger α) (frame : Nat) (name : String) (v : α) : Ledger α :=
  { l with vars := Function.update l.vars frame (Function.update (l.vars frame) name (some v)) }

/-- Answers a request, unless it is about a number that is not in use or a handle that was not given out. -/
def answer (l : Ledger α) : Request α → Option (Reply α × Ledger α)
  | .push slot => (l.scope? slot).map fun scope => (.slot l.height, l.enter scope)
  | .pushCaptured handle => l.held[handle]?.map fun scope => (.slot l.height, l.enter scope)
  | .capture slot => (l.scope? slot).map fun scope => (.handle l.held.length, { l with held := l.held ++ [scope] })
  | .mark => some (.height l.height, l)
  | .release height => some (.done, { l with height := min l.height (max height.toNat 1) })
  | .get slot name => (l.scope? slot).map fun scope =>
    (.value ((l.holder? scope name).bind fun frame => l.vars frame name), l)
  | .set slot name v => (l.scope? slot).map fun scope => (.done, scope.head?.elim l fun frame => l.assign frame name v)
  | .update slot name v => (l.scope? slot).map fun scope =>
    match l.holder? scope name with
    | some frame => (.updated true, l.assign frame name v)
    | none => (.updated false, l)

end Ledger

/-! ## Frames and their scopes -/

/-- The frames that a frame lies in, from inside out, beginning with itself. A frame is opened after the one around
it. -/
inductive Path (e : Environment α) : Nat → List Nat → Prop where
  | outermost {frame : Nat} {f : Frame α} (held : e.frames[frame]? = some f) (none : f.parent = none) :
    Path e frame [frame]
  | inside {frame parent : Nat} {around : List Nat} {f : Frame α} (held : e.frames[frame]? = some f)
    (some : f.parent = some parent) (older : parent < frame) (rest : Path e parent around) :
    Path e frame (frame :: around)

/-- An assignment to a variable that is there changes what is found, not where. -/
theorem findFrom_setAt {e : Environment α} {target : Nat} {name : String} {f : Frame α}
    (held : e.frames[target]? = some f) (there : (f.find? name).isSome) (v : α) (x : String) (fuel id : Nat) :
    (e.setAt target name v).findFrom x fuel id =
      (e.findFrom x fuel id).map fun found => (found.1, if found.1 = target ∧ x = name then v else found.2) := by
  induction fuel generalizing id with
  | zero => rfl
  | succ fuel ih =>
    have frames : (e.setAt target name v).frames[id]? =
        if target = id then e.frames[id]?.map (·.set name v) else e.frames[id]? := Array.getElem?_modify ..
    unfold findFrom
    rw [frames]
    by_cases here : target = id
    · subst here
      rw [if_pos rfl, held, Option.map_some]
      dsimp only
      rw [Frame.find?_set]
      by_cases same : x = name
      · subst same
        obtain ⟨old, was⟩ := Option.isSome_iff_exists.1 there
        rw [if_pos rfl, was]
        simp
      · rw [if_neg same]
        cases f.find? x with
        | some u => simp [same]
        | none =>
          cases parent : (f.set name v).parent with
          | none =>
            have parent : f.parent = none := parent
            rw [parent]
            rfl
          | some p =>
            have parent : f.parent = some p := parent
            rw [parent]
            exact ih p
    · rw [if_neg here]
      cases e.frames[id]? with
      | none => rfl
      | some g =>
        dsimp only
        cases g.find? x with
        | some u => simp [Ne.symm here]
        | none =>
          dsimp only
          cases g.parent with
          | none => rfl
          | some p => exact ih p

variable {e : Environment α} {frame : Nat} {scope : List Nat}

/-- What a walk finds is in the frame that it ends in. -/
theorem findFrom_has {name : String} {fuel id target : Nat} {v : α}
    (found : e.findFrom name fuel id = some (target, v)) :
    ∃ f, e.frames[target]? = some f ∧ f.find? name = some v := by
  induction fuel generalizing id with
  | zero => cases found
  | succ fuel ih =>
    unfold findFrom at found
    cases held : e.frames[id]? with
    | none => rw [held] at found; cases found
    | some f =>
      rw [held] at found
      dsimp only at found
      cases has : f.find? name with
      | some u =>
        rw [has] at found
        cases found
        exact ⟨f, held, has⟩
      | none =>
        rw [has] at found
        dsimp only at found
        cases parent : f.parent with
        | none => rw [parent] at found; cases found
        | some p =>
          rw [parent] at found
          exact ih found

theorem Path.head (path : e.Path frame scope) : scope.head? = some frame := by cases path <;> rfl

theorem Path.held (path : e.Path frame scope) : ∃ f, e.frames[frame]? = some f := by
  cases path with
  | outermost held => exact ⟨_, held⟩
  | inside held => exact ⟨_, held⟩

/-- A frame lies in the same frames as before if no frame is lost or put elsewhere. -/
theorem Path.mono {e' : Environment α} (path : e.Path frame scope)
    (kept : ∀ {i : Nat} {f : Frame α}, e.frames[i]? = some f →
      ∃ f', e'.frames[i]? = some f' ∧ f'.parent = f.parent) :
    e'.Path frame scope := by
  induction path with
  | outermost held none =>
    obtain ⟨f', held', parent⟩ := kept held
    exact .outermost held' (parent.trans none)
  | inside held some older _ ih =>
    obtain ⟨f', held', parent⟩ := kept held
    exact .inside held' (parent.trans some) older ih

theorem Path.pushFrame (path : e.Path frame scope) (parent : Nat) : (e.pushFrame parent).2.Path frame scope :=
  path.mono fun {i} {f} held => by
    refine ⟨f, ?_, rfl⟩
    have inside : i < e.frames.size := (Array.getElem?_eq_some_iff.1 held).1
    have pushed : (e.pushFrame parent).2.frames = e.frames.push ⟨[], some parent⟩ := rfl
    rw [pushed, Array.getElem?_push_lt inside]
    rw [Array.getElem?_eq_getElem inside] at held
    exact held

theorem Path.setAt (path : e.Path frame scope) (target : Nat) (name : String) (v : α) :
    (e.setAt target name v).Path frame scope :=
  path.mono fun {i} {f} held => by
    have frames : (e.setAt target name v).frames[i]? =
        if target = i then e.frames[i]?.map (·.set name v) else e.frames[i]? := Array.getElem?_modify ..
    rw [frames, held]
    split
    · exact ⟨_, rfl, rfl⟩
    · exact ⟨f, rfl, rfl⟩

/-- The walk through the frames around a frame finds what the nearest frame of its scope has. -/
theorem Path.findFrom (path : e.Path frame scope) {vars : Nat → String → Option α}
    (same : ∀ {i : Nat} {f : Frame α}, e.frames[i]? = some f → ∀ x, f.find? x = vars i x) (x : String) {fuel : Nat}
    (enough : frame < fuel) :
    e.findFrom x fuel frame =
      (scope.find? fun i => (vars i x).isSome).bind fun i => (vars i x).map fun v => (i, v) := by
  induction path generalizing fuel with
  | @outermost frame f held none =>
    obtain ⟨fuel, rfl⟩ : ∃ more, fuel = more + 1 := ⟨fuel - 1, by omega⟩
    unfold Environment.findFrom
    rw [held]
    dsimp only
    rw [same held x, none, List.find?_singleton]
    cases found : vars frame x <;> simp [found]
  | @inside frame parent around f held some older _ ih =>
    obtain ⟨fuel, rfl⟩ : ∃ more, fuel = more + 1 := ⟨fuel - 1, by omega⟩
    unfold Environment.findFrom
    rw [held]
    dsimp only
    rw [same held x, some]
    cases found : vars frame x with
    | some v => simp [found]
    | none =>
      rw [List.find?_cons_of_neg (by simp [found])]
      exact ih (by omega)

/-- The slots that a release leaves hold what they held. -/
theorem getElem?_slots_release {height slot : Nat} (less : slot < max height 1) :
    (e.release height).slots[slot]? = e.slots[slot]? := by
  simp only [Environment.release, Array.shrink_eq_take, Array.take_eq_extract]
  rw [Array.getElem?_extract]
  split <;> grind

/-! ## The environment keeps to the ledger -/

/-- An environment in use holds what the ledger has recorded. -/
structure Records (c : Client α) (l : Ledger α) : Prop where
  frames : c.env.frames.size = l.opened
  vars {i : Nat} {f : Frame α} : c.env.frames[i]? = some f → ∀ x, f.find? x = l.vars i x
  height : c.env.slots.size = l.height
  slots {slot : Nat} : slot < l.height → ∃ frame, c.env.slots[slot]? = some frame ∧ c.env.Path frame (l.scopes slot)
  global : c.env.slots[0]? = some 0
  held : List.Forall₂ c.env.Path c.held l.held

/-- Two answers agree if they are the same and leave related states behind. -/
def Agree {β σ τ : Type} (Related : σ → τ → Prop) : Option (β × σ) → Option (β × τ) → Prop
  | some (a, s), some (b, t) => a = b ∧ Related s t
  | none, none => True
  | _, _ => False

variable {c : Client α} {l : Ledger α}

theorem records_start : Records (Client.start : Client α) Ledger.start where
  frames := rfl
  vars {i f} held x := by
    have held : (#[⟨[], none⟩] : Array (Frame α))[i]? = some f := held
    rw [Array.getElem?_singleton] at held
    split at held
    · cases held
      rfl
    · cases held
  height := rfl
  slots {slot} less := by
    obtain rfl : slot = 0 := by
      have less : slot < 1 := less
      omega
    exact ⟨0, rfl, .outermost (f := ⟨[], none⟩) rfl rfl⟩
  global := rfl
  held := .nil

namespace Records

theorem scope?_eq_none (records : Records c l) {slot : Nat} :
    l.scope? slot = none ↔ c.env.capture? slot = none := by
  unfold Ledger.scope? capture?
  rw [Array.getElem?_eq_none_iff, records.height]
  split <;> simp <;> omega

/-- The scope of a live slot. -/
theorem live_scope (records : Records c l) {slot frame : Nat} (live : c.env.capture? slot = some frame) :
    ∃ scope, l.scope? slot = some scope ∧ c.env.Path frame scope := by
  have less : slot < l.height := records.height ▸ (Array.getElem?_eq_some_iff.1 live).1
  obtain ⟨frame', live', path⟩ := records.slots less
  cases live.symm.trans live'
  exact ⟨_, if_pos less, path⟩

theorem pushFrame (records : Records c l) {frame : Nat} {scope : List Nat} (path : c.env.Path frame scope) :
    Records { c with env := (c.env.pushFrame frame).2 } (l.enter scope) where
  frames := by
    have size : (c.env.pushFrame frame).2.frames.size = c.env.frames.size + 1 := Array.size_push _
    rw [size, records.frames]
    rfl
  vars {i f} held x := by
    have held : (c.env.frames.push ⟨[], some frame⟩)[i]? = some f := held
    rw [Array.getElem?_push, records.frames] at held
    unfold Ledger.enter
    dsimp only
    split at held
    case isTrue new =>
      cases held
      rw [new, Function.update_self]
      rfl
    case isFalse old =>
      rw [Function.update_of_ne old]
      exact records.vars held x
  height := by
    have size : (c.env.pushFrame frame).2.slots.size = c.env.slots.size + 1 := Array.size_push _
    rw [size, records.height]
    rfl
  slots {slot} less := by
    have less : slot < l.height + 1 := less
    have slots : (c.env.pushFrame frame).2.slots = c.env.slots.push c.env.frames.size := rfl
    unfold Ledger.enter
    dsimp only
    rw [slots]
    by_cases new : slot = l.height
    · subst new
      refine ⟨c.env.frames.size, ?_, ?_⟩
      · rw [← records.height, Array.getElem?_push_size]
      · rw [Function.update_self, ← records.frames]
        obtain ⟨f, there⟩ := path.held
        have pushed : (c.env.pushFrame frame).2.frames[c.env.frames.size]? = some ⟨[], some frame⟩ :=
          Array.getElem?_push_size
        exact .inside pushed rfl (Array.getElem?_eq_some_iff.1 there).1 (path.pushFrame frame)
    · obtain ⟨frame', live, path'⟩ := records.slots (show slot < l.height by omega)
      refine ⟨frame', ?_, ?_⟩
      · rw [Array.getElem?_push_lt (by rw [records.height]; omega)]
        rw [Array.getElem?_eq_getElem (by rw [records.height]; omega)] at live
        exact live
      · rw [Function.update_of_ne new]
        exact path'.pushFrame frame
  global := by
    have positive : 0 < c.env.slots.size := (Array.getElem?_eq_some_iff.1 records.global).1
    have slots : (c.env.pushFrame frame).2.slots = c.env.slots.push c.env.frames.size := rfl
    rw [slots, Array.getElem?_push_lt positive, ← Array.getElem?_eq_getElem positive]
    exact records.global
  held := records.held.imp fun _ _ path => path.pushFrame frame

/-- An assignment is recorded. -/
theorem setAt (records : Records c l) (frame : Nat) (name : String) (v : α) :
    Records { c with env := c.env.setAt frame name v } (l.assign frame name v) where
  frames := (Array.size_modify ..).trans records.frames
  vars {i f} held x := by
    have frames : (c.env.setAt frame name v).frames[i]? =
        if frame = i then c.env.frames[i]?.map (·.set name v) else c.env.frames[i]? := Array.getElem?_modify ..
    have held : (c.env.setAt frame name v).frames[i]? = some f := held
    rw [frames] at held
    unfold Ledger.assign
    dsimp only
    split at held
    case isTrue here =>
      subst here
      obtain ⟨g, before, rfl⟩ := Option.map_eq_some_iff.1 held
      rw [Frame.find?_set, Function.update_self, records.vars before]
      by_cases same : x = name
      · rw [if_pos same, same, Function.update_self]
      · rw [if_neg same, Function.update_of_ne same]
    case isFalse other =>
      rw [Function.update_of_ne (Ne.symm other)]
      exact records.vars held x
  height := records.height
  slots less := by
    obtain ⟨frame', live, path⟩ := records.slots less
    exact ⟨frame', live, path.setAt frame name v⟩
  global := records.global
  held := records.held.imp fun _ _ path => path.setAt frame name v

theorem release (records : Records c l) (height : Nat) :
    Records { c with env := c.env.release height } { l with height := min l.height (max height 1) } where
  frames := records.frames
  vars := records.vars
  height := by
    have size : (c.env.release height).slots.size = min (max height 1) c.env.slots.size := Array.size_shrink ..
    rw [size, records.height, Nat.min_comm]
  slots {slot} less := by
    have less : slot < min l.height (max height 1) := less
    obtain ⟨frame, live, path⟩ := records.slots (show slot < l.height by omega)
    exact ⟨frame, (getElem?_slots_release (by omega)).trans live, path.mono fun held => ⟨_, held, rfl⟩⟩
  global := (getElem?_slots_release (by omega)).trans records.global
  held := records.held.imp fun _ _ path => path.mono fun held => ⟨_, held, rfl⟩

theorem hold (records : Records c l) {frame : Nat} {scope : List Nat} (path : c.env.Path frame scope) :
    Records { c with held := c.held ++ [frame] } { l with held := l.held ++ [scope] } where
  frames := records.frames
  vars := records.vars
  height := records.height
  slots := records.slots
  global := records.global
  held := List.rel_append records.held (.cons path .nil)

/-- What the nearest frame that has a variable is, seen from a frame. -/
theorem seenFrom (records : Records c l) {frame : Nat} {scope : List Nat} (path : c.env.Path frame scope) (x : String) :
    c.env.seenFrom frame x = (l.holder? scope x).bind fun i => (l.vars i x).map fun v => (i, v) :=
  path.findFrom records.vars x (Nat.lt_succ_self frame)

/-- The environment finds a variable in the frame that the ledger has it in. -/
theorem find? (records : Records c l) {slot frame : Nat} (live : c.env.capture? slot = some frame) {scope : List Nat}
    (path : c.env.Path frame scope) (x : String) :
    c.env.find? slot x = (l.holder? scope x).bind fun i => (l.vars i x).map fun v => (i, v) := by
  unfold Environment.find?
  rw [live]
  exact records.seenFrom path x

end Records

/-- The frame that holds a variable has it. -/
theorem Ledger.holder?_has {scope : List Nat} {x : String} {i : Nat} (holds : l.holder? scope x = some i) :
    ∃ v, l.vars i x = some v := by
  have has : (l.vars i x).isSome = true := List.find?_some (p := fun frame => (l.vars frame x).isSome) holds
  exact Option.isSome_iff_exists.1 has

/-- A request is answered as the ledger answers it, and the ledger is kept. -/
theorem agree_answer (records : Records c l) (r : Request α) : Agree Records (c.answer r) (l.answer r) := by
  have no_scope {slot : Nat} (dead : c.env.capture? slot = none) : l.scope? slot = none :=
    records.scope?_eq_none.2 dead
  have slot_of_height : (c.env.height : Nat) = l.height := records.height
  cases r with
  | push slot =>
    unfold Client.answer Ledger.answer push?
    dsimp only
    cases live : c.env.capture? slot with
    | none => rw [no_scope live]; trivial
    | some frame =>
      obtain ⟨scope, known, path⟩ := records.live_scope live
      rw [known]
      exact ⟨congrArg Reply.slot slot_of_height, records.pushFrame path⟩
  | pushCaptured handle =>
    unfold Client.answer Ledger.answer
    dsimp only
    cases given : c.held[handle]? with
    | none =>
      have unknown : l.held[handle]? = none := by
        rw [List.getElem?_eq_none_iff] at given ⊢
        rw [← records.held.length_eq]
        exact given
      rw [unknown]
      trivial
    | some frame =>
      obtain ⟨within, rfl⟩ := List.getElem?_eq_some_iff.1 given
      have within' : handle < l.held.length := records.held.length_eq ▸ within
      have path := records.held.get within within'
      rw [List.getElem?_eq_getElem within']
      exact ⟨congrArg Reply.slot slot_of_height, records.pushFrame path⟩
  | capture slot =>
    unfold Client.answer Ledger.answer
    dsimp only
    cases live : c.env.capture? slot with
    | none => rw [no_scope live]; trivial
    | some frame =>
      obtain ⟨scope, known, path⟩ := records.live_scope live
      rw [known]
      exact ⟨congrArg Reply.handle records.held.length_eq, records.hold path⟩
  | mark => exact ⟨congrArg Reply.height slot_of_height, records⟩
  | release height => exact ⟨rfl, records.release height.toNat⟩
  | get slot name =>
    unfold Client.answer Ledger.answer
    dsimp only
    cases live : c.env.capture? slot with
    | none => rw [no_scope live]; trivial
    | some frame =>
      obtain ⟨scope, known, path⟩ := records.live_scope live
      rw [known]
      refine ⟨congrArg Reply.value ?_, records⟩
      unfold get?
      rw [records.find? live path, Option.map_bind]
      refine congrArg (Option.bind (l.holder? scope name)) (funext fun i => ?_)
      exact (Option.map_map ..).trans (Option.map_id' ..)
  | set slot name v =>
    unfold Client.answer Ledger.answer set?
    dsimp only
    cases live : c.env.capture? slot with
    | none => rw [no_scope live]; trivial
    | some frame =>
      obtain ⟨scope, known, path⟩ := records.live_scope live
      rw [known, Option.map_some, Option.map_some]
      refine ⟨rfl, ?_⟩
      rw [path.head]
      exact records.setAt frame name v
  | update slot name v =>
    unfold Client.answer Ledger.answer update?
    dsimp only
    cases live : c.env.capture? slot with
    | none => rw [no_scope live]; trivial
    | some frame =>
      obtain ⟨scope, known, path⟩ := records.live_scope live
      rw [known, records.find? live path, Option.map_some, Option.map_some]
      cases holds : l.holder? scope name with
      | none => exact ⟨rfl, records⟩
      | some holder =>
        obtain ⟨old, has⟩ := Ledger.holder?_has holds
        rw [Option.bind_some, has]
        exact ⟨rfl, records.setAt holder name v⟩

/-- Whatever is asked, all answers are those of the ledger, and the ledger is kept. -/
theorem agree_answers (records : Records c l) (script : List (Request α)) :
    Agree Records (answers Client.answer c script) (answers Ledger.answer l script) := by
  induction script generalizing c l with
  | nil => exact ⟨rfl, records⟩
  | cons r rest ih =>
    have step := agree_answer records r
    unfold answers
    cases asked : c.answer r with
    | none =>
      cases told : l.answer r with
      | none => trivial
      | some _ => rw [asked, told] at step; exact step.elim
    | some answered =>
      cases told : l.answer r with
      | none => rw [asked, told] at step; exact step.elim
      | some said =>
        rw [asked, told] at step
        obtain ⟨same, kept⟩ := step
        have further := ih kept
        simp only [Option.bind_eq_bind, Option.bind_some]
        cases more : answers Client.answer answered.2 rest with
        | none =>
          cases most : answers Ledger.answer said.2 rest with
          | none => trivial
          | some _ => rw [more, most] at further; exact further.elim
        | some finished =>
          cases most : answers Ledger.answer said.2 rest with
          | none => rw [more, most] at further; exact further.elim
          | some recorded =>
            rw [more, most] at further
            exact ⟨congrArg₂ List.cons same further.1, further.2⟩

/-- A release changes nothing for a captured frame. -/
theorem seenFrom_release (e : Environment α) (height frame : Nat) (x : String) :
    (e.release height).seenFrom frame x = e.seenFrom frame x := by
  have walk (fuel id : Nat) : (e.release height).findFrom x fuel id = e.findFrom x fuel id := by
    induction fuel generalizing id with
    | zero => rfl
    | succ fuel ih =>
      unfold findFrom
      have frames : (e.release height).frames = e.frames := rfl
      rw [frames]
      simp only [ih]
  exact walk (frame + 1) frame

/-- A release changes nothing for the slots below it. -/
theorem find?_release {height slot : Nat} (less : slot < max height 1) (x : String) :
    (e.release height).find? slot x = e.find? slot x := by
  unfold find? capture?
  rw [getElem?_slots_release less]
  simp only [seenFrom_release]

/-- An assignment goes to the nearest frame that has the variable, and whoever finds the variable there sees it; nobody
sees anything else change. -/
theorem seenFrom_update? {slot : Nat} {name : String} {v : α} {e' : Environment α}
    (updated : e.update? slot name v = some e') :
    ∃ target old, e.find? slot name = some (target, old) ∧ ∀ other x, e'.seenFrom other x =
      (e.seenFrom other x).map fun found => (found.1, if found.1 = target ∧ x = name then v else found.2) := by
  obtain ⟨⟨target, old⟩, found, rfl⟩ := Option.map_eq_some_iff.1 updated
  obtain ⟨frame, live, seen⟩ := Option.bind_eq_some_iff.1 found
  obtain ⟨f, held, has⟩ := findFrom_has seen
  exact ⟨target, old, found, fun other x => findFrom_setAt held (by rw [has]; rfl) v x (other + 1) other⟩

/-- Whatever is asked of live slots and of frames that were given out, the answers are those of the ledger. Releasing
slots changes nothing for the slots below and for captured frames, the global frame stays, and an assignment is seen
by everyone who finds the variable in the frame that is assigned to. -/
theorem slots_refine_permanent_frames (script : List (Request α)) :
    (answers Client.answer Client.start script).map Prod.fst =
        (answers Ledger.answer Ledger.start script).map Prod.fst ∧
    ∀ {replies : List (Reply α)} {c : Client α}, answers Client.answer Client.start script = some (replies, c) →
      (∀ m : Int, (c.env.release m.toNat).capture? global = some 0 ∧
        (∀ slot : Nat, (slot : Int) < max 1 m → ∀ x, (c.env.release m.toNat).find? slot x = c.env.find? slot x) ∧
        ∀ frame ∈ c.held, (∃ f, c.env.frames[frame]? = some f) ∧
          ∀ x, (c.env.release m.toNat).seenFrom frame x = c.env.seenFrom frame x) ∧
      ∀ slot name v env, c.env.update? slot name v = some env →
        ∃ target old, c.env.find? slot name = some (target, old) ∧ ∀ other x, env.seenFrom other x =
          (c.env.seenFrom other x).map fun found => (found.1, if found.1 = target ∧ x = name then v else found.2) := by
  have agree := agree_answers records_start script
  constructor
  · cases asked : answers Client.answer Client.start script with
    | none =>
      cases told : answers Ledger.answer Ledger.start script with
      | none => rfl
      | some _ => rw [asked, told] at agree; exact agree.elim
    | some answered =>
      cases told : answers Ledger.answer Ledger.start script with
      | none => rw [asked, told] at agree; exact agree.elim
      | some said => rw [asked, told] at agree; exact congrArg some agree.1
  · intro replies c asked
    cases told : answers Ledger.answer Ledger.start script with
    | none => rw [asked, told] at agree; exact agree.elim
    | some said =>
      rw [asked, told] at agree
      have records := agree.2
      refine ⟨fun m => ⟨?_, ?_, ?_⟩, fun slot name v env updated => seenFrom_update? updated⟩
      · exact (records.release m.toNat).global
      · intro slot less x
        exact find?_release (by omega) x
      · intro frame given
        obtain ⟨i, within, rfl⟩ := List.getElem_of_mem given
        exact ⟨(records.held.get within (records.held.length_eq ▸ within)).held,
          seenFrom_release c.env m.toNat _⟩

/-- A closure holds on to the frame of a slot that is used again. -/
theorem closures_outlive_their_slots :
    ∃ c : Client Nat, answers Client.answer Client.start
        [.set 0 "x" 1, .push 0, .set 1 "y" 2, .capture 1, .release 1, .push 0, .pushCaptured 0, .get 1 "y", .get 2 "y",
          .update 2 "x" 5] =
        some ([.done, .slot 1, .done, .handle 0, .done, .slot 1, .slot 2, .value none, .value (some 2),
          .updated true], c) ∧
      (∀ x, (c.env.release 2).find? 1 x = c.env.find? 1 x) ∧
      (∀ x, (c.env.release 2).seenFrom 1 x = c.env.seenFrom 1 x) ∧
      ∀ env, c.env.update? 1 "x" 7 = some env → env.seenFrom 1 "x" = some (0, 7) := by
  refine ⟨⟨⟨#[⟨[("x", 5)], none⟩, ⟨[("y", 2)], some 0⟩, ⟨[], some 0⟩, ⟨[], some 1⟩], #[0, 2, 3]⟩, [1]⟩, ?_⟩
  refine (fun ran => ⟨ran, ?_⟩) rfl
  have kept := (slots_refine_permanent_frames _).2 ran
  refine ⟨(kept.1 2).2.1 1 (by decide), ((kept.1 2).2.2 1 (by decide)).2, fun env updated => ?_⟩
  obtain ⟨target, old, found, sees⟩ := kept.2 1 "x" 7 env updated
  cases found
  exact sees 1 "x"

end ClassScript.Environment
