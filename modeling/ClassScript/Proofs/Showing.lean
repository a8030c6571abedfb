import ClassScript.Proofs.MemberResolution
import ClassScript.Proofs.Steady
import ClassScript.Standard.Arrays
import Mathlib.Data.List.Nodup
import Mathlib.Data.List.Perm.Subperm
import Mathlib.Logic.Relation

/-!
Showing values. An object is shown with the values of its fields and an array with its items, so that showing a
value goes through all that it holds. Nothing keeps a program from letting an object or an array hold itself;
showing such a value never ends. All other values are nested less deeply than there are objects and arrays
(`nestedWithin_of_not_circular`), and are shown whatever else the program has made
(`showing_ends_iff_not_circular`).
-/

namespace ClassScript

namespace Heap

open Relation

/-- The values that are shown as parts of a value: the fields of an object, or the items of an array. -/
def parts (h : Heap) : Value → List Value
  | .object id =>
    match (h.object id).host with
    | some (.array a) => h.arrays.items a
    | some _ => []
    | none =>
      ((h.lineage (h.object id).cls).flatMap fun c => c.instanceFields.map (·.name.text)).map fun name =>
        ((h.object id).field? name).getD .null
  | .host (.array a) => h.arrays.items a
  | _ => []

/-- A value is shown with another one as a part. -/
def Holds (h : Heap) (v w : Value) : Prop := w ∈ h.parts v

/-- A value is or holds, at any depth, one that holds itself. -/
def Circular (h : Heap) (v : Value) : Prop := ∃ u, ReflTransGen h.Holds v u ∧ TransGen h.Holds u u

/-- Parts of a value are nested at most `n` deep. -/
def NestedWithin (h : Heap) : Nat → Value → Prop
  | 0, v => h.parts v = []
  | n + 1, v => ∀ w ∈ h.parts v, h.NestedWithin n w

variable {h : Heap}

/-! ## How deep parts are nested -/

theorem nestedWithin_of_parts_eq_nil {v : Value} (bare : h.parts v = []) (n : Nat) : h.NestedWithin n v := by
  cases n with
  | zero => exact bare
  | succ n =>
    intro w member
    rw [bare] at member
    cases member

/-- A value that leads to a circle has a part that does. -/
theorem Circular.exists_part {v : Value} (circular : h.Circular v) : ∃ w, h.Holds v w ∧ h.Circular w := by
  obtain ⟨u, leads, around⟩ := circular
  rcases leads.cases_head with rfl | ⟨w, holds, leads⟩
  · obtain ⟨w, holds, back⟩ := TransGen.head'_iff.1 around
    exact ⟨w, holds, v, back, around⟩
  · exact ⟨w, holds, u, leads, around⟩

theorem circular_iff {v : Value} : h.Circular v ↔ ∃ w, h.Holds v w ∧ h.Circular w :=
  ⟨Circular.exists_part, fun ⟨_, holds, u, leads, around⟩ => ⟨u, .head holds leads, around⟩⟩

/-- All objects and arrays of a heap. -/
def wholes (h : Heap) : List Value :=
  (List.range h.objects.size).map .object ++ (List.range h.arrays.refs.size).map fun a => .host (.array a)

theorem nesting_eq (h : Heap) : h.nesting = 2 * (h.wholes.length + 1) + 2 := by
  simp only [nesting, wholes, List.length_append, List.length_map, List.length_range]
  omega

/-- What is not in the heap has no parts but null. -/
theorem eq_null_of_holds {v w : Value} (outside : v ∉ h.wholes) (holds : h.Holds v w) : w = .null := by
  simp only [wholes, List.mem_append, List.mem_map, List.mem_range, not_or, not_exists, not_and] at outside
  cases v with
  | object id =>
    have missing : h.object id = default := by
      have beyond : h.objects.size ≤ id := Nat.le_of_not_lt fun inside => outside.1 id inside rfl
      simp [object, Array.getElem?_eq_none beyond]
    simp only [Holds, parts, missing] at holds
    obtain ⟨name, -, rfl⟩ := List.mem_map.1 holds
    rfl
  | host x =>
    cases x with
    | array a =>
      have beyond : h.arrays.refs.size ≤ a := Nat.le_of_not_lt fun inside => outside.2 a inside rfl
      simp [Holds, parts, Arrays.items, Arrays.ref, Array.getElem?_eq_none beyond] at holds
      cases holds
    | _ => cases holds
  | _ => cases holds

/-- What lies on the way to a value that leads to no circle does not contain it. -/
theorem nodup_cons_of_above {path : List Value} {v : Value} (distinct : path.Nodup)
    (above : ∀ u ∈ path, TransGen h.Holds u v) (straight : ¬ h.Circular v) : (v :: path).Nodup :=
  List.nodup_cons.2 ⟨fun member => straight ⟨v, .refl, above v member⟩, distinct⟩

/-- A value that leads to no circle is not nested more deeply than there are objects and arrays: those that are
entered on the way to a part are different ones, since none of them can be met again. -/
theorem nestedWithin_of_not_circular {v : Value} (straight : ¬ h.Circular v) :
    h.NestedWithin (h.wholes.length + 1) v := by
  suffices entered : ∀ (n : Nat) (path : List Value) (v : Value), path.Nodup → path ⊆ h.wholes →
      (∀ u ∈ path, TransGen h.Holds u v) → ¬ h.Circular v → h.wholes.length ≤ path.length + n →
      h.NestedWithin (n + 1) v from
    entered h.wholes.length [] v List.nodup_nil (List.nil_subset _) (by simp) straight (Nat.le_add_left _ _)
  intro n
  induction n with
  | zero =>
    intro path v distinct inside above straight full w holds
    have outside : v ∉ h.wholes := fun whole => by
      have bounded := ((nodup_cons_of_above distinct above straight).subperm (List.cons_subset.2 ⟨whole, inside⟩)).length_le
      rw [List.length_cons] at bounded
      omega
    rw [eq_null_of_holds outside holds]
    exact nestedWithin_of_parts_eq_nil rfl _
  | succ n ih =>
    intro path v distinct inside above straight full w holds
    by_cases whole : v ∈ h.wholes
    · refine ih (v :: path) w (nodup_cons_of_above distinct above straight) (List.cons_subset.2 ⟨whole, inside⟩)
        (fun u member => ?_) (fun circular => straight (circular_iff.2 ⟨w, holds, circular⟩)) (by rw [List.length_cons]; omega)
      rcases List.mem_cons.1 member with rfl | member
      · exact .single holds
      · exact (above u member).tail holds
    · rw [eq_null_of_holds whole holds]
      exact nestedWithin_of_parts_eq_nil rfl _

/-! ## Texts -/

theorem isSome_mapM {α β : Type} {f : α → Option β} {l : List α} :
    (l.mapM f).isSome = true ↔ ∀ a ∈ l, (f a).isSome = true := by
  induction l with
  | nil => simp
  | cons a l ih =>
    rw [List.mapM_cons, List.forall_mem_cons, ← ih]
    cases f a <;> cases l.mapM f <;> simp

theorem mapM_mono {α β : Type} {f g : α → Option β} (agree : ∀ a b, f a = some b → g a = some b) {l : List α}
    {bs : List β} (found : l.mapM f = some bs) : l.mapM g = some bs := by
  induction l generalizing bs with
  | nil => exact found
  | cons a l ih =>
    simp only [List.mapM_cons, Option.bind_eq_bind, Option.bind_eq_some_iff] at found ⊢
    obtain ⟨b, first, rest, later, last⟩ := found
    exact ⟨b, agree a b first, rest, ih later, last⟩

/-- One more step does not change a text. -/
theorem textWithin_succ (fuel : Nat) :
    (∀ (v : Value) (t : Bytes), h.textWithin fuel v = some t → h.textWithin (fuel + 1) v = some t) ∧
      ∀ (x : Host) (t : Bytes), h.hostTextWithin fuel x = some t → h.hostTextWithin (fuel + 1) x = some t := by
  induction fuel with
  | zero => exact ⟨fun v t found => by simp [textWithin] at found, fun x t found => by simp [hostTextWithin] at found⟩
  | succ fuel ih =>
    refine ⟨fun v t found => ?_, fun x t found => ?_⟩
    · cases v with
      | object id =>
        rw [textWithin] at found ⊢
        dsimp only at found ⊢
        cases host : (h.object id).host with
        | some x =>
          rw [host] at found
          exact ih.2 x t found
        | none =>
          rw [host] at found
          dsimp only at found ⊢
          simp only [Option.bind_eq_bind, Option.bind_eq_some_iff] at found ⊢
          obtain ⟨parts, shown, last⟩ := found
          refine ⟨parts, mapM_mono (fun name part found => ?_) shown, last⟩
          obtain ⟨inner, within, last⟩ := Option.bind_eq_some_iff.1 found
          exact Option.bind_eq_some_iff.2 ⟨inner, ih.1 _ _ within, last⟩
      | host x =>
        rw [textWithin] at found ⊢
        exact ih.2 x t found
      | _ =>
        rw [textWithin] at found ⊢
        exact found
    · cases x with
      | array id =>
        rw [hostTextWithin] at found ⊢
        simp only [Option.bind_eq_bind, Option.bind_eq_some_iff] at found ⊢
        obtain ⟨parts, shown, last⟩ := found
        exact ⟨parts, mapM_mono ih.1 shown, last⟩
      | _ =>
        rw [hostTextWithin] at found ⊢
        exact found

theorem textWithin_mono {fuel more : Nat} {v : Value} {t : Bytes} (found : h.textWithin fuel v = some t)
    (le : fuel ≤ more) : h.textWithin more v = some t := by
  induction le with
  | refl => exact found
  | step _ ih => exact (h.textWithin_succ _).1 v t ih

theorem isSome_bind_pure {α β : Type} (x : Option α) (f : α → β) :
    (x >>= fun a => pure (f a)).isSome = x.isSome := by
  cases x <;> rfl

/-- A value has a text if its parts have. -/
theorem isSome_textWithin_of_parts {fuel : Nat} {v : Value} (all : ∀ w ∈ h.parts v, (h.textWithin fuel w).isSome = true) :
    (h.textWithin (fuel + 2) v).isSome = true := by
  cases v with
  | object id =>
    rw [textWithin]
    dsimp only
    cases host : (h.object id).host with
    | some x =>
      dsimp only
      cases x with
      | array a =>
        rw [hostTextWithin, isSome_bind_pure, isSome_mapM]
        exact fun w member => all w (by simpa [parts, host] using member)
      | _ => rw [hostTextWithin]; rfl
    | none =>
      dsimp only
      rw [isSome_bind_pure, isSome_mapM]
      intro name member
      rw [isSome_bind_pure]
      have shown := all (((h.object id).field? name).getD .null) (by
        simp only [parts, host]
        exact List.mem_map_of_mem member)
      obtain ⟨t, found⟩ := Option.isSome_iff_exists.1 shown
      rw [textWithin_mono found (Nat.le_succ fuel)]
      rfl
  | host x =>
    rw [textWithin]
    cases x with
    | array a =>
      rw [hostTextWithin, isSome_bind_pure, isSome_mapM]
      exact all
    | _ => rw [hostTextWithin]; rfl
  | _ => rw [textWithin]; rfl

/-- The parts of a value that has a text have texts, too. -/
theorem isSome_textWithin_of_holds {fuel : Nat} {v w : Value} (shown : (h.textWithin fuel v).isSome = true)
    (holds : h.Holds v w) : ∃ less < fuel, (h.textWithin less w).isSome = true := by
  have ofArray {fuel a : Nat} (shown : (h.hostTextWithin fuel (.array a)).isSome = true) (member : w ∈ h.arrays.items a) :
      ∃ less < fuel, (h.textWithin less w).isSome = true := by
    cases fuel with
    | zero => simp [hostTextWithin] at shown
    | succ fuel =>
      rw [hostTextWithin, isSome_bind_pure, isSome_mapM] at shown
      exact ⟨fuel, Nat.lt_succ_self fuel, shown w member⟩
  cases fuel with
  | zero => simp [textWithin] at shown
  | succ fuel =>
    cases v with
    | object id =>
      rw [textWithin] at shown
      dsimp only at shown
      cases host : (h.object id).host with
      | some x =>
        rw [host] at shown
        cases x with
        | array a =>
          obtain ⟨less, below, part⟩ := ofArray shown (by simpa [Holds, parts, host] using holds)
          exact ⟨less, Nat.lt_succ_of_lt below, part⟩
        | _ => simp [Holds, parts, host] at holds
      | none =>
        rw [host] at shown
        dsimp only at shown
        rw [isSome_bind_pure, isSome_mapM] at shown
        simp only [Holds, parts, host] at holds
        obtain ⟨name, member, rfl⟩ := List.mem_map.1 holds
        have part := shown name member
        rw [isSome_bind_pure] at part
        exact ⟨fuel, Nat.lt_succ_self fuel, part⟩
    | host x =>
      rw [textWithin] at shown
      cases x with
      | array a =>
        obtain ⟨less, below, part⟩ := ofArray shown holds
        exact ⟨less, Nat.lt_succ_of_lt below, part⟩
      | _ => cases holds
    | _ => cases holds

theorem isSome_textWithin_of_nestedWithin {n : Nat} {v : Value} (nested : h.NestedWithin n v) :
    (h.textWithin (2 * n + 2) v).isSome = true := by
  induction n generalizing v with
  | zero => exact isSome_textWithin_of_parts (by rw [show h.parts v = [] from nested]; simp)
  | succ n ih => exact isSome_textWithin_of_parts fun w holds => ih (nested w holds)

theorem not_circular_of_textWithin {fuel : Nat} {v : Value} (shown : (h.textWithin fuel v).isSome = true) :
    ¬ h.Circular v := by
  induction fuel using Nat.strongRecOn generalizing v with
  | ind fuel ih =>
    intro circular
    obtain ⟨w, holds, circular⟩ := circular.exists_part
    obtain ⟨less, below, shown⟩ := isSome_textWithin_of_holds shown holds
    exact ih less below shown circular

theorem NestedWithin.not_circular {n : Nat} {v : Value} (nested : h.NestedWithin n v) : ¬ h.Circular v :=
  not_circular_of_textWithin (isSome_textWithin_of_nestedWithin nested)

/-- The steps that are allowed for are as good as any number of steps. -/
theorem text?_eq_some_iff {v : Value} {t : Bytes} :
    h.text? v = some t ↔ ∃ steps, ∀ fuel, steps ≤ fuel → h.textWithin fuel v = some t := by
  constructor
  · exact fun found => ⟨h.nesting, fun fuel le => textWithin_mono found le⟩
  · rintro ⟨steps, stable⟩
    have shown : (h.textWithin steps v).isSome = true := by rw [stable steps (Nat.le_refl _)]; rfl
    have nested := nestedWithin_of_not_circular (not_circular_of_textWithin shown)
    obtain ⟨t', found⟩ := Option.isSome_iff_exists.1 (isSome_textWithin_of_nestedWithin nested)
    rw [← nesting_eq] at found
    have same := textWithin_mono found (Nat.le_max_left h.nesting steps)
    rw [stable _ (Nat.le_max_right ..)] at same
    rw [text?, found, same]

theorem isSome_text?_iff {v : Value} : (h.text? v).isSome = true ↔ ¬ h.Circular v := by
  constructor
  · exact not_circular_of_textWithin
  · intro straight
    rw [text?, nesting_eq]
    exact isSome_textWithin_of_nestedWithin (nestedWithin_of_not_circular straight)

/-! ## Children of nodes -/

theorem isSome_foldlM {α β : Type} {f : β → α → Option β} {l : List α}
    (each : ∀ a ∈ l, ∀ b, (f b a).isSome = true) (b : β) : (l.foldlM f b).isSome = true := by
  induction l generalizing b with
  | nil => rfl
  | cons a l ih =>
    obtain ⟨c, first⟩ := Option.isSome_iff_exists.1 (each a List.mem_cons_self b)
    rw [List.foldlM_cons, first]
    exact ih (fun x member => each x (List.mem_cons_of_mem a member)) c

theorem isSome_of_foldlM {α β : Type} {f : β → α → Option β} {l : List α} {b : β}
    (all : (l.foldlM f b).isSome = true) {a : α} (member : a ∈ l) : ∃ c, (f c a).isSome = true := by
  induction l generalizing b with
  | nil => cases member
  | cons x l ih =>
    rw [List.foldlM_cons] at all
    cases first : f b x with
    | none => simp [first] at all
    | some c =>
      rw [first] at all
      rcases List.mem_cons.1 member with rfl | later
      · exact ⟨b, by rw [first]; rfl⟩
      · exact ih all later

theorem foldlM_mono {α β : Type} {f g : β → α → Option β} (agree : ∀ b a c, f b a = some c → g b a = some c)
    {l : List α} {b c : β} (found : l.foldlM f b = some c) : l.foldlM g b = some c := by
  induction l generalizing b with
  | nil => exact found
  | cons a l ih =>
    rw [List.foldlM_cons] at found ⊢
    obtain ⟨d, first, rest⟩ := Option.bind_eq_some_iff.1 found
    exact Option.bind_eq_some_iff.2 ⟨d, agree b a d first, ih rest⟩

/-- Whatever is not the instance of an array is added in one step, as text if at all. -/
theorem addValue_of_no_array {v : Value} (other : ∀ id a, v = .object id → (h.object id).host ≠ some (.array a))
    (fuel : Nat) (n : Markup.Node) :
    h.addValue (fuel + 1) n v = h.addValue 1 n v ∧ ((h.addValue 1 n v).isSome = true ↔ ¬ h.Circular v) := by
  have asText : ((h.text? v).map n.addText).isSome = true ↔ ¬ h.Circular v := by rw [Option.isSome_map, isSome_text?_iff]
  have asItself (bare : h.parts v = []) (m : Markup.Node) : (some m).isSome = true ↔ ¬ h.Circular v := by
    refine ⟨fun _ circular => ?_, fun _ => rfl⟩
    obtain ⟨w, holds, -⟩ := circular.exists_part
    rw [Holds, bare] at holds
    cases holds
  cases v with
  | null => exact ⟨rfl, asItself rfl n⟩
  | void => exact ⟨rfl, asItself rfl n⟩
  | object id =>
    simp only [addValue]
    cases host : (h.object id).host with
    | some x =>
      cases x with
      | array a => exact absurd host (other id a rfl)
      | iterator _ => exact ⟨rfl, asText⟩
      | node c => exact ⟨rfl, asItself (by simp [parts, host]) _⟩
    | none => exact ⟨rfl, asText⟩
  | host x =>
    cases x with
    | node c => exact ⟨rfl, asItself rfl _⟩
    | _ => exact ⟨rfl, asText⟩
  | _ => exact ⟨rfl, asText⟩

theorem addValue_of_array {id a : Nat} (host : (h.object id).host = some (.array a)) (fuel : Nat) (n : Markup.Node) :
    h.addValue (fuel + 1) n (.object id) = (h.arrays.items a).foldlM (fun n v => h.addValue fuel n v) n := by
  simp only [addValue, host]

theorem parts_of_array {id a : Nat} (host : (h.object id).host = some (.array a)) :
    h.parts (.object id) = h.arrays.items a := by simp [parts, host]

/-- What is added comes from the items of an array, or all at once. -/
theorem array_or_not (h : Heap) (v : Value) :
    (∃ id a, v = .object id ∧ (h.object id).host = some (.array a)) ∨
      ∀ id a, v = .object id → (h.object id).host ≠ some (.array a) := by
  by_cases held : ∃ id a, v = .object id ∧ (h.object id).host = some (.array a)
  · exact .inl held
  · exact .inr fun id a is host => held ⟨id, a, is, host⟩

/-- One more step does not change what is added. -/
theorem addValue_succ (fuel : Nat) (n m : Markup.Node) (v : Value) (found : h.addValue fuel n v = some m) :
    h.addValue (fuel + 1) n v = some m := by
  induction fuel generalizing n m v with
  | zero => cases found
  | succ fuel ih =>
    rcases h.array_or_not v with ⟨id, a, rfl, host⟩ | other
    · rw [addValue_of_array host] at found ⊢
      exact foldlM_mono (fun n v m => ih n m v) found
    · rw [(addValue_of_no_array other _ n).1] at found ⊢
      exact found

theorem addValue_mono {fuel more : Nat} {n m : Markup.Node} {v : Value} (found : h.addValue fuel n v = some m)
    (le : fuel ≤ more) : h.addValue more n v = some m := by
  induction le with
  | refl => exact found
  | step _ ih => exact h.addValue_succ _ n m v ih

theorem isSome_addValue_of_nestedWithin {depth : Nat} {v : Value} (nested : h.NestedWithin depth v)
    (n : Markup.Node) : (h.addValue (depth + 1) n v).isSome = true := by
  induction depth generalizing v n with
  | zero =>
    rcases h.array_or_not v with ⟨id, a, rfl, host⟩ | other
    · rw [addValue_of_array host, ← parts_of_array host, show h.parts _ = [] from nested]
      rfl
    · exact (addValue_of_no_array other 0 n).2.2 nested.not_circular
  | succ depth ih =>
    rcases h.array_or_not v with ⟨id, a, rfl, host⟩ | other
    · rw [addValue_of_array host]
      exact isSome_foldlM (fun w member n => ih (nested w (by rw [parts_of_array host]; exact member)) n) n
    · obtain ⟨once, ends⟩ := addValue_of_no_array other (depth + 1) n
      rw [once, ends]
      exact nested.not_circular

theorem not_circular_of_addValue {fuel : Nat} {n : Markup.Node} {v : Value} (added : (h.addValue fuel n v).isSome = true) :
    ¬ h.Circular v := by
  induction fuel generalizing v n with
  | zero => cases added
  | succ fuel ih =>
    rcases h.array_or_not v with ⟨id, a, rfl, host⟩ | other
    · rw [addValue_of_array host] at added
      intro circular
      obtain ⟨w, holds, circular⟩ := circular.exists_part
      rw [Holds, parts_of_array host] at holds
      obtain ⟨m, added⟩ := isSome_of_foldlM added holds
      exact ih added circular
    · obtain ⟨once, ends⟩ := addValue_of_no_array other fuel n
      exact ends.1 (once ▸ added)

theorem isSome_addValue_iff {n : Markup.Node} {v : Value} :
    (h.addValue h.nesting n v).isSome = true ↔ ¬ h.Circular v := by
  refine ⟨not_circular_of_addValue, fun straight => ?_⟩
  have added := isSome_addValue_of_nestedWithin (nestedWithin_of_not_circular straight) n
  obtain ⟨m, found⟩ := Option.isSome_iff_exists.1 added
  rw [addValue_mono found (by rw [nesting_eq]; omega)]
  rfl

end Heap

namespace Evaluation

variable {w : World} {s : State}

/-- What is shown, or that showing it does not end. -/
def orEndless {α : Type} : Option α → Except Stop α
  | some a => .ok a
  | none => .error .endless

theorem orEndless_ok_iff {α : Type} {x : Option α} :
    (∃ a, (orEndless x, s) = ((.ok a : Except Stop α), s)) ↔ x.isSome = true := by
  cases x with
  | none => exact ⟨fun ⟨a, made⟩ => (by cases made), fun shown => (by cases shown)⟩
  | some a => exact ⟨fun _ => rfl, fun _ => ⟨a, rfl⟩⟩

theorem heap_run (w : World) (s : State) : heap w s = (.ok s.heap, s) := rfl

theorem text_run (v : Value) (w : World) (s : State) : text v w s = (orEndless (s.heap.text? v), s) := by
  rw [text, bind_run, heap_run]
  dsimp only
  cases s.heap.text? v <;> rfl

theorem addValue_run (n : Markup.Node) (v : Value) (w : World) (s : State) :
    addValue n v w s = (orEndless (s.heap.addValue s.heap.nesting n v), s) := by
  rw [addValue, bind_run, heap_run]
  dsimp only
  cases s.heap.addValue s.heap.nesting n v <;> rfl

theorem texts_run (items : List Value) (w : World) (s : State) :
    (items.mapM text) w s = (orEndless (items.mapM s.heap.text?), s) := by
  induction items with
  | nil => rfl
  | cons v items ih =>
    rw [List.mapM_cons, List.mapM_cons, bind_run, text_run]
    cases s.heap.text? v with
    | none => rfl
    | some t =>
      dsimp only [orEndless]
      rw [bind_run, ih]
      cases items.mapM s.heap.text? <;> rfl

theorem joined_run (a : Nat) (separator : Bytes) (w : World) (s : State) :
    Standard.joined a separator w s =
      (orEndless (((s.heap.arrays.items a).mapM s.heap.text?).map fun parts => .ok (.string (separator.intercalate parts))),
        s) := by
  have unfolded : Standard.joined a separator w s =
      (((s.heap.arrays.items a).mapM text) >>= fun parts => give (.string (separator.intercalate parts))) w s := rfl
  rw [unfolded, bind_run, texts_run]
  cases (s.heap.arrays.items a).mapM s.heap.text? <;> rfl

end Evaluation

open Evaluation in
/-- Showing a value ends, as text and as a child of markup, exactly if it leads to no object or array that holds
itself; the same goes for joining the items of an array. Any number of steps that is large enough gives the same,
and those that the interpreter allows for are enough. -/
theorem showing_ends_iff_not_circular (w : World) (s : State) (v : Value) :
    ((∃ steps t, ∀ fuel, steps ≤ fuel → s.heap.textWithin fuel v = some t) ↔ ¬ s.heap.Circular v) ∧
      ((∃ t, text v w s = (.ok t, s)) ↔ ¬ s.heap.Circular v) ∧
      (∀ n, (∃ steps m, ∀ fuel, steps ≤ fuel → s.heap.addValue fuel n v = some m) ↔ ¬ s.heap.Circular v) ∧
      (∀ n, (∃ m, addValue n v w s = (.ok m, s)) ↔ ¬ s.heap.Circular v) ∧
      ∀ a separator, (∃ t, Standard.joined a separator w s = (.ok t, s)) ↔ ¬ s.heap.Circular (.host (.array a)) := by
  refine ⟨?_, ?_, fun n => ?_, fun n => ?_, fun a separator => ?_⟩
  · rw [← Heap.isSome_text?_iff, Option.isSome_iff_exists, exists_comm]
    exact exists_congr fun t => Heap.text?_eq_some_iff.symm
  · rw [text_run, orEndless_ok_iff, Heap.isSome_text?_iff]
  · constructor
    · rintro ⟨steps, m, stable⟩
      exact Heap.not_circular_of_addValue (by rw [stable steps (Nat.le_refl _)]; rfl)
    · intro straight
      obtain ⟨m, found⟩ := Option.isSome_iff_exists.1 ((Heap.isSome_addValue_iff (n := n)).2 straight)
      exact ⟨s.heap.nesting, m, fun fuel le => Heap.addValue_mono found le⟩
  · rw [addValue_run, orEndless_ok_iff, Heap.isSome_addValue_iff]
  · rw [joined_run, orEndless_ok_iff, Option.isSome_map, Heap.isSome_mapM, Heap.circular_iff]
    simp [Heap.isSome_text?_iff, Heap.Holds, Heap.parts]

/-! ## An object that holds itself -/

open Sample Evaluation

/-- `class Knot { public self: mixed = null; }`, `let k = new Knot();`, `k.self = k;` and further statements. -/
def knotted (further : List Stmt) : LinkedProgram :=
  let k : Expr := .name (named "k")
  .ofProgram ⟨"main.clasp",
    [.declares (cls "Knot" none [{ field "self" (.null default) with type := some (.simple default "mixed" false) }] []),
      .binds default (named "k") none (some (.create default (.simple default "Knot" false) [])),
      .does default (.assign default (.member default k (named "self")) k)] ++ further,
    default⟩

/-- `"" + k;` -/
def showsKnot : Stmt := .does default (.binary default .add (.string default) (.name (named "k")))

/-- Whether a value is the first object. -/
def isFirstObject : Value → Bool
  | .object 0 => true
  | _ => false

theorem circular_of_first {h : Heap} (found : (h.parts (.object 0)).any isFirstObject = true) : h.Circular (.object 0) := by
  obtain ⟨w, member, isFirst⟩ := List.any_eq_true.1 found
  have same : w = .object 0 := by
    unfold isFirstObject at isFirst
    split at isFirst
    · rfl
    · cases isFirst
  exact ⟨.object 0, .refl, .single (same ▸ member)⟩

theorem knot_is_circular : (finalState (knotted [])).heap.Circular (.object 0) := circular_of_first (by decide +kernel)

/-- Whether a run was stopped since it would not end. -/
def isEndless (r : Except Stop Value × Interpreter) : Bool :=
  match r.1 with
  | .error Evaluation.Stop.endless => true
  | _ => false

/-- The program is accepted and runs to its end, and the object that it makes holds itself: it has no text, and
cannot be added to markup. A program that goes on to show it is accepted and does not end. -/
theorem self_holding_object_is_never_shown :
    (∃ c, (knotted []).check = .ok c) ∧ ((Interpreter.new 0 none).run (knotted [])).1.toOption.isSome = true ∧
      (∀ fuel, (finalState (knotted [])).heap.textWithin fuel (.object 0) = none) ∧
      (∀ fuel n, (finalState (knotted [])).heap.addValue fuel n (.object 0) = none) ∧
      (∃ c, (knotted [showsKnot]).check = .ok c) ∧
      isEndless ((Interpreter.new 0 none).run (knotted [showsKnot])) = true := by
  obtain ⟨c, accepted, -⟩ := exists_accepted (p := knotted []) (P := fun _ => True) (by decide +kernel)
  obtain ⟨d, accepted', -⟩ := exists_accepted (p := knotted [showsKnot]) (P := fun _ => True) (by decide +kernel)
  refine ⟨⟨c, accepted⟩, by decide +kernel, fun fuel => ?_, fun fuel n => ?_, ⟨d, accepted'⟩, by decide +kernel⟩
  · exact Option.not_isSome_iff_eq_none.1 fun shown => Heap.not_circular_of_textWithin shown knot_is_circular
  · exact Option.not_isSome_iff_eq_none.1 fun added => Heap.not_circular_of_addValue added knot_is_circular

end ClassScript
