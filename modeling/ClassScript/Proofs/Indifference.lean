import ClassScript.Modules.Assembly
import ClassScript.Proofs.Resolution

/-!
Computations that do not tell alike states apart: from two of them they give one result, and leave alike states. If
loading and parsing are such, so is all that is put together from them, up to the assembly of a program.
-/

namespace ClassScript

section Indifferent

variable {σ α β : Type} {Alike : σ → σ → Prop}

/-- From alike states a computation gives one result, and ends in alike states. -/
def Indifferent (Alike : σ → σ → Prop) (x : StateM σ α) : Prop :=
  ∀ s t, Alike s t → (x.run s).1 = (x.run t).1 ∧ Alike (x.run s).2 (x.run t).2

namespace Indifferent

theorem pure (a : α) : Indifferent Alike (return a) := fun _ _ alike => ⟨rfl, alike⟩

theorem bind {x : StateM σ α} {next : α → StateM σ β} (first : Indifferent Alike x)
    (rest : ∀ a, Indifferent Alike (next a)) : Indifferent Alike (x >>= next) := by
  intro s t alike
  obtain ⟨same, alike⟩ := first s t alike
  have run (s : σ) : (x >>= next).run s = (next (x.run s).1).run (x.run s).2 := rfl
  rw [run s, run t, same]
  exact rest _ _ _ alike

/-- A computation goes on with what succeeded, and ends with what failed. -/
theorem orEnd {ε : Type} {x : StateM σ (Except ε α)} {next : Except ε α → StateM σ β} (first : Indifferent Alike x)
    (failed : ∀ e, Indifferent Alike (next (.error e))) (ok : ∀ a, Indifferent Alike (next (.ok a))) :
    Indifferent Alike (x >>= next) := by
  refine first.bind fun r => ?_
  cases r with
  | error e => exact failed e
  | ok a => exact ok a

end Indifferent

end Indifferent

namespace Modules

variable {σ : Type} {Alike : σ → σ → Prop} {f : Fetcher (StateM σ)}

theorem indifferent_fetch (loads : ∀ path, Indifferent Alike (f.load path))
    (parses : ∀ file text, Indifferent Alike (f.parse file text)) (isLibrary : Bool) (r : Request) :
    Indifferent Alike (fetch f isLibrary r) := by
  refine (loads r.path).orEnd (fun _ => .pure _) fun source => ?_
  exact (parses _ source).orEnd (fun _ => .pure _) fun _ => .pure _

section Levels

variable (loads : ∀ path, Indifferent Alike (f.load path))
  (parses : ∀ file text, Indifferent Alike (f.parse file text))

include loads parses

theorem indifferent_fetchAll (isLibrary : Bool) (wanted : List Request) :
    Indifferent Alike (fetchAll f isLibrary wanted) := by
  induction wanted with
  | nil => exact .pure _
  | cons r rest ih =>
    refine (indifferent_fetch loads parses isLibrary r).orEnd (fun _ => .pure _) fun u => ?_
    exact ih.orEnd (fun _ => .pure _) fun _ => .pure _

theorem indifferent_fetchCompleting (order : List Request → List (Request × Nat)) (isLibrary : Bool)
    (wanted : List Request) : Indifferent Alike (fetchCompleting f order isLibrary wanted) := by
  have into (order : List (Request × Nat)) (places : List (Option SourceUnit)) :
      Indifferent Alike (fetchInto f isLibrary order places) := by
    induction order generalizing places with
    | nil => exact .pure _
    | cons first rest ih =>
      exact (indifferent_fetch loads parses isLibrary first.1).orEnd (fun _ => .pure _) fun u => ih _
  exact (into _ _).orEnd (fun _ => .pure _) fun _ => .pure _

end Levels

section Resolving

variable {fetchLevel : LevelFetch (StateM σ)}
  (fetches : ∀ isLibrary wanted, Indifferent Alike (fetchLevel isLibrary wanted))

include fetches

theorem indifferent_followWith (fuel : Nat) (seen : List Text) (level : List SourceUnit) :
    Indifferent Alike (followWith fetchLevel fuel seen level) := by
  induction fuel generalizing seen level with
  | zero => exact .pure _
  | succ fuel ih =>
    unfold followWith
    obtain ⟨seen, wanted⟩ := requests seen level
    dsimp only
    split
    · exact .pure _
    · refine (fetches false _).orEnd (fun _ => .pure _) fun next => ?_
      exact (ih _ next).orEnd (fun _ => .pure _) fun _ => .pure _

theorem indifferent_resolveWith (libraries : List Text) (fuel : Nat) (entry : SourceUnit) :
    Indifferent Alike (resolveWith fetchLevel libraries fuel entry) := by
  refine (fetches true _).orEnd (fun _ => .pure _) fun libs => ?_
  refine (indifferent_followWith fetches fuel _ _).orEnd (fun _ => .pure _) fun rest => ?_
  dsimp only
  cases undeclaredImport? (libs ++ [entry] ++ rest) with
  | none => exact .pure _
  | some d => exact .pure _

end Resolving

/-- What loads and parses alike assembles alike. -/
theorem indifferent_assemble (loads : ∀ path, Indifferent Alike (f.load path))
    (parses : ∀ file text, Indifferent Alike (f.parse file text)) (libraries : List Text) (fuel : Nat)
    (path source : Text) : Indifferent Alike (assemble f libraries fuel path source) := by
  unfold assemble
  dsimp only
  cases Program.ofSource path.shown source with
  | error d => exact .pure _
  | ok program =>
    dsimp only
    rw [resolve_eq]
    exact (indifferent_resolveWith (indifferent_fetchAll loads parses) libraries fuel _).orEnd (fun _ => .pure _)
      fun _ => .pure _

end Modules

end ClassScript
