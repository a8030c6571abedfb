import ClassScript.Proofs.ImportClosure

/-!
Where paths lead, and the one path of each module. A path leads from the root of the file system, or from the source
root, some directories up and then down through names (`Place`). Cleaning a path writes down where it leads
(`clean_eq`), and each place is written in one way (`Place.leads_text`). So imports have the same path exactly if they
lead to the same module, from whatever files and however they are spelled
(`modules_have_one_path`).
-/

namespace ClassScript.ModulePath

/-! ## Steps -/

/-- A step that goes down: it has a name, and the name is no other step. -/
def IsName (s : Text) : Prop := s ≠ [] ∧ s ≠ here ∧ s ≠ above ∧ ∀ g ∈ s, g.is '/' = false

instance (s : Text) : Decidable (IsName s) := inferInstanceAs (Decidable (_ ∧ _ ∧ _ ∧ _))

theorem isName_extension : IsName extension := by decide

/-- A name with the ending of source files is a name. -/
theorem IsName.append_extension {s : Text} (name : IsName s) : IsName (s ++ extension) := by
  obtain ⟨some, -, -, inside⟩ := name
  have long : 7 ≤ (s ++ (extension : Text)).length := by
    rw [List.length_append, show (extension : Text).length = 6 from rfl]
    have := List.length_pos_iff.2 some
    omega
  refine ⟨fun none => by simp [none] at long, fun same => ?_, fun same => ?_,
    List.forall_mem_append.2 ⟨inside, by decide⟩⟩
  · rw [same] at long
    exact absurd long (by decide)
  · rw [same] at long
    exact absurd long (by decide)

theorem steps_ne_nil (path : Text) : steps path ≠ [] := Text.splitOn_ne_nil '/' path

theorem steps_append (path rest : Text) : steps (path ++ "/" ++ rest) = steps path ++ steps rest := by
  rw [List.append_assoc]
  exact Text.splitOn_append '/' path rest

theorem ofSteps_cons {s : Text} {ss : List Text} (more : ss ≠ []) : ofSteps (s :: ss) = s ++ "/" ++ ofSteps ss := by
  cases ss with
  | nil => exact absurd rfl more
  | cons t ss => simp [ofSteps, List.intercalate, List.intersperse]

/-- The steps of a path that is made of steps. -/
theorem steps_ofSteps {ss : List Text} (some : ss ≠ []) (whole : ∀ s ∈ ss, ∀ g ∈ s, g.is '/' = false) :
    steps (ofSteps ss) = ss := by
  induction ss with
  | nil => exact absurd rfl some
  | cons s ss ih =>
    obtain ⟨first, others⟩ := List.forall_mem_cons.1 whole
    by_cases more : ss = []
    · subst more
      simpa [ofSteps, List.intercalate, steps] using Text.splitOn_eq_singleton first
    · rw [ofSteps_cons more, steps_append, ih more others]
      exact congrArg (· ++ ss) (Text.splitOn_eq_singleton first)

theorem isRooted_cons (g : Glyph) (path : Text) : isRooted (g :: path) = g.is '/' := by
  cases g with
  | char c => by_cases same : c = '/' <;> simp [isRooted, Text.ofString, Glyph.is, List.isPrefixOf, same, eq_comm]
  | stray b => simp [isRooted, Text.ofString, Glyph.is, List.isPrefixOf]

/-- A path is rooted if its first step is empty and not the only one. -/
theorem isRooted_iff (path : Text) : isRooted path = true ↔ ∃ ss, ss ≠ [] ∧ steps path = [] :: ss := by
  cases path with
  | nil => simp [isRooted, steps, Text.splitOn, Text.ofString]
  | cons g path =>
    rw [isRooted_cons, steps, Text.splitOn]
    cases g.is '/' with
    | true => simpa using Text.splitOn_ne_nil '/' path
    | false =>
      simp only [Bool.false_eq_true, if_false, false_iff, not_exists, not_and]
      intro ss _ same
      cases split : Text.splitOn '/' path <;> simp [split] at same

/-! ## Places -/

/-- Where a path leads: from the root of the file system or from the source root, some directories up, and then down
through names, of which the last comes first. -/
@[ext] structure Place where
  rooted : Bool
  ups : Nat
  names : List Text
  proper : ∀ s ∈ names, IsName s
  topmost : rooted = true → ups = 0

namespace Place

/-- The root of the file system, or the source root. -/
def root (rooted : Bool) : Place := ⟨rooted, 0, [], nofun, fun _ => rfl⟩

/-- One directory up. There is nothing above the root of the file system. -/
def up (p : Place) : Place :=
  { p with
    names := p.names.tail
    ups := if p.names = [] ∧ p.rooted = false then p.ups + 1 else p.ups
    proper := fun s member => p.proper s (List.mem_of_mem_tail member)
    topmost := fun isRooted => by simp [isRooted, p.topmost isRooted] }

/-- Down to a name. -/
def down (p : Place) (s : Text) (name : IsName s) : Place :=
  { p with names := s :: p.names, proper := List.forall_mem_cons.2 ⟨name, p.proper⟩ }

/-- One step: up, down to a name, or no move at all. -/
def step (p : Place) (s : Text) : Place := if s = above then p.up else if name : IsName s then p.down s name else p

/-- Step by step. -/
def follow (p : Place) (ss : List Text) : Place := ss.foldl step p

/-- Where a path leads. -/
def ofPath (path : Text) : Place := (root (isRooted path)).follow (steps path)

/-- The directory that a file is in. -/
def folder (path : Text) : Place := (root (isRooted path)).follow (steps path).dropLast

/-- The name that the place ends in, with the ending of source files if it has no ending. The root of the file system
is given a name. -/
def asModule (p : Place) : Place :=
  match p.names with
  | [] => if p.rooted then p.step extension else p
  | s :: _ => if s.any (Glyph.is '.') then p else p.up.step (s ++ extension)

/-- Where an import in the file `source` leads: from the directory of that file if it starts with a dot step, else from
the source root. -/
def ofImport (source imported : Text) : Place :=
  (if isRelative imported then (folder source).follow (steps imported) else ofPath imported).asModule

/-- The steps to a place. -/
def steps (p : Place) : List Text := List.replicate p.ups above ++ p.names.reverse

/-- The path of a place. -/
def text (p : Place) : Text :=
  if p.rooted then "/" ++ ofSteps p.steps else if p.steps.isEmpty then here else ofSteps p.steps

theorem step_name {s : Text} (p : Place) (name : IsName s) : p.step s = p.down s name := by
  rw [step, if_neg name.2.2.1, dif_pos name]

theorem step_still {s : Text} (p : Place) (still : s = [] ∨ s = here) : p.step s = p := by
  have noName : ¬ IsName s := fun name => still.elim name.1 name.2.1
  have noUp : s ≠ above := by rcases still with rfl | rfl <;> decide
  rw [step, if_neg noUp, dif_neg noName]

theorem rooted_step (p : Place) (s : Text) : (p.step s).rooted = p.rooted := by
  unfold step
  split
  · rfl
  · split <;> rfl

theorem follow_append (p : Place) (ss more : List Text) : p.follow (ss ++ more) = (p.follow ss).follow more :=
  List.foldl_append

theorem rooted_follow (p : Place) (ss : List Text) : (p.follow ss).rooted = p.rooted := by
  induction ss generalizing p with
  | nil => rfl
  | cons s ss ih => exact (ih (p.step s)).trans (rooted_step p s)

/-- Cleaning goes the way that the steps lead. -/
theorem walk_eq (p : Place) {ss : List Text} (whole : ∀ s ∈ ss, ∀ g ∈ s, g.is '/' = false) :
    walk p.rooted (p.names ++ List.replicate p.ups above) ss = (p.follow ss).steps := by
  induction ss generalizing p with
  | nil => simp [walk, follow, steps]
  | cons s ss ih =>
    obtain ⟨first, others⟩ := List.forall_mem_cons.1 whole
    have next := ih (p.step s) others
    rw [rooted_step] at next
    rw [walk.eq_def, show p.follow (s :: ss) = (p.step s).follow ss from rfl, ← next]
    dsimp only
    by_cases still : s = [] ∨ s = here
    · rw [if_pos (by rcases still with rfl | rfl <;> decide), step_still p still]
    rw [not_or] at still
    rw [if_neg (by simpa [List.isEmpty_iff] using still)]
    by_cases isUp : s = above
    · subst isUp
      rw [if_pos (beq_self_eq_true _), step, if_pos rfl]
      rcases p with ⟨rooted, ups, names, proper, topmost⟩
      cases names with
      | cons n names =>
        have noUp : (n == above) = false := by simpa using (proper n List.mem_cons_self).2.2.1
        simp [up, noUp]
      | nil =>
        cases ups with
        | zero => cases rooted <;> simp [up]
        | succ k =>
          have unrooted : rooted = false := by
            cases rooted with
            | false => rfl
            | true => cases topmost rfl
          simp [up, unrooted, List.replicate_succ]
    · rw [if_neg (by simpa using isUp), step_name p ⟨still.1, still.2, isUp, first⟩]
      rfl

/-- The steps to a place lead there. -/
theorem follow_steps (p : Place) : (root p.rooted).follow p.steps = p := by
  have above_all (k : Nat) (unrooted : p.rooted = true → k = 0) :
      (root p.rooted).follow (List.replicate k above) = ⟨p.rooted, k, [], nofun, unrooted⟩ := by
    induction k with
    | zero => rfl
    | succ k ih =>
      have isUnrooted : p.rooted = false := by
        cases rooted : p.rooted with
        | false => rfl
        | true => cases unrooted rooted
      rw [List.replicate_succ', follow_append, ih (by simp [isUnrooted])]
      ext1 <;> simp [follow, step, up, isUnrooted]
  have below_all (q : Place) (ss : List Text) (proper : ∀ s ∈ ss, IsName s) (bare : q.names = []) :
      q.follow ss.reverse = { q with names := ss, proper } := by
    induction ss with
    | nil => ext1 <;> simp [follow, bare]
    | cons s ss ih =>
      obtain ⟨name, proper'⟩ := List.forall_mem_cons.1 proper
      rw [List.reverse_cons, follow_append, ih proper']
      exact step_name _ name
  rw [steps, follow_append, above_all p.ups p.topmost, below_all _ p.names p.proper rfl]

theorem mem_steps {p : Place} {s : Text} (member : s ∈ p.steps) : s ≠ [] ∧ s ≠ here ∧ ∀ g ∈ s, g.is '/' = false := by
  rcases List.mem_append.1 member with isUp | isName
  · rw [List.eq_of_mem_replicate isUp]
    decide
  · obtain ⟨some, noDot, -, whole⟩ := p.proper s (List.mem_reverse.1 isName)
    exact ⟨some, noDot, whole⟩

theorem steps_ofSteps (p : Place) (some : p.steps ≠ []) : ModulePath.steps (ofSteps p.steps) = p.steps :=
  ModulePath.steps_ofSteps some fun _ member => (mem_steps member).2.2

/-- The path of a place that is not rooted starts with a step, or is the dot alone. -/
theorem steps_text_of_unrooted {p : Place} (unrooted : p.rooted = false) :
    ModulePath.steps p.text = if p.steps = [] then [here] else p.steps := by
  rw [text, unrooted, if_neg (by decide)]
  by_cases none : p.steps = []
  · rw [if_pos (by rw [none]; rfl), if_pos none]
    rfl
  · rw [if_neg (by simpa using none), if_neg none, steps_ofSteps p none]

theorem steps_text_of_rooted {p : Place} (rooted : p.rooted = true) :
    ModulePath.steps p.text = [] :: if p.steps = [] then [[]] else p.steps := by
  have parted : ModulePath.steps ("/" ++ ofSteps p.steps) = [] :: ModulePath.steps (ofSteps p.steps) :=
    steps_append [] (ofSteps p.steps)
  rw [text, rooted, if_pos rfl, parted]
  by_cases none : p.steps = []
  · rw [if_pos none, none]
    rfl
  · rw [if_neg none, steps_ofSteps p none]

theorem isRooted_text (p : Place) : isRooted p.text = p.rooted := by
  rw [Bool.eq_iff_iff, isRooted_iff]
  cases rooted : p.rooted with
  | true =>
    refine iff_of_true ⟨_, ?_, steps_text_of_rooted rooted⟩ rfl
    split
    · simp
    · next some => exact some
  | false =>
    refine iff_of_false ?_ nofun
    rintro ⟨ss, more, same⟩
    rw [steps_text_of_unrooted rooted] at same
    split at same
    · next none => exact more (List.cons.inj same).2.symm
    · exact (mem_steps (p := p) (same ▸ List.mem_cons_self)).1 rfl

/-- The path of a place leads there. -/
theorem ofPath_text (p : Place) : ofPath p.text = p := by
  rw [ofPath, isRooted_text]
  have still (q : Place) {s : Text} (ss : List Text) (stays : s = [] ∨ s = here) : q.follow (s :: ss) = q.follow ss :=
    congrArg (fun q => follow q ss) (step_still q stays)
  have followed := p.follow_steps
  cases rooted : p.rooted with
  | true =>
    rw [steps_text_of_rooted rooted, still _ _ (.inl rfl)]
    rw [rooted] at followed
    split
    · next none =>
      rw [none] at followed
      rwa [still _ _ (.inl rfl)]
    · exact followed
  | false =>
    rw [steps_text_of_unrooted rooted]
    rw [rooted] at followed
    split
    · next none =>
      rw [none] at followed
      rwa [still _ _ (.inr rfl)]
    · exact followed

/-- Different places have different paths. -/
theorem text_inj {p q : Place} : p.text = q.text ↔ p = q :=
  ⟨fun same => by rw [← p.ofPath_text, same, ofPath_text], congrArg text⟩

end Place

/-! ## Clean paths -/

theorem mem_steps_whole (path : Text) {s : Text} (member : s ∈ steps path) : ∀ g ∈ s, g.is '/' = false :=
  Text.is_of_mem_splitOn member

/-- Cleaning a path writes down where it leads. -/
theorem clean_eq (path : Text) : clean path = (Place.ofPath path).text := by
  have walked := (Place.root (isRooted path)).walk_eq fun _ member => mem_steps_whole path member
  have rooted : (Place.ofPath path).rooted = isRooted path := Place.rooted_follow _ _
  have empty : (ofSteps (Place.ofPath path).steps).isEmpty = (Place.ofPath path).steps.isEmpty := by
    by_cases none : (Place.ofPath path).steps = []
    · rw [none]
      rfl
    · rw [Bool.eq_iff_iff, List.isEmpty_iff, List.isEmpty_iff]
      refine iff_of_false (fun nothing => ?_) none
      have same := Place.steps_ofSteps _ none
      rw [nothing] at same
      exact (Place.mem_steps (p := Place.ofPath path) (s := []) (same ▸ List.mem_cons_self)).1 rfl
  rw [clean, show walk (isRooted path) [] (steps path) = (Place.ofPath path).steps from walked, empty, Place.text, rooted]

/-- The path of a place is clean. -/
theorem clean_text (p : Place) : clean p.text = p.text := by rw [clean_eq, Place.ofPath_text]

theorem ofPath_clean (path : Text) : Place.ofPath (clean path) = Place.ofPath path := by
  rw [clean_eq, Place.ofPath_text]

/-! ## Imports -/

theorem text_ne_nil (p : Place) : p.text ≠ [] := by
  intro none
  have only : steps p.text = [[]] := by rw [none]; rfl
  cases rooted : p.rooted with
  | true =>
    rw [Place.steps_text_of_rooted rooted] at only
    split at only
    · cases only
    · next some => exact some (List.cons.inj only).2
  | false =>
    rw [Place.steps_text_of_unrooted rooted] at only
    split at only
    · cases only
    · exact (Place.mem_steps (p := p) (s := []) (only ▸ List.mem_cons_self)).1 rfl

/-- The directory of a file leads to its folder. -/
theorem ofPath_dir (path : Text) : Place.ofPath (dir path) = Place.folder path := by
  obtain ⟨before, last, parted⟩ : ∃ before last, steps path = before ++ [last] :=
    ⟨_, _, (List.dropLast_append_getLast (steps_ne_nil path)).symm⟩
  have rooted := isRooted_iff path
  rw [dir, Place.folder]
  rw [parted] at rooted ⊢
  rw [List.dropLast_concat]
  cases before with
  | nil =>
    have unrooted : isRooted path = false := by
      rw [← Bool.not_eq_true, rooted]
      rintro ⟨ss, more, same⟩
      exact more (List.cons.inj same).2.symm
    rw [unrooted]
    rfl
  | cons s ss =>
    have whole : ∀ t ∈ s :: ss, ∀ g ∈ t, g.is '/' = false := fun t member =>
      mem_steps_whole path (parted ▸ List.mem_append_left _ member)
    have split : steps (ofSteps (s :: ss) ++ "/") = s :: ss ++ [[]] := by
      have := steps_append (ofSteps (s :: ss)) []
      rw [List.append_nil, steps_ofSteps (List.cons_ne_nil s ss) whole] at this
      exact this
    have same : isRooted (ofSteps (s :: ss) ++ "/") = isRooted path := by
      rw [Bool.eq_iff_iff, isRooted_iff, rooted, split]
      simp
    change Place.ofPath (clean (ofSteps (s :: ss) ++ "/")) = _
    rw [ofPath_clean, Place.ofPath, split, same, Place.follow_append]
    exact Place.step_still _ (.inl rfl)

/-- A path in a directory leads there from the directory. -/
theorem ofPath_join {path : Text} (some : path ≠ []) (rest : Text) :
    Place.ofPath (path ++ "/" ++ rest) = (Place.ofPath path).follow (steps rest) := by
  obtain ⟨g, path, rfl⟩ := List.exists_cons_of_ne_nil some
  have rooted : isRooted (g :: path ++ "/" ++ rest) = isRooted (g :: path) := by
    rw [List.cons_append, List.cons_append, isRooted_cons, isRooted_cons]
  rw [Place.ofPath, rooted, steps_append, Place.follow_append]
  rfl

theorem dir_ne_nil (path : Text) : dir path ≠ [] := by
  rw [dir]
  split
  · decide
  · rw [clean_eq]
    exact text_ne_nil _

theorem ofSteps_concat_append (ss : List Text) (s rest : Text) :
    ofSteps (ss ++ [s ++ rest]) = ofSteps (ss ++ [s]) ++ rest := by
  induction ss with
  | nil => simp [ofSteps, List.intercalate]
  | cons t ss ih => rw [List.cons_append, List.cons_append, ofSteps_cons (by simp), ofSteps_cons (by simp), ih,
      ← List.append_assoc]

namespace Place

variable {p : Place} {s : Text} {names : List Text}

/-- The last step of the path of a place is its name. -/
theorem base_text (named : p.names = s :: names) : base p.text = s := by
  have listed : p.steps = List.replicate p.ups above ++ names.reverse ++ [s] := by
    rw [steps, named, List.reverse_cons, List.append_assoc]
  have some : p.steps ≠ [] := by simp [listed]
  rw [base]
  cases rooted : p.rooted with
  | true => rw [steps_text_of_rooted rooted, if_neg some, listed, ← List.cons_append, List.getLast?_concat, Option.getD_some]
  | false => rw [steps_text_of_unrooted rooted, if_neg some, listed, List.getLast?_concat, Option.getD_some]

/-- The path of a place without a name ends in dots, or is that of the root. -/
theorem hasExtension_of_unnamed (unnamed : p.names = []) : hasExtension p.text = !p.rooted := by
  have listed : p.steps = List.replicate p.ups above := by rw [steps, unnamed, List.reverse_nil, List.append_nil]
  rw [hasExtension, base]
  cases rooted : p.rooted with
  | true =>
    rw [steps_text_of_rooted rooted, listed, p.topmost rooted]
    rfl
  | false =>
    rw [steps_text_of_unrooted rooted, listed]
    cases ups : p.ups with
    | zero => rfl
    | succ k =>
      rw [if_neg (by simp), List.replicate_succ', List.getLast?_concat]
      rfl

/-- A longer name makes a longer path. -/
theorem text_append (named : p.names = s :: names) (rest : Text) (name : IsName (s ++ rest)) :
    (p.up.step (s ++ rest)).text = p.text ++ rest := by
  have listed : p.steps = List.replicate p.ups above ++ names.reverse ++ [s] := by
    rw [steps, named, List.reverse_cons, List.append_assoc]
  have listed' : (p.up.down (s ++ rest) name).steps = List.replicate p.ups above ++ names.reverse ++ [s ++ rest] := by
    simp [steps, up, down, named]
  rw [step_name _ name, text, text, listed, listed', ofSteps_concat_append,
    show (p.up.down (s ++ rest) name).rooted = p.rooted from rfl]
  cases p.rooted <;> simp

/-- The path of a module is that of its place, with the ending of source files if it has none. -/
theorem text_asModule (p : Place) :
    p.asModule.text = if hasExtension p.text then p.text else p.text ++ extension := by
  rw [asModule]
  cases named : p.names with
  | nil =>
    rw [hasExtension_of_unnamed named]
    dsimp only
    cases rooted : p.rooted with
    | false => rfl
    | true =>
      have listed : p.steps = [] := by rw [steps, named, p.topmost rooted]; rfl
      have listed' : (p.down extension isName_extension).steps = [(extension : Text)] := by
        simp [steps, down, named, p.topmost rooted]
      rw [if_pos rfl, step_name _ isName_extension, text, text, listed, listed',
        show (p.down extension isName_extension).rooted = p.rooted from rfl, rooted]
      rfl
  | cons s names =>
    rw [hasExtension, base_text named]
    dsimp only
    split
    · rfl
    · exact text_append named extension (p.proper s (named ▸ List.mem_cons_self)).append_extension

theorem hasExtension_asModule (p : Place) : hasExtension p.asModule.text = true := by
  rw [asModule]
  cases named : p.names with
  | nil =>
    dsimp only
    split
    · rw [hasExtension, step_name _ isName_extension, base_text (p := p.down extension isName_extension) rfl]
      decide
    · next unrooted => rw [hasExtension_of_unnamed named, Bool.eq_false_iff.2 unrooted, Bool.not_false]
  | cons s names =>
    dsimp only
    split
    · next dotted => rw [hasExtension, base_text named, dotted]
    · have name := (p.proper s (named ▸ List.mem_cons_self)).append_extension
      rw [hasExtension, step_name _ name, base_text (p := p.up.down (s ++ extension) name) rfl, List.any_append,
        Bool.or_eq_true]
      exact .inr (by decide)

end Place

/-- The path of an import is that of the module it leads to. -/
theorem ofImport_eq (source imported : Text) : ofImport source imported = (Place.ofImport source imported).text := by
  have led : (if isRelative imported then join (dir source) imported else clean imported) =
      (if isRelative imported then (Place.folder source).follow (steps imported) else Place.ofPath imported).text := by
    split
    · rw [join, clean_eq, ofPath_join (dir_ne_nil source), ofPath_dir]
    · exact clean_eq imported
  rw [ofImport, led, Place.ofImport, Place.text_asModule]

/-- An ending is empty exactly if there is no dot. -/
theorem ending_ne_nil (path : Text) : ending path ≠ [] ↔ hasExtension path = true := by
  have parts : (((base path).splitOn '.').reverse).length = (base path).countP (Glyph.is '.') + 1 := by
    rw [List.length_reverse, Text.length_splitOn]
  have dotted : hasExtension path = true ↔ 0 < (base path).countP (Glyph.is '.') := by
    rw [hasExtension, List.any_eq_true, List.countP_pos_iff]
  rw [dotted, ending]
  generalize ((base path).splitOn '.').reverse = backwards at parts ⊢
  rcases backwards with _ | ⟨last, _ | ⟨other, more⟩⟩
  · cases parts
  · rw [List.length_singleton] at parts
    exact iff_of_false (fun some => some rfl) (by omega)
  · rw [List.length_cons, List.length_cons] at parts
    exact iff_of_true (by simp [Text.ofString]) (by omega)

/-- The path of a place does not start with a dot step that stays. -/
theorem here_not_before (p : Place) : ("./" : Text).isPrefixOf p.text = false := by
  rw [← Bool.not_eq_true, List.isPrefixOf_iff_prefix]
  rintro ⟨rest, same⟩
  have split : steps p.text = here :: steps rest := by
    rw [← same]
    exact steps_append here rest
  cases rooted : p.rooted with
  | true =>
    rw [Place.steps_text_of_rooted rooted] at split
    exact absurd (List.cons.inj split).1 (by decide)
  | false =>
    rw [Place.steps_text_of_unrooted rooted] at split
    split at split
    · exact steps_ne_nil rest (List.cons.inj split).2.symm
    · exact (Place.mem_steps (p := p) (s := here) (split ▸ List.mem_cons_self)).2.1 rfl

open Modules in
/-- The path of an import is clean and has an ending, and if it stays below the source root, every file that imports it
means it. Imports have the same path exactly if they lead to the same module, from whatever units and however they are
spelled. Of the modules that units import, those not seen before are asked for, each once, and then all have been
seen. -/
theorem modules_have_one_path :
    (∀ source imported : Text, clean (ofImport source imported) = ofImport source imported ∧
      ending (ofImport source imported) ≠ [] ∧
      (("../" : Text).isPrefixOf (ofImport source imported) = false →
        ∀ other, ofImport other (ofImport source imported) = ofImport source imported)) ∧
      (∀ (u v : SourceUnit) (i j : Import),
        u.target i = v.target j ↔ Place.ofImport u.path i.path = Place.ofImport v.path j.path) ∧
      ∀ seen level, ((requests seen level).2.map (·.path)).Nodup ∧
        (∀ r ∈ (requests seen level).2, r.path ∉ seen) ∧
        ∀ u ∈ level, ∀ i ∈ u.program.imports, u.target i ∈ (requests seen level).1 := by
  refine ⟨fun source imported => ?_, fun u v i j => ?_, fun seen level => ?_⟩
  · have ended : hasExtension (ofImport source imported) = true := by
      rw [ofImport_eq, Place.ofImport]
      exact Place.hasExtension_asModule _
    have cleaned : clean (ofImport source imported) = ofImport source imported := by
      rw [ofImport_eq, clean_text]
    refine ⟨cleaned, (ending_ne_nil _).2 ended, fun inside other => ?_⟩
    have absolute : isRelative (ofImport source imported) = false := by
      rw [isRelative, inside, Bool.or_false, ofImport_eq]
      exact here_not_before _
    generalize ofImport source imported = path at ended cleaned absolute ⊢
    rw [ofImport, absolute, if_neg Bool.false_ne_true, cleaned, if_pos ended]
  · rw [SourceUnit.target, SourceUnit.target, ofImport_eq, ofImport_eq, Place.text_inj]
  · obtain ⟨memo, asked⟩ := requests_paths seen level
    refine ⟨asked ▸ nodup_fresh seen _, fun r wanted => ?_, fun u member i imported => ?_⟩
    · have listed : r.path ∈ (requests seen level).2.map (·.path) := List.mem_map_of_mem wanted
      rw [asked] at listed
      exact ((mem_fresh _).1 listed).2
    · rw [memo, List.mem_append, List.mem_reverse, mem_fresh]
      by_cases known : u.target i ∈ seen
      · exact .inr known
      · exact .inl ⟨List.mem_flatMap.2 ⟨u, member, List.mem_map_of_mem imported⟩, known⟩

/-- A module below the source root, asked for with steps that go up and stay, and then by its path from elsewhere. -/
theorem dotted_import_has_one_path :
    ofImport "pkg/b.clasp" "../lib/./x" = ("lib/x.clasp" : Text) ∧
      ofImport "deep/down/z.clasp" "lib/x.clasp" = ("lib/x.clasp" : Text) := by
  have first : ofImport "pkg/b.clasp" "../lib/./x" = ("lib/x.clasp" : Text) := by decide +kernel
  obtain ⟨-, -, fixed⟩ := modules_have_one_path.1 "pkg/b.clasp" "../lib/./x"
  rw [first] at fixed
  exact ⟨first, fixed (by decide) "deep/down/z.clasp"⟩

end ClassScript.ModulePath
