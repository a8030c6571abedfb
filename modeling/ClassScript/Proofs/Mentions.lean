import ClassScript.Proofs.Conducted
import ClassScript.Syntax.Walk

/-!
The classes that code may look up by name: those that a name, a creation or a tag in it mentions, and the supertypes
of a declaration. Code lies within a set of names if it mentions no other (`Covers`, `Declaration.Within`); a state
holds nothing else if the code of its closures, classes and interfaces does (`Held`).
-/

namespace ClassScript

/-- The names under which an expression itself may look up a class. -/
def Expr.classNames : Expr → List String
  | .name id => [id.text]
  | .create _ type _ => [Evaluation.headName type]
  | .markup e => [e.tag]
  | _ => []

/-- The supertypes that are written in the heading of a declaration. -/
def Heading.supers : Heading → List TypeExpr
  | .ofClass _ parent interfaces => parent.toList ++ interfaces
  | .ofInterface parents => parents

/-- The names under which a statement may look up classes and interfaces, those of its parts included. -/
def Stmt.classNames (s : Stmt) : List String :=
  s.walk.flatMap Expr.classNames ++
    match s with
    | .declares d => d.heading.supers.map Evaluation.headName
    | _ => []

/-- Expressions look up classes only under these names. -/
def Covers (ok : String → Prop) (es : List Expr) : Prop := ∀ e ∈ es, ∀ n ∈ e.classNames, ok n

variable {ok : String → Prop}

@[simp]
theorem covers_nil : Covers ok [] := fun _ member => absurd member List.not_mem_nil

@[simp]
theorem covers_cons {e : Expr} {es : List Expr} :
    Covers ok (e :: es) ↔ (∀ n ∈ e.classNames, ok n) ∧ Covers ok es := List.forall_mem_cons

@[simp]
theorem covers_append {es fs : List Expr} : Covers ok (es ++ fs) ↔ Covers ok es ∧ Covers ok fs :=
  List.forall_mem_append

theorem Param.covers_cons {p : Param} {params : List Param} :
    Covers ok (Param.walkAll (p :: params)) ↔
      (∀ e, p.fallback = some e → Covers ok e.walk) ∧ Covers ok (Param.walkAll params) := by
  obtain ⟨mark, name, type, fallback⟩ := p
  cases fallback <;> simp [Param.walkAll]

theorem Attribute.covers_cons {a : Attribute} {attributes : List Attribute} :
    Covers ok (Attribute.walkAll (a :: attributes)) ↔
      Covers ok a.value.walk ∧ Covers ok (Attribute.walkAll attributes) := by
  obtain ⟨mark, name, value⟩ := a
  rw [Attribute.walkAll, covers_append]

theorem Child.covers_element {e : Element} {children : List Child} :
    Covers ok (Child.walkAll (.element e :: children)) ↔
      Covers ok (Expr.markup e).walk ∧ Covers ok (Child.walkAll children) := by
  obtain ⟨mark, tag, attributes, inner, closing⟩ := e
  rw [Child.walkAll, Expr.walk, covers_append]

theorem Arm.covers_cons {a : Arm} {arms : List Arm} :
    Covers ok (Arm.walkAll (a :: arms)) ↔
      Covers ok a.value.walk ∧ Covers ok a.body.walk ∧ Covers ok (Arm.walkAll arms) := by
  obtain ⟨mark, value, body⟩ := a
  rw [Arm.walkAll, covers_append, covers_append, and_assoc]

/-- The code of a method looks up classes only under these names. -/
structure Method.Within (ok : String → Prop) (m : Method) : Prop where
  params : Covers ok (Param.walkAll m.params)
  body {b : Block} : m.body = some b → Covers ok b.walk

/-- A declaration names only such supertypes, and its code looks up classes only under these names. -/
structure Declaration.Within (ok : String → Prop) (d : Declaration) : Prop where
  supers {t : TypeExpr} : t ∈ d.heading.supers → ok (Evaluation.headName t)
  fields {f : Field} {e : Expr} : f ∈ d.fields → f.init = some e → Covers ok e.walk
  methods {m : Method} : m ∈ d.methods → m.Within ok

/-- The code of a closure looks up classes only under these names. -/
structure Closure.Within (ok : String → Prop) (c : Closure) : Prop where
  params : Covers ok (Param.walkAll c.params)
  block {b : Block} : c.body = .block b → Covers ok b.walk
  value {e : Expr} : c.body = .value e → Covers ok e.walk

theorem Field.covers_of_mem {fields : List Field} (covered : Covers ok (Field.walkAll fields)) {f : Field} {e : Expr}
    (member : f ∈ fields) (held : f.init = some e) : Covers ok e.walk := by
  induction fields with
  | nil => exact absurd member List.not_mem_nil
  | cons g fields ih =>
    obtain ⟨mark, annotations, modifiers, name, type, init⟩ := g
    rcases List.mem_cons.1 member with rfl | later
    · obtain rfl : init = some e := held
      exact (covers_append.1 covered).1
    · cases init with
      | none => exact ih covered later
      | some _ => exact ih (covers_append.1 covered).2 later

theorem Method.within_of_mem {methods : List Method} (covered : Covers ok (Method.walkAll methods)) {m : Method}
    (member : m ∈ methods) : m.Within ok := by
  induction methods with
  | nil => exact absurd member List.not_mem_nil
  | cons n methods ih =>
    obtain ⟨mark, annotations, modifiers, name, isConstructor, typeParams, params, result, body⟩ := n
    cases body with
    | none =>
      obtain ⟨own, rest⟩ := covers_append.1 covered
      rcases List.mem_cons.1 member with rfl | later
      · exact ⟨own, fun none => by cases none⟩
      · exact ih rest later
    | some b =>
      obtain ⟨own, rest⟩ := covers_append.1 covered
      obtain ⟨params, body⟩ := covers_append.1 own
      rcases List.mem_cons.1 member with rfl | later
      · exact ⟨params, fun same => Option.some.inj same ▸ body⟩
      · exact ih rest later

theorem Stmt.covers_walk {s : Stmt} (names : ∀ n ∈ s.classNames, ok n) : Covers ok s.walk := fun e member n mentioned =>
  names n (List.mem_append_left _ (List.mem_flatMap.2 ⟨e, member, mentioned⟩))

theorem Declaration.within_of_classNames {d : Declaration} (names : ∀ n ∈ (Stmt.declares d).classNames, ok n) :
    d.Within ok := by
  have covered := Stmt.covers_walk names
  refine ⟨fun written => names _ (List.mem_append_right _ (List.mem_map_of_mem written)), ?_, ?_⟩
  · obtain ⟨mark, annotations, heading, name, typeParams, fields, methods⟩ := d
    exact fun member held => Field.covers_of_mem (covers_append.1 covered).1 member held
  · obtain ⟨mark, annotations, heading, name, typeParams, fields, methods⟩ := d
    exact fun member => Method.within_of_mem (covers_append.1 covered).2 member

/-- A lambda looks up classes only under the names that the program does which it stands in. -/
theorem Closure.within_lambda {mark : Mark} {params : List Param} {result : Option TypeExpr} {body : LambdaBody}
    (covered : Covers ok (Expr.lambda mark params result body).walk) (frame : Nat) (context : Option CallFrame) :
    (⟨params, result, body, frame, context⟩ : Closure).Within ok := by
  cases body with
  | block b =>
    obtain ⟨-, inner⟩ := covers_cons.1 covered
    obtain ⟨params, body⟩ := covers_append.1 inner
    exact ⟨params, fun same => LambdaBody.block.inj same ▸ body, fun same => by cases same⟩
  | value e =>
    obtain ⟨-, inner⟩ := covers_cons.1 covered
    obtain ⟨params, body⟩ := covers_append.1 inner
    exact ⟨params, fun same => (by cases same), fun same => LambdaBody.value.inj same ▸ body⟩

/-! ## All names -/

theorem covers_any (es : List Expr) : Covers (fun _ => True) es := fun _ _ _ _ => trivial

theorem Declaration.within_any (d : Declaration) : d.Within fun _ => True :=
  ⟨fun _ => trivial, fun _ _ => covers_any _, fun _ => ⟨covers_any _, fun _ => covers_any _⟩⟩

namespace Evaluation

/-- The code that a state holds looks up classes only under these names. -/
structure Held (ok : String → Prop) (s : State) : Prop where
  closures {id : Nat} {c : Closure} : s.heap.closures[id]? = some c → c.Within ok
  classes {id : Nat} {c : ClassDef} : s.heap.classes[id]? = some c → c.decl.Within ok
  interfaces {i : InterfaceDef} : i ∈ s.interfaces → i.decl.Within ok

theorem held_any (s : State) : Held (fun _ => True) s :=
  ⟨fun _ => ⟨covers_any _, fun _ => covers_any _, fun _ => covers_any _⟩, fun _ => Declaration.within_any _, fun _ =>
    Declaration.within_any _⟩

namespace Held

variable {s : State}

theorem closure (held : Held ok s) (id : Nat) : (s.heap.closure id).Within ok := by
  unfold Heap.closure
  cases found : s.heap.closures[id]? with
  | some c => exact held.closures found
  | none => exact ⟨covers_nil, fun same => LambdaBody.block.inj same ▸ covers_nil, fun same => by cases same⟩

theorem cls (held : Held ok s) (id : Nat) : (s.heap.cls id).decl.Within ok := by
  unfold Heap.cls
  cases found : s.heap.classes[id]? with
  | some c => exact held.classes found
  | none =>
    exact ⟨fun member => absurd member List.not_mem_nil, fun member => absurd member List.not_mem_nil,
      fun member => absurd member List.not_mem_nil⟩

theorem ownMethod (held : Held ok s) {c : Nat} {name : String} {m : Method}
    (found : (s.heap.cls c).method? name = some m) : m.Within ok := by
  unfold ClassDef.method? at found
  split at found
  · exact (held.cls c).methods (List.mem_of_find?_eq_some found)
  · cases found

theorem method? (held : Held ok s) {cls : Nat} {name : String} {m : FoundMethod}
    (found : s.method? cls name = some m) : m.decl.Within ok := by
  rcases method?_eq_some found with ⟨c, own, known, rfl⟩ | ⟨c, -, i, -, inherited, known, rfl⟩
  · exact held.ownMethod known
  · obtain ⟨n, holder, -, built, member, -⟩ := searchDefault_found s _ _ _ _ known
    exact (held.interfaces (List.mem_of_find?_eq_some built)).methods member

theorem constructor? (held : Held ok s) {cls : Nat} {m : FoundMethod} (found : s.constructor? cls = some m) :
    m.decl.Within ok := by
  obtain ⟨c, -, own⟩ := List.exists_of_findSome?_eq_some found
  obtain ⟨m', known, rfl⟩ := Option.map_eq_some_iff.1 own
  exact held.ownMethod known

theorem instanceFields (held : Held ok s) {c : Nat} {f : Field} {e : Expr}
    (member : f ∈ (s.heap.cls c).instanceFields) (init : f.init = some e) : Covers ok e.walk := by
  have own : f ∈ (s.heap.cls c).fields := (List.mem_filter.1 member).1
  unfold ClassDef.fields at own
  split at own
  · exact (held.cls c).fields own init
  · exact absurd own List.not_mem_nil

end Held

end Evaluation

end ClassScript
