import ClassScript.Evaluation.Calls

/-!
Markup at run time. A tag that names a class with a render method is a component: it is created, its
fields are set from the attributes, and it renders itself. If any of that fails, the element becomes
a plain node; only a cancelled run is not covered up.
-/

namespace ClassScript

namespace Evaluation

/-- Evaluates attributes in order; of two with one name the later one counts. -/
def evalAttributes (k : Evaluator) (scope : ScopeId) : List Attribute → Run (List (String × Value))
  | [] => return []
  | a :: as => do
    let v ← k.eval a.value scope
    return (a.name, v) :: (← evalAttributes k scope as)

/-- A component rendered with the attributes. -/
def renderComponent (k : Evaluator) (tag : String) (attrs : List (String × Value)) (span : Span) :
    Run Value := do
  let cls ← k.classOf tag span
  if (← method? cls Builtin.renderMethod).isNone then fail span (.noRender tag Builtin.renderMethod)
  let id ← instantiate k cls [] span
  attrs.forM fun (name, v) => setField id name v
  callMethod k (.object id) Builtin.renderMethod [] span

/-- What a component renders, if the tag names a usable one. -/
def component? (k : Evaluator) (tag : String) (attrs : List (String × Value)) (span : Span) :
    Run (Option Value) := do
  if ((← read).class? tag).isNone then return none
  else
    match ← attempt (renderComponent k tag attrs span) with
    | .ok v => return some v
    | .error d => if d.code == RunFault.cancelledCode then throw (.failed d) else return none

/-- A value as a property; objects are shown as text. -/
def toProperty (v : Value) : Run Markup.Property := do
  match v with
  | .null => return .null
  | .number x => return .number x
  | .string s => return .text s
  | .boolean b => return .boolean b
  | v => return .text (← text v)

/-- Adds properties to a node. -/
def addProps (n : Markup.Node) : List (String × Value) → Run Markup.Node
  | [] => return n
  | (name, v) :: rest => do addProps (n.setProp name (← toProperty v)) rest

end Evaluation

/-- Adds a value to a node: nodes as children, arrays item by item, nothing for null, and all else
as text. An array that holds itself would never end. -/
def Heap.addValue (h : Heap) : Nat → Markup.Node → Value → Option Markup.Node
  | 0, _, _ => none
  | fuel + 1, n, v =>
    let asText : Option Markup.Node := (h.text? v).map n.addText
    match v with
    | .null | .void => some n
    | .object id =>
      match (h.object id).host with
      | some (.node c) => some (n.addChild (h.node c))
      | some (.array a) => (h.arrays.items a).foldlM (fun n v => addValue h fuel n v) n
      | _ => asText
    | .host (.node c) => some (n.addChild (h.node c))
    | _ => asText

namespace Evaluation

/-- Adds a value to a node. -/
def addValue (n : Markup.Node) (v : Value) : Run Markup.Node := do
  let h ← heap
  match h.addValue h.nesting n v with
  | some n => return n
  | none => throw .endless

/-- Adds what stands between the tags to a node. -/
def addChildren (k : Evaluator) (scope : ScopeId) (n : Markup.Node) :
    List Child → Run Markup.Node
  | [] => return n
  | c :: cs => do
    let n ←
      match c with
      | .text _ t => pure (n.addText t.bytes)
      | .element e => do addValue n (← k.eval (.markup e) scope)
      | .hole _ e => do addValue n (← k.eval e scope)
    addChildren k scope n cs

/-- A node as a value: an instance of the class of nodes if there is one. -/
def wrapNode (k : Evaluator) (n : Markup.Node) (span : Span) : Run Value := do
  let h ← newNode n
  if ((← read).class? Builtin.nodeClass).isNone then return .host h
  else return .object (← newObject (← k.classOf Builtin.nodeClass span) (some h))

/-- Evaluates an element. -/
def evalElement (k : Evaluator) (e : Element) (scope : ScopeId) : Run Value := do
  let attrs ← evalAttributes k scope e.attributes
  match ← component? k e.tag attrs e.mark.span with
  | some v => return v
  | none =>
    let n ← addProps (Markup.Node.ofTag e.tag) attrs
    let n ← addChildren k scope n e.children
    wrapNode k n e.mark.span

end Evaluation

end ClassScript
