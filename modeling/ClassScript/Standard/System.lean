import ClassScript.Standard.Arrays
import ClassScript.Standard.Strings

/-!
Printing, time, assertions and markup, and the look-up of host methods by name.
-/

namespace ClassScript.Standard

open Evaluation

/-- The method of that name of the system class. -/
def systemMethod? : String → Option HostMethod
  | "Print" => some (.ofAny fun v => do
      print (← text v)
      give .void)
  | "Println" => some (.ofAny fun v => do
      print ((← text v) ++ "\n")
      give .void)
  | "Time" => some (.nullary do give (.number (← read).clock))
  | _ => none

/-- The method of that name of the assertion class. -/
def assertMethod? : String → Option HostMethod
  | "Equals" => some (.ofAnys fun expected actual => do
      if (← heap).equal expected actual then give .void
      else refuse (.assertEqual (← text expected) (← text actual)))
  | "IsTrue" => some (.ofTruth fun b => if b then give .void else refuse .assertTrue)
  | "IsNull" => some (.ofAny fun v => do
      if v.isNull then give .void else refuse (.assertNull (← text v)))
  | "Fail" => some (.ofText fun message => refuse (.assertion message))
  | _ => none

/-- The method of that name of a markup node. -/
def nodeMethod? (id : Nat) : String → Option HostMethod
  | "Tag" => some (.nullary do give (.string ((← heap).node id).tag))
  | "ChildCount" => some (.nullary do
      give (.number (Number.ofInteger ((← heap).node id).children.length)))
  | "Render" | "String" => some (.nullary do give (.string ((← heap).node id).html))
  | _ => none

/-- The name under which the host keeps a method: its first letter is in upper case. -/
def hostName (name : String) : String :=
  match name.toList with
  | [] => ""
  | c :: cs => String.ofList (Text.upper c :: cs)

/-- The method of that name of a host thing. -/
def method? (h : Host) (name : String) : Option HostMethod :=
  match h with
  | .array id => arrayMethod? id (hostName name)
  | .iterator id => iteratorMethod? id (hostName name)
  | .node id => nodeMethod? id (hostName name)

/-- The method of that name of a host class. -/
def classMethod? (c : HostClass) (name : String) : Option HostMethod :=
  match c with
  | .number => numberClassMethod? (hostName name)
  | .system => systemMethod? (hostName name)
  | .assert => assertMethod? (hostName name)
  | _ => none

/-- The method of that name of a primitive value, given by the host class of such values. -/
def boxedMethod? (c : HostClass) (v : Value) (name : String) : Option HostMethod :=
  match c, v with
  | .string, .string s => stringMethod? s (hostName name)
  | .number, .number x => numberMethod? x (hostName name)
  | .boolean, .boolean b => booleanMethod? b (hostName name)
  | _, _ => none

end ClassScript.Standard
