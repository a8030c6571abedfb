import ClassScript.Types.Basic

/-!
Acceptance: which values may be stored in a slot of a type. Type variables accept everything and
are accepted everywhere. References accept every subtype, seen through the supertypes that its
declaration names; function types are contravariant in their parameters.
-/

namespace ClassScript

/-- What acceptance knows of a declaration: its type parameters, and its direct supertypes in terms
of them. -/
structure TypeDecl where
  nominal : Nominal
  params : List TypeVar
  supers : List Ty
  deriving Inhabited

/-- The declarations that types refer to. -/
abbrev TypeTable := List TypeDecl

namespace TypeTable

/-- The declaration of a nominal. -/
def find? (table : TypeTable) (n : Nominal) : Option TypeDecl :=
  List.find? (fun d => d.nominal == n) table

/-- Searches `target` from a declaration with arguments along the supertypes, depth first. Visited
declarations are not searched again. Returns the visited ones and the arguments of `target`. -/
@[grind =]
def search (table : TypeTable) (target : Nominal) :
    Nat → List Nominal → Nominal → List Ty → List Nominal × Option (List Ty)
  | 0, visited, _, _ => (visited, none)
  | fuel + 1, visited, decl, args =>
    if decl == target then (visited, some args)
    else if visited.contains decl then (visited, none)
    else
      match find? table decl with
      | none => (decl :: visited, none)
      | some d =>
        let s := Subst.ofLists d.params args
        d.supers.foldl
          (fun (seen, found) super =>
            match found with
            | some view => (seen, some view)
            | none =>
              match super.apply s with
              | .ref n as => search table target fuel seen n as
              | _ => (seen, none))
          (decl :: visited, none)

/-- The arguments of `target` as a supertype of a declaration with arguments, if it is one. Each
nested search has visited one more declaration, so the bound is never reached. -/
def viewAs (table : TypeTable) (decl : Nominal) (args : List Ty) (target : Nominal) :
    Option (List Ty) :=
  (search table target (List.length table + 2) [] decl args).2

/-- Whether a slot of type `slot` takes values of type `value`, decided with at most `fuel` nested
questions; nothing if that is not enough. -/
@[grind =]
def accepts? (table : TypeTable) : Nat → Ty → Ty → Option Bool
  | 0, _, _ => none
  | fuel + 1, slot, value =>
    match slot with
    | .mixed | .var _ => some true
    | .number =>
      match value with
      | .var _ | .number => some true
      | _ => some false
    | .string =>
      match value with
      | .var _ | .string => some true
      | _ => some false
    | .boolean =>
      match value with
      | .var _ | .boolean => some true
      | _ => some false
    | .void =>
      match value with
      | .var _ | .void => some true
      | _ => some false
    | .null =>
      match value with
      | .var _ | .null => some true
      | _ => some false
    | .nullable inner =>
      match value with
      | .null => some true
      | .nullable v => accepts? table fuel inner v
      | v => accepts? table fuel inner v
    | .function params result =>
      match value with
      | .var _ => some true
      | .function params' result' =>
        if params.length != params'.length then some false
        else do
          let ok ← (params.zip params').allM fun (p, p') => accepts? table fuel p' p
          if !ok then return false
          else if result.isVoid then return true
          else accepts? table fuel result result'
      | _ => some false
    | .ref d args =>
      match value with
      | .var _ => some true
      | .ref d' args' =>
        match viewAs table d' args' d with
        | none => some false
        | some view =>
          if args.isEmpty || view.isEmpty then some true
          else if args.length != view.length then some false
          else (args.zip view).allM fun (a, v) => accepts? table fuel a v
      | _ => some false
    | .static d =>
      match value with
      | .var _ => some true
      | .static d' => some (d == d')
      | _ => some false

/-- The most nested questions that are asked about one pair of types. Questions may lead to ever more
questions, and how deep those go that end cannot be read off the declarations, since supertypes may
hold larger types than the type they are supertypes of. What is lost by a bound are the pairs whose
questions end, but only beyond it: they are taken for pairs whose questions do not end. Only the
checker uses it; what is said of acceptance is said for every number of questions. -/
def maxQuestions : Nat := 100000

end TypeTable

end ClassScript
