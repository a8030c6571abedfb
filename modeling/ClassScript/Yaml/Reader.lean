import ClassScript.Yaml.Scalar

/-!
From the text of a document to its parts. Blocks are told apart by the column at which their entries
start; inside brackets, columns do not count.
-/

namespace ClassScript.Yaml

/-- A part that has been read, and the place behind it. -/
abbrev Parsed := Except Fault (Yaml × Cursor)

/-- Reads a scalar that starts at the cursor. -/
def scalar (inFlow : Bool) (floor : Nat) (s : Cursor) : Parsed :=
  match s.rest with
  | c :: rest =>
    if c == '"' || c == '\'' then do
      let (text, s) ← quotedFrom c s.line [] .none (s.column + 1) 0 rest
      return (quoted text, s)
    else if startsPlain inFlow s.rest then do
      let (text, s) ← plainFrom inFlow floor s.line [] .none s.column false s.rest
      return (plain text, s)
    else .error .contentExpected
  | [] => .error .contentExpected

/-! ### Inside brackets -/

mutual

/-- Reads a part inside brackets, or a part in brackets. -/
def flow (inFlow : Bool) (floor fuel : Nat) (s : Cursor) : Parsed :=
  match fuel with
  | 0 => .error .tooDeep
  | fuel + 1 =>
    match s.rest.head? with
    | some '[' => do
      let (items, s) ← flowItems fuel (s.advance 1 false)
      return (list items, s)
    | some '\x7b' => do
      let (entries, s) ← flowEntries fuel (s.advance 1 false)
      return (mapping entries, s)
    | _ => if inFlow && s.atEnd then .error .contentExpected else scalar inFlow floor s

/-- Reads the items of a list up to its closing bracket. -/
def flowItems (fuel : Nat) (s : Cursor) : Except Fault (List Yaml × Cursor) :=
  match fuel with
  | 0 => .error .tooDeep
  | fuel + 1 =>
    let s := s.skip true
    if s.rest.head? == some ']' then .ok ([], s.advance 1 false)
    else do
      let (key, value?, s) ← flowPair fuel s
      let item := match value? with
        | some value => mapping [(key, value)]
        | none => key
      match s.rest.head? with
      | some ',' =>
        let (items, s) ← flowItems fuel (s.advance 1 false)
        return (item :: items, s)
      | some ']' => return ([item], s.advance 1 false)
      | _ => .error .separatorExpected

/-- Reads the entries of a mapping up to its closing brace. -/
def flowEntries (fuel : Nat) (s : Cursor) : Except Fault (List (Yaml × Yaml) × Cursor) :=
  match fuel with
  | 0 => .error .tooDeep
  | fuel + 1 =>
    let s := s.skip true
    if s.rest.head? == some '\x7d' then .ok ([], s.advance 1 false)
    else do
      let (key, value?, s) ← flowPair fuel s
      let entry := (key, value?.getD nothing)
      match s.rest.head? with
      | some ',' =>
        let (entries, s) ← flowEntries fuel (s.advance 1 false)
        return (entry :: entries, s)
      | some '\x7d' => return ([entry], s.advance 1 false)
      | _ => .error .separatorExpected

/-- Reads a part and, behind a colon, its value. The colon stands on the line of the part. -/
def flowPair (fuel : Nat) (s : Cursor) : Except Fault (Yaml × Option Yaml × Cursor) :=
  match fuel with
  | 0 => .error .tooDeep
  | fuel + 1 => do
    let line := s.line
    let (key, s) ← flow true 0 fuel s
    let s := s.skip true
    if s.rest.head? != some ':' then return (key, none, s)
    else if s.line != line then .error .separatorExpected
    else
      let s := (s.advance 1 false).skip true
      match s.rest.head? with
      | some ',' | some ']' | some '\x7d' => return (key, some nothing, s)
      | _ =>
        let (value, s) ← flow true 0 fuel s
        return (key, some value, s.skip true)

end

/-! ### Blocks -/

mutual

/-- Reads a part of a block. It stands at a column of at least `floor`. -/
def block (floor fuel : Nat) (s : Cursor) : Parsed :=
  match fuel with
  | 0 => .error .tooDeep
  | fuel + 1 =>
    if s.atIndicator '-' then
      if s.fresh then do
        let (items, s') ← blockItems s.column false fuel s
        return (list items, s')
      else .error .misplacedEntry
    else if s.atIndicator ':' then
      if s.fresh then do
        let (entries, s') ← blockEntry s.column nothing fuel s
        return (mapping entries, s')
      else .error .misplacedValue
    else do
      let (part, s') ← flow false floor fuel s
      let after := s'.skip false
      if !after.atIndicator ':' || (after.line != s.line && after.fresh) then return (part, s')
      else if s.fresh && after.line == s.line then
        let (entries, s') ← blockEntry s.column part fuel after
        return (mapping entries, s')
      else .error .misplacedValue

/-- Reads the items of a list whose marks stand at `column`. A list that is the value of a key at the
same column ends with the next key. -/
def blockItems (column : Nat) (atKey : Bool) (fuel : Nat) (s : Cursor) :
    Except Fault (List Yaml × Cursor) :=
  match fuel with
  | 0 => .error .tooDeep
  | fuel + 1 => do
    let s := (s.advance 1 true).skip false
    let (item, s) ←
      if s.atEnd || s.column ≤ column then Except.ok (nothing, s) else block (column + 1) fuel s
    let s := s.skip false
    if s.atEnd || s.column < column then return ([item], s)
    else if s.column > column then .error .entryExpected
    else if s.atIndicator '-' then
      let (items, s) ← blockItems column atKey fuel s
      return (item :: items, s)
    else if atKey then return ([item], s)
    else .error .entryExpected

/-- Reads the value of a key at `column`, whose colon is at the cursor, and the entries behind it. -/
def blockEntry (column : Nat) (key : Yaml) (fuel : Nat) (s : Cursor) :
    Except Fault (List (Yaml × Yaml) × Cursor) :=
  match fuel with
  | 0 => .error .tooDeep
  | fuel + 1 => do
    let s := (s.advance 1 false).skip false
    let (value, s) ←
      if s.atEnd || s.column < column then Except.ok (nothing, s)
      else if s.column > column then block (column + 1) fuel s
      else if s.atIndicator '-' then
        (blockItems column true fuel s).map fun (items, s) => (list items, s)
      else .ok (nothing, s)
    let s := s.skip false
    if s.atEnd || s.column < column then return ([(key, value)], s)
    else if s.column > column || s.atIndicator '-' then .error .keyExpected
    else
      let (next, after) ←
        if s.atIndicator ':' then Except.ok (nothing, s)
        else (flow false (column + 1) fuel s).map fun (next, after) => (next, after.skip false)
      if !after.atIndicator ':' || after.line != s.line then .error .colonExpected
      else
        let (entries, s) ← blockEntry column next fuel after
        return ((key, value) :: entries, s)

end

/-- Goes over the marks of documents that end before the first one starts. -/
def skipEndMarks (fuel : Nat) (s : Cursor) : Cursor :=
  match fuel with
  | 0 => s
  | fuel + 1 =>
    let s := s.skip false
    if s.atMark ['.', '.', '.'] then skipEndMarks fuel (s.advance 3 false) else s

/-- Reads the first document of a text. One without content means nothing. -/
def read (text : String) : Except Fault Yaml :=
  let cs := unifyBreaks text.toList
  if !cs.all isAllowed then .error .forbiddenCharacter
  else
    let cs := if cs.head? == some '\uFEFF' then cs.drop 1 else cs
    let bound := 4 * cs.length + 4
    let s := skipEndMarks bound ⟨1, 0, true, cs⟩
    let s := if s.atMark ['-', '-', '-'] then (s.advance 3 false).skip false else s
    if s.atEnd then .ok nothing
    else (block 0 bound s).map (·.1)

end ClassScript.Yaml
