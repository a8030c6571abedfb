import ClassScript.Span

/-!
Diagnostics: what every stage reports when it fails, and how it is shown with the source line and
an underline below the span. Padding and underline are measured in bytes of the line.
-/

namespace ClassScript

/-- The stage or layer that a diagnostic comes from. -/
inductive DiagnosticKind where
  | token | syntactic | typing | execution | native | dependency | internal
  deriving DecidableEq, Inhabited, Repr

namespace DiagnosticKind

/-- The name of a kind in messages. -/
def name : DiagnosticKind → String
  | token => "TokenError"
  | syntactic => "ParserError"
  | typing => "TypeError"
  | execution => "RuntimeError"
  | native => "NativeError"
  | dependency => "DependencyError"
  | internal => "InternalError"

/-- Every kind. -/
def all : List DiagnosticKind := [token, syntactic, typing, execution, native, dependency, internal]

/-- The kind of that name. -/
def ofName? (s : String) : Option DiagnosticKind := all.find? fun k => k.name == s

end DiagnosticKind

/-- A failure with its place: kind, code, message, span and the file the span is in. -/
structure Diagnostic where
  kind : DiagnosticKind
  code : String
  message : String
  span : Span
  file : String
  deriving DecidableEq, Inhabited

namespace Diagnostic

/-- Kind and message on one line. -/
def header (d : Diagnostic) : String := "[" ++ d.kind.name ++ "] " ++ d.message

/-- The one-line text of a diagnostic, with its place when it has one. -/
def text (d : Diagnostic) : String :=
  if d.span.line > 0 then d.header ++ " at " ++ d.span.place else d.header

/-- The diagnostic, placed in `file` unless it names a file already. -/
def placedIn (d : Diagnostic) (file : String) : Diagnostic :=
  if d.file == "" then { d with file := file } else d

/-- The bytes of lines with a line feed behind each. -/
def offsetAfter (lines : List Text) : Nat := lines.foldl (fun offset l => offset + l.width + 1) 0

/-- The line of that number, from one, without carriage returns at its end, and the offset at
which it starts. -/
def sourceLine (source : Text) (n : Nat) : Option (Text × Nat) :=
  if n == 0 then none
  else
    let lines := source.lines
    match lines[n - 1]? with
    | none => none
    | some line => some (line.trimReturns, offsetAfter (lines.take (n - 1)))

/-- The blanks in front of the underline: a tab below each tab, so that the marks line up. -/
def padding (line : Text) (count : Nat) : Bytes :=
  (line.bytes.take count).map fun b => if b == 0x09 then 0x09 else 0x20

/-- So many marks. -/
def marks (count : Nat) : Bytes := List.replicate count 0x5E

/-- The number of marks below a line: the bytes of the span on it, and at least one. -/
def markCount (span : Span) (line : Text) (lineStart : Nat) : Nat :=
  let width := span.stop - span.start
  let size := line.width
  let clipped :=
    if span.start ≥ lineStart && span.start - lineStart + width > size then
      size - (span.start - lineStart)
    else width
  max clipped 1

/-- Header and place of a diagnostic that has one. -/
def placed (d : Diagnostic) : String :=
  d.header ++ "\nat " ++ (if d.file == "" then "<input>" else d.file) ++ ":" ++ d.span.place

/-- The diagnostic with its place, the source line and the underline, as far as they are known. The
line is copied as it is, also where its bytes are no characters. -/
def rendered (d : Diagnostic) (source : Text) : Bytes :=
  if d.span.line == 0 then d.header
  else
    match sourceLine source d.span.line with
    | none => d.placed
    | some (line, lineStart) =>
      d.placed ++ "\n" ++ line.bytes ++ "\n" ++ padding line (d.span.column - 1) ++
        marks (markCount d.span line lineStart)

/-- The characters shown for it. -/
def format (d : Diagnostic) (source : Text) : String := (d.rendered source).shown

end Diagnostic

/-- Anything that can be reported: a bare message, a diagnostic, or one of them with a remark in
front. -/
inductive Failure where
  | plain (message : String)
  | diagnosed (d : Diagnostic)
  | during (context : String) (inner : Failure)

namespace Failure

/-- The one-line text of a failure. -/
def text : Failure → String
  | plain message => message
  | diagnosed d => d.text
  | during context inner => context ++ ": " ++ inner.text

/-- The diagnostic inside a failure. -/
def diagnostic? : Failure → Option Diagnostic
  | plain _ => none
  | diagnosed d => some d
  | during _ inner => inner.diagnostic?

/-- The failure as a diagnostic: the one inside, or a new one with the failure's text. -/
def toDiagnostic (f : Failure) (kind : DiagnosticKind) (code : String) (span : Span) : Diagnostic :=
  f.diagnostic?.getD ⟨kind, code, f.text, span, ""⟩

/-- Whether a failure holds a diagnostic of the kind. -/
def isKind (f : Failure) (kind : DiagnosticKind) : Bool :=
  match f.diagnostic? with
  | some d => d.kind == kind
  | none => false

/-- A failure shown with its source; one without a diagnostic counts as internal. -/
def format (f : Failure) (source : Text) : String :=
  (f.toDiagnostic .internal "I001" Span.none).format source

end Failure

end ClassScript
