import ClassScript.Text.Glyph

/-!
Places in a source text. A position is a byte offset with its line and column; a span is a byte
range with the line and column of its start. Lines and columns count from one, columns in glyphs.
-/

namespace ClassScript

/-- A place between two glyphs of a source text. -/
structure Position where
  offset : Nat
  line : Nat
  column : Nat
  deriving DecidableEq, Inhabited, Repr

namespace Position

/-- The place before the first glyph. -/
def start : Position := ⟨0, 1, 1⟩

/-- The place behind one more glyph. -/
def step (p : Position) (g : Glyph) : Position :=
  if g.is '\n' then ⟨p.offset + g.width, p.line + 1, 1⟩
  else ⟨p.offset + g.width, p.line, p.column + 1⟩

/-- The place behind a run of glyphs. -/
def after (p : Position) (t : Text) : Position := t.foldl step p

theorem offset_step (p : Position) (g : Glyph) : (p.step g).offset = p.offset + g.width := by
  unfold step; split <;> rfl

theorem offset_after (p : Position) (t : Text) : (p.after t).offset = p.offset + t.width := by
  induction t generalizing p with
  | nil => rfl
  | cons g t ih =>
    have rest := ih (p.step g)
    rw [offset_step, Nat.add_assoc] at rest
    exact rest

theorem after_append (p : Position) (s t : Text) : p.after (s ++ t) = (p.after s).after t :=
  List.foldl_append ..

end Position

/-- A byte range of a source text, with the line and column of its start. The span of all zeros
belongs to nothing in the text. -/
structure Span where
  start : Nat
  stop : Nat
  line : Nat
  column : Nat
  deriving DecidableEq, Inhabited, Repr

namespace Span

/-- The span that was never set. -/
def none : Span := ⟨0, 0, 0, 0⟩

/-- Whether a span was never set; the column does not matter. -/
def isNone (s : Span) : Bool := s.line == 0 && s.start == 0 && s.stop == 0

/-- The span between two positions. -/
def between (first last : Position) : Span := ⟨first.offset, last.offset, first.line, first.column⟩

/-- The smallest span that holds both, placed where the earlier one starts. -/
def cover (s t : Span) : Span :=
  if s.isNone then t
  else if t.isNone then s
  else
    let stop := max s.stop t.stop
    if t.start < s.start then ⟨t.start, stop, t.line, t.column⟩
    else ⟨s.start, stop, s.line, s.column⟩

/-- Line and column, as messages show them. -/
def place (s : Span) : String := s!"{s.line}:{s.column}"

end Span

end ClassScript
