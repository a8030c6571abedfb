/-!
Bytes and the text they are read as. Files and the strings of programs are sequences of bytes. They
are read as lists of glyphs: each glyph is a character, or a byte that belongs to the encoding of no
character. Reading loses nothing (`Text.bytes_ofBytes`), so offsets are counted in bytes and columns
in glyphs over one list.
-/

namespace ClassScript

/-- One unit of source text: a character, or a byte that encodes none. -/
inductive Glyph where
  | char (c : Char)
  | stray (b : UInt8)
  deriving DecidableEq, Inhabited, Repr

/-- Text in reading order. -/
abbrev Text := List Glyph

/-- Bytes as a file or a string of a program holds them. -/
abbrev Bytes := List UInt8

namespace Glyph

/-- The bytes that stand for a glyph in a file. -/
def bytes : Glyph → Bytes
  | .char c => String.utf8EncodeChar c
  | .stray b => [b]

/-- How many bytes a glyph takes. -/
def width : Glyph → Nat
  | .char c => c.utf8Size
  | .stray _ => 1

/-- The character shown for a glyph: a stray byte is shown as the replacement character. -/
def shown : Glyph → Char
  | .char c => c
  | .stray _ => '\uFFFD'

/-- Whether a glyph is the given character. -/
def is (c : Char) : Glyph → Bool
  | .char d => d == c
  | .stray _ => false

theorem length_bytes (g : Glyph) : g.bytes.length = g.width := by
  cases g <;> simp [bytes, width, String.length_utf8EncodeChar]

theorem width_pos (g : Glyph) : 0 < g.width := by
  cases g with
  | char c => exact Char.utf8Size_pos c
  | stray b => exact Nat.one_pos

end Glyph

namespace Text

/-- The text of a character string. -/
def ofString (s : String) : Text := s.toList.map Glyph.char

instance : Coe String Text := ⟨ofString⟩

/-- The characters shown for a text. -/
def shown (t : Text) : String := String.ofList (t.map Glyph.shown)

/-- The text with every glyph replaced by a character that depends on the one shown for it. -/
def mapShown (f : Char → Char) (t : Text) : Text := t.map fun g => .char (f g.shown)

/-- The text with the replacement character in place of every stray byte. -/
def legible (t : Text) : Text := t.mapShown id

/-- The bytes of a text. -/
def bytes (t : Text) : Bytes := t.flatMap Glyph.bytes

/-- The number of bytes of a text. -/
def width : Text → Nat
  | [] => 0
  | g :: t => g.width + width t

/-- The number of bytes of the encoding that a lead byte announces. -/
def leadLength (b : UInt8) : Nat :=
  if b < 0x80 then 1 else if b < 0xE0 then 2 else if b < 0xF0 then 3 else 4

/-- The payload bits of a lead byte that announces `n` bytes. -/
def leadBits (n : Nat) (b : UInt8) : Nat :=
  match n with
  | 1 => b.toNat
  | 2 => b.toNat % 32
  | 3 => b.toNat % 16
  | _ => b.toNat % 8

/-- The character whose encoding starts with `b` and goes on in `rest`. A candidate is computed
from the payload bits and kept only if its own encoding is what is there, so overlong forms,
surrogates and cut-off sequences are refused. -/
def leading (b : UInt8) (rest : Bytes) : Option Char :=
  let n := leadLength b
  let tail := rest.take (n - 1)
  let code := tail.foldl (fun acc t => acc * 64 + t.toNat % 64) (leadBits n b)
  let c := Char.ofNat code
  if String.utf8EncodeChar c = b :: tail then some c else none

/-- Reads bytes as text: at each place the character that starts there, or else a stray byte. -/
def ofBytes : Bytes → Text
  | [] => []
  | b :: rest =>
    match leading b rest with
    | some c => .char c :: ofBytes (rest.drop (leadLength b - 1))
    | none => .stray b :: ofBytes rest
termination_by bs => bs.length
decreasing_by all_goals (simp only [List.length_cons, List.length_drop]; omega)

theorem ofBytes_nil : ofBytes [] = [] := by rw [ofBytes]

theorem ofBytes_cons (b : UInt8) (rest : Bytes) : ofBytes (b :: rest) =
    match leading b rest with
    | some c => .char c :: ofBytes (rest.drop (leadLength b - 1))
    | none => .stray b :: ofBytes rest := by
  rw [ofBytes]

theorem ofString_ofList (cs : List Char) : ofString (String.ofList cs) = cs.map Glyph.char := by
  rw [ofString, String.toList_ofList]

theorem bytes_cons (g : Glyph) (t : Text) : bytes (g :: t) = g.bytes ++ bytes t := rfl

theorem bytes_append (s t : Text) : bytes (s ++ t) = bytes s ++ bytes t := by
  simp only [bytes, List.flatMap_append]

theorem width_append (s t : Text) : width (s ++ t) = width s + width t := by
  induction s with
  | nil => simp [width]
  | cons g s ih => simp only [List.cons_append, width, ih, Nat.add_assoc]

theorem length_bytes (t : Text) : t.bytes.length = t.width := by
  induction t with
  | nil => rfl
  | cons g t ih => rw [bytes_cons, List.length_append, ih, Glyph.length_bytes, width]

theorem leading_bytes {b : UInt8} {rest : Bytes} {c : Char} (h : leading b rest = some c) :
    String.utf8EncodeChar c = b :: rest.take (leadLength b - 1) := by
  simp only [leading] at h
  split at h
  · next found => rw [← Option.some.inj h]; exact found
  · cases h

/-- Reading keeps every byte. -/
theorem bytes_ofBytes (bs : Bytes) : bytes (ofBytes bs) = bs := by
  fun_induction ofBytes bs with
  | case1 => rfl
  | case2 b rest c found ih =>
    rw [bytes_cons, ih, Glyph.bytes, leading_bytes found, List.cons_append,
      List.take_append_drop]
  | case3 b rest _ ih => rw [bytes_cons, ih, Glyph.bytes, List.cons_append, List.nil_append]

/-- The parts of a text between the places where a character stands. -/
@[grind =]
def splitOn (c : Char) : Text → List Text
  | [] => [[]]
  | g :: t =>
    if g.is c then [] :: splitOn c t
    else
      match splitOn c t with
      | [] => [[g]]
      | l :: ls => (g :: l) :: ls

theorem splitOn_ne_nil (c : Char) (t : Text) : t.splitOn c ≠ [] := by
  cases t with
  | nil => simp [splitOn]
  | cons g t =>
    simp only [splitOn]
    split
    · simp
    · split <;> simp

theorem splitOn_append (c : Char) (s t : Text) : splitOn c (s ++ .char c :: t) = splitOn c s ++ splitOn c t := by
  induction s with
  | nil => simp [splitOn, Glyph.is]
  | cons g s ih =>
    rw [List.cons_append, splitOn, splitOn, ih]
    cases g.is c with
    | true => rfl
    | false =>
      cases split : splitOn c s with
      | nil => exact absurd split (splitOn_ne_nil c s)
      | cons l more => rfl

theorem splitOn_eq_singleton {c : Char} {t : Text} (whole : ∀ g ∈ t, g.is c = false) : splitOn c t = [t] := by
  induction t with
  | nil => rfl
  | cons g t ih =>
    obtain ⟨first, others⟩ := List.forall_mem_cons.1 whole
    rw [splitOn, ih others, if_neg (by simp [first])]

/-- The parts between the places of a character do not have it. -/
theorem is_of_mem_splitOn {c : Char} {t part : Text} (member : part ∈ splitOn c t) : ∀ g ∈ part, g.is c = false := by
  induction t generalizing part with
  | nil => simp_all [splitOn]
  | cons g t ih =>
    rw [splitOn] at member
    split at member
    · rcases List.mem_cons.1 member with rfl | later
      · nofun
      · exact ih later
    · next other =>
      cases split : splitOn c t with
      | nil => exact absurd split (splitOn_ne_nil c t)
      | cons l more =>
        rw [split] at member ih
        rcases List.mem_cons.1 member with rfl | later
        · exact List.forall_mem_cons.2 ⟨by simpa using other, ih List.mem_cons_self⟩
        · exact ih (List.mem_cons_of_mem l later)

theorem length_splitOn (c : Char) (t : Text) : (splitOn c t).length = t.countP (Glyph.is c) + 1 := by
  induction t with
  | nil => rfl
  | cons g t ih =>
    rw [splitOn]
    cases here : g.is c with
    | true => rw [List.countP_cons_of_pos here, if_pos rfl, List.length_cons, ih]
    | false =>
      rw [List.countP_cons_of_neg (by simp [here]), ← ih, if_neg (by simp)]
      cases split : splitOn c t with
      | nil => exact absurd split (splitOn_ne_nil c t)
      | cons l more => rfl

/-- The lines of a text, without the line feeds between them. -/
def lines (t : Text) : List Text := t.splitOn '\n'

/-- The text without the carriage returns at its end. -/
def trimReturns (t : Text) : Text := (t.reverse.dropWhile (Glyph.is '\r')).reverse

end Text

namespace Bytes

/-- The bytes of a character string. -/
def ofString (s : String) : Bytes := s.toList.flatMap String.utf8EncodeChar

instance : Coe String Bytes := ⟨ofString⟩

/-- The text that bytes are read as. -/
def text (b : Bytes) : Text := Text.ofBytes b

/-- The characters shown for bytes. -/
def shown (b : Bytes) : String := b.text.shown

theorem ofString_eq_bytes (s : String) : ofString s = (Text.ofString s).bytes := by
  simp only [Text.bytes, Text.ofString, ofString, List.flatMap_map, Glyph.bytes]

theorem bytes_text (b : Bytes) : b.text.bytes = b := Text.bytes_ofBytes b

end Bytes

end ClassScript
