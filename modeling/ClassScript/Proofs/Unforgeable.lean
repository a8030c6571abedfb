import ClassScript.Markup.Node
import ClassScript.Proofs.Bare
import ClassScript.Proofs.Runs
import ClassScript.Proofs.Tidy

/-!
HTML cannot be confused by what it holds. The text of an element has one reading: words end where their letters end,
quoted values at the quote and texts at the next tag, since neither a quote nor the start of a tag is left unescaped.
So two elements with the same HTML are the same element up to properties that are left out and values that are printed
alike (`html_is_unambiguous`).
-/

namespace ClassScript

namespace Markup

/-! ## What is printed -/

/-- What HTML shows of a property: nothing of one that is left out, true as such, and all else as text. -/
def Property.printed : Property → Option Property
  | .null | .boolean false => none
  | .boolean true => some (.boolean true)
  | .number x => some (.text (Number.text x))
  | .text s | .object s => some (.text s)

/-- What HTML shows of properties. -/
def printedProps (props : List (String × Property)) : List (String × Property) :=
  props.filterMap fun (name, v) => v.printed.map (name, ·)

/-- The properties that an element shows, in the order of their names. -/
def shownProps (props : List (String × Property)) : List (String × Property) :=
  printedProps (Node.mk "" props []).sortedProps

mutual

/-- What HTML shows of an element. The properties are in the order of their names. -/
def Node.printed : Node → Node
  | .mk tag props children => .mk tag (shownProps props) (Child.printedAll children)

/-- What HTML shows of children. -/
def Child.printedAll : List Child → List Child
  | [] => []
  | .node n :: rest => .node n.printed :: Child.printedAll rest
  | .text s :: rest => .text s :: Child.printedAll rest

end

/-! ## Elements that are built step by step -/

/-- The elements that are built from words as tags and names, and any values and texts. -/
inductive Node.Built : Node → Prop where
  | ofTag {tag : String} (word : IsWord tag) : Node.Built (.ofTag tag)
  | setProp {n : Node} (built : n.Built) {name : String} (word : IsWord name) (v : Property) :
    Node.Built (n.setProp name v)
  | addText {n : Node} (built : n.Built) (s : Bytes) : Node.Built (n.addText s)
  | addChild {n c : Node} (built : n.Built) (child : c.Built) : Node.Built (n.addChild c)

/-- Whether the first child is a text. -/
def Child.startsText : List Child → Bool
  | .text _ :: _ => true
  | _ => false

mutual

/-- Tags and names of properties are words, texts are not empty, and no text follows a text. -/
def Node.Regular : Node → Prop
  | .mk tag props children => IsWord tag ∧ (∀ p ∈ props, IsWord p.1) ∧ Child.RegularAll children

/-- All children are regular, and no text follows a text. -/
def Child.RegularAll : List Child → Prop
  | [] => True
  | .node n :: rest => n.Regular ∧ Child.RegularAll rest
  | .text s :: rest => s ≠ [] ∧ Child.startsText rest = false ∧ Child.RegularAll rest

end

/-- Whether the last child is a text. -/
def Child.endsText (children : List Child) : Bool :=
  match children.getLast? with
  | some (.text _) => true
  | _ => false

theorem Child.regularAll_append {cs ds : List Child} : Child.RegularAll (cs ++ ds) ↔
    Child.RegularAll cs ∧ Child.RegularAll ds ∧ (Child.endsText cs = true → Child.startsText ds = false) := by
  induction cs with
  | nil => simp [RegularAll, endsText]
  | cons c cs ih =>
    cases cs with
    | nil => cases c <;> simp [RegularAll, endsText, startsText, and_comm]
    | cons d cs =>
      have last : endsText (c :: d :: cs) = endsText (d :: cs) := by simp [endsText]
      have first : startsText (d :: cs ++ ds) = startsText (d :: cs) := by cases d <;> rfl
      rw [last, List.cons_append]
      cases c with
      | node n => rw [RegularAll, RegularAll, ih, and_assoc]
      | text s => rw [RegularAll, RegularAll, ih, first, and_assoc, and_assoc]

theorem Node.regular_addText {n : Node} (regular : n.Regular) (s : Bytes) : (n.addText s).Regular := by
  obtain ⟨tag, props, cs⟩ := n
  obtain ⟨word, names, all⟩ := regular
  rw [addText]
  split
  · exact ⟨word, names, all⟩
  next nonempty =>
    have nonempty : s ≠ [] := fun empty => nonempty (List.isEmpty_iff.2 empty)
    split
    next before last =>
      obtain ⟨front, whole⟩ := List.getLast?_eq_some_iff.1 last
      obtain rfl : cs = front ++ [Child.text before] := whole
      obtain ⟨all, -, apart⟩ := Child.regularAll_append.1 all
      refine ⟨word, names, ?_⟩
      simp only [children, List.dropLast_concat]
      exact Child.regularAll_append.2 ⟨all, ⟨by simp [nonempty], rfl, trivial⟩, fun ends => nomatch apart ends⟩
    next other =>
      refine ⟨word, names, Child.regularAll_append.2 ⟨all, ⟨nonempty, rfl, trivial⟩, fun ends => ?_⟩⟩
      rw [Child.endsText] at ends
      split at ends
      · next t last => exact absurd last (other t)
      · cases ends

/-- Every step of the building keeps elements regular. -/
theorem Node.Built.regular {n : Node} (built : n.Built) : n.Regular := by
  induction built with
  | ofTag word => exact ⟨word, by simp, trivial⟩
  | @setProp n built name word v regular =>
    obtain ⟨tag, props, cs⟩ := n
    refine ⟨regular.1, fun p found => ?_, regular.2.2⟩
    rcases List.mem_cons.1 found with rfl | kept
    · exact word
    · exact regular.2.1 p (List.mem_filter.1 kept).1
  | addText built s regular => exact regular_addText regular s
  | @addChild n c built child regular regular' =>
    obtain ⟨tag, props, cs⟩ := n
    exact ⟨regular.1, regular.2.1, Child.regularAll_append.2 ⟨regular.2.2, ⟨regular', trivial⟩, fun _ => rfl⟩⟩

/-! ## Where parts of a text end -/

/-- The bytes do not go on with a byte of a kind. -/
def Stops (p : UInt8 → Bool) (x : Bytes) : Prop := ∀ b ∈ x.head?, p b = false

theorem stops_cons {p : UInt8 → Bool} {b : UInt8} {x : Bytes} (stop : p b = false) : Stops p (b :: x) := by
  rintro b' ⟨⟩
  exact stop

/-- A part that ends where its kind of bytes ends can be told from what follows. -/
theorem part_unique {p : UInt8 → Bool} {s t x y : Bytes} (left : ∀ b ∈ s, p b = true) (right : ∀ b ∈ t, p b = true)
    (ends : Stops p x) (ends' : Stops p y) (same : s ++ x = t ++ y) : s = t ∧ x = y := by
  have whole {s x : Bytes} (inside : ∀ b ∈ s, p b = true) (ends : Stops p x) : (s ++ x).takeWhile p = s := by
    rw [List.takeWhile_append_of_pos inside]
    cases x with
    | nil => exact List.append_nil s
    | cons b x => rw [List.takeWhile_cons_of_neg (by simp [ends b rfl]), List.append_nil]
  obtain rfl : s = t := by rw [← whole left ends, same, whole right ends']
  exact ⟨rfl, List.append_cancel_left same⟩

/-! ### Words -/

/-- The bytes that words consist of. -/
def isWordByte (b : UInt8) : Bool := Lexer.isWordPart (.char (Char.ofUInt8 b))

theorem wordPart_of_word {word : String} (isWord : IsWord word) :
    ∀ c ∈ word.toList, Lexer.isWordPart (.char c) = true := by
  obtain ⟨c, cs, spelled, letter, parts⟩ := isWord
  rw [spelled, List.forall_mem_cons]
  exact ⟨by rw [Lexer.isWordPart, letter, Bool.true_or], parts⟩

theorem ofUInt8_ofNat {c : Char} (ascii : Text.isAscii c = true) : Char.ofUInt8 (UInt8.ofNat c.toNat) = c := by
  have small : c.toNat < 0x80 := by simpa [Text.isAscii] using ascii
  have code : (UInt8.ofNat c.toNat).toNat = c.toNat := by rw [UInt8.toNat_ofNat', Nat.mod_eq_of_lt (by omega)]
  exact Char.toNat_inj.1 code

theorem wordByte_of_word {word : String} (isWord : IsWord word) :
    ∀ b ∈ Bytes.ofString word, isWordByte b = true := by
  intro b found
  obtain ⟨c, inside, found⟩ := List.mem_flatMap.1 found
  have part := wordPart_of_word isWord c inside
  have ascii := isAscii_wordPart part
  rw [Text.encode_ascii ascii, List.mem_singleton] at found
  rw [found, isWordByte, ofUInt8_ofNat ascii, part]

theorem shown_word {word : String} (isWord : IsWord word) : (Bytes.ofString word).shown = word := by
  have ascii : word.toList.all Text.isAscii = true :=
    List.all_eq_true.2 fun c found => isAscii_wordPart (wordPart_of_word isWord c found)
  have read := Text.text_ofString ascii
  rw [String.ofList_toList] at read
  rw [Bytes.shown, read]
  exact Text.shown_ofString word

theorem word_eq_of_bytes {word word' : String} (isWord : IsWord word) (isWord' : IsWord word')
    (same : Bytes.ofString word = Bytes.ofString word') : word = word' := by
  rw [← shown_word isWord, same, shown_word isWord']

theorem exists_wordByte {word : String} (isWord : IsWord word) :
    ∃ b bs, Bytes.ofString word = b :: bs ∧ isWordByte b = true := by
  have ⟨c, cs, spelled, _⟩ := isWord
  cases bytes : Bytes.ofString word with
  | nil =>
    rw [Bytes.ofString, spelled, List.flatMap_cons, List.append_eq_nil_iff] at bytes
    exact absurd bytes.1 String.utf8EncodeChar_ne_nil
  | cons b bs => exact ⟨b, bs, rfl, wordByte_of_word isWord b (bytes ▸ List.mem_cons_self)⟩

theorem word_unique {word word' : String} {x y : Bytes} (isWord : IsWord word) (isWord' : IsWord word')
    (ends : Stops isWordByte x) (ends' : Stops isWordByte y)
    (same : Bytes.ofString word ++ x = Bytes.ofString word' ++ y) : word = word' ∧ x = y := by
  obtain ⟨bytes, rest⟩ := part_unique (wordByte_of_word isWord) (wordByte_of_word isWord') ends ends' same
  exact ⟨word_eq_of_bytes isWord isWord' bytes, rest⟩

/-! ### Escaped texts -/

/-- The bytes that are escaped, and what is written for them. -/
def entities : List (UInt8 × Bytes) :=
  [('&'.toUInt8, "&amp;"), ('<'.toUInt8, "&lt;"), ('>'.toUInt8, "&gt;"), ('"'.toUInt8, "&#34;"),
    ('\''.toUInt8, "&#39;")]

theorem toUInt8_ofUInt8 (b : UInt8) : (Char.ofUInt8 b).toUInt8 = b := UInt8.toUInt8_toUInt32 b

theorem escapedByte_cases (b : UInt8) :
    (b, escapedByte b) ∈ entities ∨ b ∉ entities.map (·.1) ∧ escapedByte b = [b] := by
  have code {c : Char} (same : Char.ofUInt8 b = c) : b = c.toUInt8 := by rw [← same, toUInt8_ofUInt8]
  rw [escapedByte]
  split
  case h_6 amp lt gt quote tick =>
    refine .inr ⟨fun found => ?_, rfl⟩
    simp only [entities, List.map_cons, List.map_nil, List.mem_cons, List.not_mem_nil, or_false] at found
    rcases found with rfl | rfl | rfl | rfl | rfl
    · exact amp rfl
    · exact lt rfl
    · exact gt rfl
    · exact quote rfl
    · exact tick rfl
  all_goals
    next same =>
      obtain rfl := code same
      exact .inl (by decide)

/-- No entity is the start of another one. -/
theorem entity_unique : ∀ p ∈ entities, ∀ q ∈ entities, p.2 <+: q.2 → p = q := by decide

theorem head_entity : ∀ p ∈ entities, p.2.head? = some '&'.toUInt8 := by decide

theorem escapedByte_unique {b c : UInt8} {x y : Bytes} (same : escapedByte b ++ x = escapedByte c ++ y) :
    b = c ∧ x = y := by
  have apart {b c : UInt8} {x y : Bytes} (entity : (b, escapedByte b) ∈ entities) (plain : c ∉ entities.map (·.1)) :
      escapedByte b ++ x ≠ c :: y := by
    intro same
    have head : (escapedByte b ++ x).head? = some '&'.toUInt8 := by
      rw [List.head?_append, head_entity _ entity, Option.some_or]
    rw [same, List.head?_cons, Option.some_inj] at head
    exact plain (head ▸ by decide)
  rcases escapedByte_cases b with entity | ⟨plain, itself⟩ <;>
    rcases escapedByte_cases c with entity' | ⟨plain', itself'⟩
  · have bytes : (b, escapedByte b) = (c, escapedByte c) := by
      rcases List.prefix_or_prefix_of_prefix (List.prefix_append _ x) (same ▸ List.prefix_append _ y) with
        first | second
      · exact entity_unique _ entity _ entity' first
      · exact (entity_unique _ entity' _ entity second).symm
    obtain rfl : b = c := congrArg Prod.fst bytes
    exact ⟨rfl, List.append_cancel_left same⟩
  · exact absurd (itself' ▸ same) (apart entity plain')
  · exact absurd (itself ▸ same).symm (apart entity' plain)
  · rw [itself, itself'] at same
    exact List.cons_eq_cons.1 same

theorem escapedByte_ne_nil (b : UInt8) : escapedByte b ≠ [] := by
  rcases escapedByte_cases b with entity | ⟨-, itself⟩
  · intro empty
    exact nomatch empty ▸ head_entity _ entity
  · rw [itself]
    exact List.cons_ne_nil b []

theorem escaped_cons (b : UInt8) (s : Bytes) : escaped (b :: s) = escapedByte b ++ escaped s := List.flatMap_cons

/-- What is escaped can be read back. -/
theorem escaped_injective {s t : Bytes} (same : escaped s = escaped t) : s = t := by
  induction s generalizing t with
  | nil =>
    cases t with
    | nil => rfl
    | cons c t => exact absurd (List.append_eq_nil_iff.1 same.symm).1 (escapedByte_ne_nil c)
  | cons b s ih =>
    cases t with
    | nil => exact absurd (List.append_eq_nil_iff.1 same).1 (escapedByte_ne_nil b)
    | cons c t =>
      rw [escaped_cons, escaped_cons] at same
      obtain ⟨rfl, rest⟩ := escapedByte_unique same
      rw [ih rest]

theorem plain_entity : ∀ p ∈ entities, '<'.toUInt8 ∉ p.2 ∧ '"'.toUInt8 ∉ p.2 := by decide

/-- No tag starts in an escaped text, and no quotation ends there. -/
theorem plain_escaped {s : Bytes} : ∀ b ∈ escaped s, b ≠ '<'.toUInt8 ∧ b ≠ '"'.toUInt8 := by
  intro b found
  obtain ⟨c, -, found⟩ := List.mem_flatMap.1 found
  rcases escapedByte_cases c with entity | ⟨plain, itself⟩
  · obtain ⟨noTag, noQuote⟩ := plain_entity _ entity
    exact ⟨fun tag => noTag (tag ▸ found), fun quote => noQuote (quote ▸ found)⟩
  · rw [itself, List.mem_singleton] at found
    subst found
    exact ⟨fun tag => plain (tag ▸ by decide), fun quote => plain (quote ▸ by decide)⟩

/-- An escaped text in front of a byte that it cannot hold can be told from what follows. -/
theorem escaped_unique {s t x y : Bytes} {stop : UInt8} (special : stop = '<'.toUInt8 ∨ stop = '"'.toUInt8)
    (same : escaped s ++ stop :: x = escaped t ++ stop :: y) : s = t ∧ x = y := by
  have inside (s : Bytes) : ∀ b ∈ escaped s, (b != stop) = true := by
    intro b found
    obtain ⟨lt, quote⟩ := plain_escaped b found
    rcases special with rfl | rfl
    · exact bne_iff_ne.2 lt
    · exact bne_iff_ne.2 quote
  have ends (x : Bytes) : Stops (· != stop) (stop :: x) := stops_cons (bne_self_eq_false stop)
  obtain ⟨text, rest⟩ := part_unique (inside s) (inside t) (ends x) (ends y) same
  exact ⟨escaped_injective text, (List.cons_eq_cons.1 rest).2⟩

/-! ## Attributes -/

/-- The attributes of properties. -/
def attributes (props : List (String × Property)) : Bytes := props.flatMap fun (name, v) => attributeText name v

theorem attributes_cons (name : String) (v : Property) (props : List (String × Property)) :
    attributes ((name, v) :: props) = attributeText name v ++ attributes props := List.flatMap_cons

theorem attributes_printedProps (props : List (String × Property)) :
    attributes (printedProps props) = attributes props := by
  induction props with
  | nil => rfl
  | cons p props ih =>
    obtain ⟨name, v⟩ := p
    have skip (none : v.printed = none) : printedProps ((name, v) :: props) = printedProps props :=
      List.filterMap_cons_none (by simp [none])
    have keep {w : Property} (some : v.printed = some w) :
        printedProps ((name, v) :: props) = (name, w) :: printedProps props :=
      List.filterMap_cons_some (by simp [some])
    rw [attributes_cons, ← ih]
    rcases v with _ | ⟨_ | _⟩ | x | s | s
    · rw [skip rfl]; rfl
    · rw [skip rfl]; rfl
    all_goals rw [keep rfl]; rfl

/-- A property as HTML shows it: true, or a text. -/
def Property.IsPrinted (v : Property) : Prop := v = .boolean true ∨ ∃ s, v = .text s

theorem isPrinted_of_printed {v w : Property} (printed : v.printed = some w) : w.IsPrinted := by
  rcases v with _ | ⟨_ | _⟩ | _ | _ | _ <;> cases printed
  · exact .inl rfl
  all_goals exact .inr ⟨_, rfl⟩

theorem of_mem_printedProps {props : List (String × Property)} {p : String × Property}
    (found : p ∈ printedProps props) : p.2.IsPrinted ∧ ∃ v, (p.1, v) ∈ props := by
  obtain ⟨⟨name, v⟩, inside, same⟩ := List.mem_filterMap.1 found
  obtain ⟨w, printed, rfl⟩ := Option.map_eq_some_iff.1 same
  exact ⟨isPrinted_of_printed printed, v, inside⟩

/-- The bytes go on with an attribute, or with the end of the tag. -/
def AfterAttribute (x : Bytes) : Prop := ∃ b z, x = b :: z ∧ (b = ' '.toUInt8 ∨ b = '>'.toUInt8)

theorem AfterAttribute.stops {x : Bytes} (after : AfterAttribute x) : Stops isWordByte x := by
  obtain ⟨b, z, rfl, rfl | rfl⟩ := after <;> exact stops_cons rfl

theorem attributeText_unique {name name' : String} {v w : Property} {x y : Bytes} (word : IsWord name)
    (word' : IsWord name') (printed : v.IsPrinted) (printed' : w.IsPrinted) (after : AfterAttribute x)
    (after' : AfterAttribute y) (same : attributeText name v ++ x = attributeText name' w ++ y) :
    (name, v) = (name', w) ∧ x = y := by
  have bare (name : String) (x : Bytes) :
      attributeText name (.boolean true) ++ x = ' '.toUInt8 :: (Bytes.ofString name ++ x) := rfl
  have quoted (name : String) (s x : Bytes) : attributeText name (.text s) ++ x =
      ' '.toUInt8 :: (Bytes.ofString name ++ '='.toUInt8 :: '"'.toUInt8 :: (escaped s ++ '"'.toUInt8 :: x)) := by
    simp only [attributeText, List.append_assoc]
    rfl
  -- What stands behind the name tells whether there is a value.
  have mixed {x z : Bytes} (after : AfterAttribute x) : x ≠ '='.toUInt8 :: z := by
    obtain ⟨b, z', rfl, rfl | rfl⟩ := after <;> exact fun same => nomatch (List.cons_eq_cons.1 same).1
  rcases printed with rfl | ⟨s, rfl⟩ <;> rcases printed' with rfl | ⟨t, rfl⟩
  · rw [bare, bare, List.cons_inj_right] at same
    obtain ⟨rfl, rest⟩ := word_unique word word' after.stops after'.stops same
    exact ⟨rfl, rest⟩
  · rw [bare, quoted, List.cons_inj_right] at same
    exact absurd (word_unique word word' after.stops (stops_cons rfl) same).2 (mixed after)
  · rw [bare, quoted, List.cons_inj_right] at same
    exact absurd (word_unique word word' (stops_cons rfl) after'.stops same).2.symm (mixed after')
  · rw [quoted, quoted, List.cons_inj_right] at same
    obtain ⟨rfl, rest⟩ := word_unique word word' (stops_cons rfl) (stops_cons rfl) same
    rw [List.cons_inj_right, List.cons_inj_right] at rest
    obtain ⟨rfl, behind⟩ := escaped_unique (.inr rfl) rest
    exact ⟨rfl, behind⟩

theorem attributeText_head (name : String) {v : Property} (printed : v.IsPrinted) :
    ∃ z, attributeText name v = ' '.toUInt8 :: z := by
  rcases printed with rfl | ⟨s, rfl⟩ <;> exact ⟨_, rfl⟩

theorem afterAttribute_attributes {props : List (String × Property)} (printed : ∀ p ∈ props, p.2.IsPrinted)
    (x : Bytes) : AfterAttribute (attributes props ++ '>'.toUInt8 :: x) := by
  cases props with
  | nil => exact ⟨_, x, rfl, .inr rfl⟩
  | cons p props =>
    obtain ⟨z, head⟩ := attributeText_head p.1 (printed p List.mem_cons_self)
    rw [attributes_cons, head]
    exact ⟨_, _, rfl, .inl rfl⟩

/-- Printed properties can be read back from their attributes, whatever follows the tag. -/
theorem attributes_unique {props props' : List (String × Property)} {x y : Bytes}
    (words : ∀ p ∈ props, IsWord p.1) (words' : ∀ p ∈ props', IsWord p.1) (printed : ∀ p ∈ props, p.2.IsPrinted)
    (printed' : ∀ p ∈ props', p.2.IsPrinted)
    (same : attributes props ++ '>'.toUInt8 :: x = attributes props' ++ '>'.toUInt8 :: y) :
    props = props' ∧ x = y := by
  have more {p : String × Property} {props : List (String × Property)} {x y : Bytes} (printed : p.2.IsPrinted) :
      '>'.toUInt8 :: x ≠ attributes (p :: props) ++ '>'.toUInt8 :: y := by
    obtain ⟨z, head⟩ := attributeText_head p.1 printed
    rw [attributes_cons, head]
    exact fun same => nomatch (List.cons_eq_cons.1 same).1
  induction props generalizing props' with
  | nil =>
    cases props' with
    | nil => exact ⟨rfl, (List.cons_eq_cons.1 same).2⟩
    | cons q props' => exact absurd same (more (printed' q List.mem_cons_self))
  | cons p props ih =>
    rw [List.forall_mem_cons] at words printed
    cases props' with
    | nil => exact absurd same.symm (more printed.1)
    | cons q props' =>
      rw [List.forall_mem_cons] at words' printed'
      rw [attributes_cons, attributes_cons, List.append_assoc, List.append_assoc] at same
      obtain ⟨first, rest⟩ := attributeText_unique words.1 words'.1 printed.1 printed'.1
        (afterAttribute_attributes printed.2 x) (afterAttribute_attributes printed'.2 y) same
      obtain rfl : p = q := first
      obtain ⟨rfl, behind⟩ := ih words.2 words'.2 printed.2 printed'.2 rest
      exact ⟨rfl, behind⟩

/-! ## Elements -/

theorem Node.html_mk (tag : String) (props : List (String × Property)) (cs : List Child) :
    (Node.mk tag props cs).html = '<'.toUInt8 :: (Bytes.ofString tag ++ (attributes (shownProps props) ++
      '>'.toUInt8 :: (Child.htmlAll cs ++ '<'.toUInt8 :: '/'.toUInt8 :: (Bytes.ofString tag ++ ['>'.toUInt8])))) := by
  rw [shownProps, attributes_printedProps, Node.html]
  simp only [List.append_assoc]
  rfl

theorem Node.html_append (tag : String) (props : List (String × Property)) (cs : List Child) (r : Bytes) :
    (Node.mk tag props cs).html ++ r =
      '<'.toUInt8 :: (Bytes.ofString tag ++ (attributes (shownProps props) ++ '>'.toUInt8 :: (Child.htmlAll cs ++
        '<'.toUInt8 :: '/'.toUInt8 :: (Bytes.ofString tag ++ '>'.toUInt8 :: r)))) := by
  rw [Node.html_mk]
  simp only [List.append_assoc, List.cons_append, List.nil_append]

theorem shownProps_words {props : List (String × Property)} (words : ∀ p ∈ props, IsWord p.1) :
    ∀ p ∈ shownProps props, IsWord p.1 := by
  intro p found
  obtain ⟨-, v, inside⟩ := of_mem_printedProps found
  have inside : (p.1, v) ∈ props.mergeSort _ := inside
  exact words (p.1, v) (List.mem_mergeSort.1 inside)

/-- What comes next between tags, as far as the next bytes tell. -/
inductive Next where
  | opening
  | text
  | closing

/-- What comes next between tags. -/
def next : Bytes → Next
  | b :: x =>
    if b ≠ '<'.toUInt8 then .text else if x.head? = some '/'.toUInt8 then .closing else .opening
  | [] => .text

/-- What the first of some children is. -/
def Child.first : List Child → Next
  | [] => .closing
  | .node _ :: _ => .opening
  | .text _ :: _ => .text

theorem Child.next_htmlAll {cs : List Child} (all : Child.RegularAll cs) (r : Bytes) :
    next (Child.htmlAll cs ++ '<'.toUInt8 :: '/'.toUInt8 :: r) = Child.first cs := by
  cases cs with
  | nil => rfl
  | cons c cs =>
    cases c with
    | node n =>
      obtain ⟨tag, props, ds⟩ := n
      obtain ⟨b, bs, spelled, inWord⟩ := exists_wordByte all.1.1
      have slash : b ≠ '/'.toUInt8 := by
        rintro rfl
        cases inWord
      rw [htmlAll, List.append_assoc, Node.html_append, spelled]
      exact if_neg fun same => slash (Option.some.inj same)
    | text s =>
      obtain ⟨b, x, start⟩ := List.exists_cons_of_ne_nil fun empty => all.1 (escaped_injective empty)
      rw [htmlAll, start]
      exact if_pos (plain_escaped b (start ▸ List.mem_cons_self)).1

theorem Child.startsTag_htmlAll {cs : List Child} (all : Child.RegularAll cs) (apart : Child.startsText cs = false)
    (r : Bytes) : ∃ z, Child.htmlAll cs ++ '<'.toUInt8 :: '/'.toUInt8 :: r = '<'.toUInt8 :: z := by
  cases cs with
  | nil => exact ⟨_, rfl⟩
  | cons c cs =>
    cases c with
    | node n =>
      obtain ⟨tag, props, ds⟩ := n
      rw [htmlAll, List.append_assoc, Node.html_append]
      exact ⟨_, rfl⟩
    | text s => cases apart

mutual

/-- What an element shows can be read back from its HTML, whatever follows. -/
theorem Node.html_unique : ∀ (m n : Node) (x y : Bytes), m.Regular → n.Regular → m.html ++ x = n.html ++ y →
    m.printed = n.printed ∧ x = y
  | .mk tag props cs, .mk tag' props' ds, x, y, ⟨word, words, all⟩, ⟨word', words', all'⟩, same => by
    rw [Node.html_append, Node.html_append, List.cons_inj_right] at same
    have printed (props : List (String × Property)) : ∀ p ∈ shownProps props, p.2.IsPrinted :=
      fun p found => (of_mem_printedProps found).1
    have ends (props : List (String × Property)) (z : Bytes) :=
      (afterAttribute_attributes (printed props) z).stops
    obtain ⟨rfl, inTag⟩ := word_unique word word' (ends props _) (ends props' _) same
    obtain ⟨sameProps, inside⟩ := attributes_unique (shownProps_words words) (shownProps_words words')
      (printed props) (printed props') inTag
    obtain ⟨sameChildren, closing⟩ := Child.htmlAll_unique cs ds _ _ all all' inside
    have behind := List.append_cancel_left closing
    rw [List.cons_inj_right] at behind
    refine ⟨?_, behind⟩
    rw [Node.printed, Node.printed, sameChildren]
    exact congrArg (Node.mk tag · _) sameProps

/-- Children can be read back from their HTML, up to the end tag. -/
theorem Child.htmlAll_unique : ∀ (cs ds : List Child) (x y : Bytes), Child.RegularAll cs → Child.RegularAll ds →
    Child.htmlAll cs ++ '<'.toUInt8 :: '/'.toUInt8 :: x = Child.htmlAll ds ++ '<'.toUInt8 :: '/'.toUInt8 :: y →
    Child.printedAll cs = Child.printedAll ds ∧ x = y
  | cs, ds, x, y, all, all', same => by
    have kinds : Child.first cs = Child.first ds := by rw [← Child.next_htmlAll all x, same, Child.next_htmlAll all' y]
    match cs, ds with
    | [], [] =>
      refine ⟨rfl, ?_⟩
      exact (List.cons_eq_cons.1 (List.cons_eq_cons.1 same).2).2
    | .node m :: cs, .node n :: ds =>
      rw [Child.htmlAll, Child.htmlAll, List.append_assoc, List.append_assoc] at same
      obtain ⟨sameNode, rest⟩ := Node.html_unique m n _ _ all.1 all'.1 same
      obtain ⟨sameChildren, behind⟩ := Child.htmlAll_unique cs ds x y all.2 all'.2 rest
      exact ⟨by rw [Child.printedAll, Child.printedAll, sameNode, sameChildren], behind⟩
    | .text s :: cs, .text t :: ds =>
      rw [Child.htmlAll, Child.htmlAll, List.append_assoc, List.append_assoc] at same
      obtain ⟨z, tag⟩ := Child.startsTag_htmlAll all.2.2 all.2.1 x
      obtain ⟨z', tag'⟩ := Child.startsTag_htmlAll all'.2.2 all'.2.1 y
      rw [tag, tag'] at same
      obtain ⟨sameText, rest⟩ := escaped_unique (.inl rfl) same
      rw [← List.cons_inj_right, ← tag, ← tag'] at rest
      obtain ⟨sameChildren, behind⟩ := Child.htmlAll_unique cs ds x y all.2.2 all'.2.2 rest
      exact ⟨by rw [Child.printedAll, Child.printedAll, sameText, sameChildren], behind⟩
    | [], .node _ :: _ | [], .text _ :: _ | .node _ :: _, [] | .text _ :: _, [] => cases kinds
    | .node _ :: _, .text _ :: _ | .text _ :: _, .node _ :: _ => cases kinds

end

/-! ## HTML of what is shown -/

theorem printedProps_of_isPrinted {props : List (String × Property)} (printed : ∀ p ∈ props, p.2.IsPrinted) :
    printedProps props = props := by
  induction props with
  | nil => rfl
  | cons p props ih =>
    obtain ⟨name, v⟩ := p
    rw [List.forall_mem_cons] at printed
    have itself : v.printed = some v := by rcases printed.1 with same | ⟨s, same⟩ <;> cases same <;> rfl
    rw [printedProps, List.filterMap_cons_some (by simp [itself]; rfl)]
    exact congrArg _ (ih printed.2)

theorem shownProps_sorted (props : List (String × Property)) :
    (shownProps props).Pairwise fun p q => decide (p.1 ≤ q.1) = true := by
  have sorted : (Node.mk "" props []).sortedProps.Pairwise fun p q => decide (p.1 ≤ q.1) = true :=
    List.pairwise_mergeSort (fun _ _ _ => by simpa using String.le_trans)
      (fun _ _ => by simpa using String.le_total _ _) props
  refine List.Pairwise.filterMap _ (fun p q le p' printed q' printed' => ?_) sorted
  obtain ⟨_, -, rfl⟩ := Option.map_eq_some_iff.1 printed
  obtain ⟨_, -, rfl⟩ := Option.map_eq_some_iff.1 printed'
  exact le

theorem shownProps_shownProps (props : List (String × Property)) :
    shownProps (shownProps props) = shownProps props := by
  have inOrder : (Node.mk "" (shownProps props) []).sortedProps = shownProps props :=
    List.mergeSort_of_pairwise (shownProps_sorted props)
  rw [shownProps, inOrder]
  exact printedProps_of_isPrinted fun p found => (of_mem_printedProps found).1

mutual

theorem Node.html_printed : ∀ n : Node, n.printed.html = n.html
  | .mk tag props cs => by
    rw [Node.printed, Node.html_mk, Node.html_mk, shownProps_shownProps, Child.htmlAll_printedAll cs]

theorem Child.htmlAll_printedAll : ∀ cs : List Child, Child.htmlAll (Child.printedAll cs) = Child.htmlAll cs
  | [] => rfl
  | .node n :: cs => by
    rw [Child.printedAll, Child.htmlAll, Child.htmlAll, Node.html_printed n, Child.htmlAll_printedAll cs]
  | .text s :: cs => by rw [Child.printedAll, Child.htmlAll, Child.htmlAll, Child.htmlAll_printedAll cs]

end

/-- Elements that are built from words as tags and names of properties have the same HTML only if they show the same:
the same tag, the same properties but for those that are left out and the ways of printing a value, and children that
show the same. No text and no value can be taken for a tag or an attribute. -/
theorem html_is_unambiguous {m n : Node} (built : m.Built) (built' : n.Built) :
    m.html = n.html ↔ m.printed = n.printed := by
  refine ⟨fun same => ?_, fun same => by rw [← m.html_printed, same, n.html_printed]⟩
  exact (Node.html_unique m n [] [] built.regular built'.regular (congrArg (· ++ []) same)).1

/-- `<p><b></b></p>` -/
def nested : Node := (Node.ofTag "p").addChild (.ofTag "b")

/-- A paragraph with the text `<b></b>`. -/
def quoted : Node := (Node.ofTag "p").addText "<b></b>"

theorem nested_ne_quoted : nested.html ≠ quoted.html := by
  have p : IsWord "p" := ⟨'p', [], rfl, rfl, nofun⟩
  have b : IsWord "b" := ⟨'b', [], rfl, rfl, nofun⟩
  intro same
  have shown := (html_is_unambiguous (.addChild (.ofTag p) (.ofTag b)) (.addText (.ofTag p) "<b></b>")).1 same
  cases congrArg Node.children shown

end Markup

end ClassScript
