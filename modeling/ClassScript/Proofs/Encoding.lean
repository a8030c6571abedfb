import ClassScript.Text.Glyph

/-!
# Texts that survive their encoding

A text is settled when reading its bytes gives it back (`Settled`): every text that was read from
bytes is, and so is each part of it. It is solid when that holds whatever bytes follow (`Solid`), so
that solid texts can be put behind each other. A settled text between ASCII characters is solid, since
no encoding of a character runs across an ASCII byte (`solid_of_settled`).
-/

namespace ClassScript.Text

/-- Reading the bytes of the text gives it back. -/
def Settled (t : Text) : Prop := ofBytes t.bytes = t

/-- Reading the bytes of the text gives it back, whatever bytes follow. -/
def Solid (t : Text) : Prop := ∀ rest : Bytes, ofBytes (t.bytes ++ rest) = t ++ ofBytes rest

/-! ## The encoding of a character -/

theorem ofNat_lt_iff {n k : Nat} (small : n < 256) (bound : k < 256) :
    UInt8.ofNat n < UInt8.ofNat k ↔ n < k := by
  rw [UInt8.lt_iff_toNat_lt, UInt8.toNat_ofNat', UInt8.toNat_ofNat', Nat.mod_eq_of_lt small,
    Nat.mod_eq_of_lt bound]

theorem leadLength_ofNat {n : Nat} (small : n < 256) :
    leadLength (UInt8.ofNat n) =
      if n < 0x80 then 1 else if n < 0xE0 then 2 else if n < 0xF0 then 3 else 4 := by
  have one : UInt8.ofNat n < 0x80 ↔ n < 0x80 := ofNat_lt_iff small (by decide)
  have two : UInt8.ofNat n < 0xE0 ↔ n < 0xE0 := ofNat_lt_iff small (by decide)
  have three : UInt8.ofNat n < 0xF0 ↔ n < 0xF0 := ofNat_lt_iff small (by decide)
  simp only [leadLength, one, two, three]

theorem continuation (n : Nat) : ¬ UInt8.ofNat (n % 0x40 + 0x80) < 0x80 := by
  have large := ofNat_lt_iff (n := n % 0x40 + 0x80) (k := 0x80) (by omega) (by decide)
  intro less
  have := large.1 less
  omega

/-- The first byte of an encoding announces its length, and no other byte of it is ASCII. -/
theorem encoding_shape (c : Char) : ∃ b tail, String.utf8EncodeChar c = b :: tail ∧
    leadLength b = tail.length + 1 ∧ ∀ x ∈ tail, ¬ x < 0x80 := by
  unfold String.utf8EncodeChar
  dsimp only
  split
  · next one =>
    refine ⟨_, [], rfl, ?_, by simp⟩
    rw [leadLength_ofNat (by omega), if_pos (by omega)]
    rfl
  · split
    · refine ⟨_, _, rfl, ?_, ?_⟩
      · rw [leadLength_ofNat (by omega), if_neg (by omega), if_pos (by omega)]
        rfl
      · intro x found
        simp only [List.mem_cons, List.not_mem_nil, or_false] at found
        subst found
        exact continuation _
    · split
      · refine ⟨_, _, rfl, ?_, ?_⟩
        · rw [leadLength_ofNat (by omega), if_neg (by omega), if_neg (by omega), if_pos (by omega)]
          rfl
        · intro x found
          simp only [List.mem_cons, List.not_mem_nil, or_false] at found
          rcases found with rfl | rfl <;> exact continuation _
      · refine ⟨_, _, rfl, ?_, ?_⟩
        · rw [leadLength_ofNat (by omega), if_neg (by omega), if_neg (by omega), if_neg (by omega)]
          rfl
        · intro x found
          simp only [List.mem_cons, List.not_mem_nil, or_false] at found
          rcases found with rfl | rfl | rfl <;> exact continuation _

/-- What a character that is found at the front of the bytes leaves behind it. -/
theorem leading_length {b : UInt8} {rest : Bytes} {c : Char} (found : leading b rest = some c) :
    (rest.take (leadLength b - 1)).length = leadLength b - 1 ∧
      ∀ x ∈ rest.take (leadLength b - 1), ¬ x < 0x80 := by
  obtain ⟨b', tail, spelled, announced, rest_large⟩ := encoding_shape c
  have bytes := leading_bytes found
  rw [spelled] at bytes
  obtain ⟨rfl, rfl⟩ := List.cons.inj bytes
  exact ⟨by omega, rest_large⟩

theorem leading_congr {b : UInt8} {rest rest' : Bytes}
    (same : rest.take (leadLength b - 1) = rest'.take (leadLength b - 1)) :
    leading b rest = leading b rest' := by
  simp only [leading, same]

/-- Whether a character is found at the front does not depend on bytes that follow an ASCII byte or
the end. -/
theorem leading_append {b : UInt8} {rest more : Bytes}
    (ascii : ∀ x, more.head? = some x → x < 0x80) :
    leading b (rest ++ more) = leading b rest := by
  by_cases enough : leadLength b - 1 ≤ rest.length
  · exact leading_congr (List.take_append_of_le_length enough)
  · have short : rest.length < leadLength b - 1 := by omega
    -- With too few bytes in front, a character would have to run across the ASCII byte.
    have none_short : leading b rest = none := by
      rw [Option.eq_none_iff_forall_ne_some]
      intro c found
      have := (leading_length found).1
      rw [List.length_take] at this
      omega
    rw [none_short, Option.eq_none_iff_forall_ne_some]
    intro c found
    obtain ⟨filled, large⟩ := leading_length found
    cases more with
    | nil =>
      rw [List.append_nil, List.length_take] at filled
      omega
    | cons x more =>
      refine large x ?_ (ascii x rfl)
      rw [List.take_append, List.mem_append]
      right
      obtain ⟨k, missing⟩ : ∃ k, leadLength b - 1 - rest.length = k + 1 :=
        ⟨leadLength b - 2 - rest.length, by omega⟩
      rw [missing, List.take_succ_cons]
      exact List.mem_cons_self

/-! ## Settled texts -/

/-- Reading takes exactly the glyph from the front of its bytes. -/
def Front (g : Glyph) (rest : Bytes) : Prop := ofBytes (g.bytes ++ rest) = g :: ofBytes rest

theorem front_stray_iff (b : UInt8) (rest : Bytes) : Front (.stray b) rest ↔ leading b rest = none := by
  rw [Front, Glyph.bytes, List.singleton_append, ofBytes_cons]
  cases leading b rest with
  | none => simp
  | some c => simp

/-- A character is found again in front of all bytes or of none. -/
theorem front_char_iff (c : Char) (rest rest' : Bytes) : Front (.char c) rest ↔ Front (.char c) rest' := by
  obtain ⟨b, tail, spelled, announced, _⟩ := encoding_shape c
  have taken : ∀ more : Bytes, (tail ++ more).take (leadLength b - 1) = tail := by
    intro more
    rw [announced, Nat.add_sub_cancel, List.take_left]
  have left : ∀ more : Bytes, (tail ++ more).drop (leadLength b - 1) = more := by
    intro more
    rw [announced, Nat.add_sub_cancel, List.drop_left]
  have same : leading b (tail ++ rest) = leading b (tail ++ rest') :=
    leading_congr (by rw [taken, taken])
  simp only [Front, Glyph.bytes, spelled, List.cons_append, ofBytes_cons, left, same]
  cases leading b (tail ++ rest') with
  | none => simp
  | some d => simp

theorem settled_cons {g : Glyph} {t : Text} (settled : Settled (g :: t)) :
    Front g t.bytes ∧ Settled t := by
  have again := settled
  rw [Settled, bytes_cons] at again
  cases g with
  | stray b =>
    rw [Glyph.bytes, List.singleton_append, ofBytes_cons] at again
    cases found : leading b t.bytes with
    | none =>
      rw [found] at again
      exact ⟨(front_stray_iff b t.bytes).2 found, (List.cons.inj again).2⟩
    | some c =>
      rw [found] at again
      cases (List.cons.inj again).1
  | char c =>
    obtain ⟨b, tail, spelled, announced, _⟩ := encoding_shape c
    have left : (tail ++ t.bytes).drop (leadLength b - 1) = t.bytes := by
      rw [announced, Nat.add_sub_cancel, List.drop_left]
    have kept : ofBytes ((Glyph.char c).bytes ++ t.bytes) = .char c :: t := again
    rw [Glyph.bytes, spelled, List.cons_append, ofBytes_cons, left] at again
    cases found : leading b (tail ++ t.bytes) with
    | none =>
      rw [found] at again
      cases (List.cons.inj again).1
    | some d =>
      rw [found] at again
      have rest := (List.cons.inj again).2
      exact ⟨by rw [Front, kept, rest], rest⟩

theorem settled_of_front {g : Glyph} {t : Text} (front : Front g t.bytes) (settled : Settled t) :
    Settled (g :: t) := by
  rw [Settled, bytes_cons, front, settled]

/-- A text that was read from bytes is settled. -/
theorem settled_ofBytes (bs : Bytes) : Settled (ofBytes bs) := by rw [Settled, bytes_ofBytes]

theorem settled_drop {s t : Text} (settled : Settled (s ++ t)) : Settled t := by
  induction s with
  | nil => exact settled
  | cons g s ih => exact ih (settled_cons settled).2

theorem settled_take {s t : Text} (settled : Settled (s ++ t)) : Settled s := by
  induction s with
  | nil => exact ofBytes_nil
  | cons g s ih =>
    rw [List.cons_append] at settled
    obtain ⟨front, rest⟩ := settled_cons settled
    refine settled_of_front ?_ (ih rest)
    cases g with
    | char c => exact (front_char_iff c _ _).1 front
    | stray b =>
      rw [front_stray_iff] at front ⊢
      rw [bytes_append] at front
      by_cases enough : leadLength b - 1 ≤ (bytes s).length
      · rw [leading_congr (List.take_append_of_le_length enough)] at front
        exact front
      · rw [Option.eq_none_iff_forall_ne_some]
        intro c found
        have := (leading_length found).1
        rw [List.length_take] at this
        omega

/-- A settled text is read back in front of an ASCII byte. -/
theorem ofBytes_append {t : Text} {rest : Bytes} (settled : Settled t)
    (ascii : ∀ x, rest.head? = some x → x < 0x80) : ofBytes (t.bytes ++ rest) = t ++ ofBytes rest := by
  induction t with
  | nil => rfl
  | cons g t ih =>
    obtain ⟨front, settledTail⟩ := settled_cons settled
    have found : Front g (bytes t ++ rest) := by
      cases g with
      | char c => exact (front_char_iff c _ _).1 front
      | stray b =>
        rw [front_stray_iff] at front ⊢
        rw [leading_append ascii, front]
    rw [bytes_cons, List.append_assoc, found, ih settledTail, List.cons_append]

/-! ## Solid texts -/

theorem solid_nil : Solid [] := fun _ => rfl

theorem solid_append {s t : Text} (first : Solid s) (second : Solid t) : Solid (s ++ t) := by
  intro rest
  rw [bytes_append, List.append_assoc, first, second, List.append_assoc]

/-- The ASCII characters. -/
def isAscii (c : Char) : Bool := c.toNat < 0x80

theorem encode_ascii {c : Char} (ascii : isAscii c = true) :
    String.utf8EncodeChar c = [UInt8.ofNat c.toNat] := by
  have small : c.val.toNat ≤ 0x7f := by
    have : c.toNat < 0x80 := by simpa [isAscii] using ascii
    exact Nat.le_of_lt_succ this
  unfold String.utf8EncodeChar
  exact if_pos small

theorem solid_ascii {c : Char} (ascii : isAscii c = true) : Solid [.char c] := by
  have small : c.toNat < 0x80 := by simpa [isAscii] using ascii
  have lone : leadLength (UInt8.ofNat c.toNat) = 1 := by
    rw [leadLength_ofNat (by omega), if_pos small]
  have code : (UInt8.ofNat c.toNat).toNat = c.toNat := by
    rw [UInt8.toNat_ofNat', Nat.mod_eq_of_lt (by omega)]
  intro rest
  have found : leading (UInt8.ofNat c.toNat) rest = some c := by
    simp only [leading, lone, Nat.sub_self, List.take_zero, List.foldl_nil, leadBits, code,
      Char.ofNat_toNat, encode_ascii ascii, if_true]
  have encoded : bytes [.char c] = [UInt8.ofNat c.toNat] := by
    rw [bytes_cons, Glyph.bytes, encode_ascii ascii]
    rfl
  rw [encoded, List.singleton_append, ofBytes_cons, found]
  simp only [lone, Nat.sub_self, List.drop_zero, List.singleton_append]

theorem solid_ofString {word : String} (ascii : ∀ c ∈ word.toList, isAscii c = true) :
    Solid (ofString word) := by
  rw [ofString]
  generalize word.toList = cs at ascii
  induction cs with
  | nil => exact solid_nil
  | cons c cs ih =>
    exact solid_append (s := [.char c]) (solid_ascii (ascii c List.mem_cons_self))
      (ih fun d later => ascii d (List.mem_cons_of_mem c later))

/-- A settled text in front of an ASCII character is solid with it. -/
theorem solid_of_settled {t : Text} {c : Char} (settled : Settled t) (ascii : isAscii c = true) :
    Solid (t ++ [Glyph.char c]) := by
  have small : c.toNat < 0x80 := by simpa [isAscii] using ascii
  intro rest
  have encoded : bytes [.char c] = [UInt8.ofNat c.toNat] := by
    rw [bytes_cons, Glyph.bytes, encode_ascii ascii]
    rfl
  rw [bytes_append, List.append_assoc, ofBytes_append settled, solid_ascii ascii rest, List.append_assoc]
  intro x first
  rw [encoded] at first
  cases first
  exact (ofNat_lt_iff (by omega) (by decide)).2 small

theorem Solid.settled {t : Text} (solid : Solid t) : Settled t := by
  have whole := solid []
  rwa [List.append_nil, ofBytes_nil, List.append_nil] at whole

/-- The bytes of ASCII characters are read as these characters. -/
theorem text_ofString {cs : List Char} (ascii : cs.all isAscii = true) :
    (Bytes.ofString (String.ofList cs)).text = cs.map Glyph.char := by
  have solid : Solid (ofString (String.ofList cs)) :=
    solid_ofString (by rw [String.toList_ofList]; exact List.all_eq_true.1 ascii)
  rw [Bytes.ofString_eq_bytes, Bytes.text, solid.settled, ofString_ofList]

end ClassScript.Text
