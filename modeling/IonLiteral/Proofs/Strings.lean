import IonLiteral.Proofs.Encodings
import IonLiteral.Proofs.Reading
import IonLiteral.Reader.Ion

/-! # Strings are read back

Every character of a string is written as something that a reader of Ion takes for that character:
as itself only where it may stand as it is, by a letter that names it, or by its number in the
digits that the marker asks for. So a string is read back with all its characters, and the reader
stops right behind the closing delimiter.
-/

namespace IonLiteral

namespace Reader

/-- A letter is read as the character that it was written for. -/
theorem namedChar?_of_mem_letters {letter c : Char} (member : (letter, c) ∈ Spelling.letters) :
    namedChar? letter = some c := by
  have each : ∀ entry ∈ Spelling.letters, namedChar? entry.1 = some entry.2 := by decide
  exact each (letter, c) member

/-- A letter that names a character is read as that character. -/
theorem ionEscape?_named {letter c : Char} (named : namedChar? letter = some c) (rest : List Char) :
    ionEscape? (letter :: rest) = some (c, rest) := by
  unfold ionEscape?
  simp only [named]

/-- A marker with its digits is read as the character of that number. -/
theorem ionEscape?_numeric {marker : Char} {width : Nat} {c : Char}
    (noName : namedChar? marker = none) (digits : width? marker = some width)
    (fits : c.toNat < 16 ^ width) (rest : List Char) :
    ionEscape? (marker :: Hex.fixed width c.toNat ++ rest) = some (c, rest) := by
  have found : CodePoint.toChar? (UInt32.ofNat c.toNat) = some c := by
    change CodePoint.toChar? (UInt32.ofNat c.val.toNat) = some c
    rw [UInt32.ofNat_toNat, CodePoint.toChar?_val]
  rw [List.cons_append]
  unfold ionEscape?
  simp only [noName, digits, Hex.read?_fixed fits, found, bind, Option.bind_some]
  rfl

end Reader

namespace Spelling

/-- Outside JSON a character has one escape by number, with a width that has room for it. -/
theorem byNumber_of_ion {form : Form} (ion : form.isJson = false) (c : Char) :
    ∃ marker width, byNumber form c = [.numeric marker width c.toNat] ∧
      Reader.namedChar? marker = none ∧ Reader.width? marker = some width ∧
      c.toNat < 16 ^ width := by
  unfold byNumber
  rw [ion]
  by_cases latin : c.val < 0x100
  · have fits : c.toNat < 0x100 := UInt32.lt_iff_toNat_lt.mp latin
    rw [if_pos latin]
    exact ⟨'x', 2, rfl, rfl, rfl, fits⟩
  · rw [if_neg latin]
    by_cases small : c.val < 0x10000
    · have fits : c.toNat < 0x10000 := CodePoint.small_iff.mp small
      rw [if_pos small]
      exact ⟨'u', 4, rfl, rfl, rfl, fits⟩
    · have fits : c.toNat < 16 ^ 8 := Nat.lt_trans (CodePoint.toNat_lt c) (by decide)
      rw [if_neg small]
      exact ⟨'U', 8, rfl, rfl, rfl, fits⟩

/-- What is no control character may stand as it is. -/
theorem isLiteral_of_not_isControl {form : Form} {c : Char} (allowed : isControl form c = false) :
    Reader.isLiteral (form == .longString) c = true := by
  have opposite : decide (0x20 ≤ c.val) = !decide (c.val < 0x20) := by
    rw [← decide_not, decide_eq_decide, UInt32.not_lt]
  unfold isControl at allowed
  unfold Reader.isLiteral
  rcases Bool.and_eq_false_iff.mp allowed with printable | lineFeed
  · obtain ⟨high, notDelete⟩ := Bool.or_eq_false_iff.mp printable
    rw [opposite, high, bne, notDelete]
    rfl
  · rw [Bool.not_eq_false'] at lineFeed
    rw [lineFeed, Bool.or_true]

end Spelling

/-- **Every character is read back.** What a character is written as in a string or a symbol is read
as that character, whether or not the sink escapes. -/
theorem Form.spells_charText (form : Form) (ion : form.isJson = false) (escapesUnicode : Bool)
    (c : Char) :
    Reader.Spells (Reader.ionText (form == .longString)) form.quote c
      (form.charText escapesUnicode c) := by
  have rule := Spelling.rule_ofChar form escapesUnicode c
  unfold charText
  generalize Spelling.ofChar form escapesUnicode c = spelling at rule
  cases rule with
  | named found =>
      have named := Reader.namedChar?_of_mem_letters (Spelling.mem_letters found)
      exact .escape (Reader.ionEscape?_named named)
  | number unnamed needed =>
      obtain ⟨marker, width, number, noName, digits, fits⟩ := Spelling.byNumber_of_ion ion c
      rw [number]
      change Reader.Spells _ _ c ('\\' :: (marker :: Hex.fixed width c.toNat ++ []))
      rw [List.append_nil]
      exact .escape (Reader.ionEscape?_numeric noName digits fits)
  | itself unnamed allowed held =>
      obtain ⟨noEscape, noQuote⟩ := Spelling.ne_of_unnamed unnamed
      exact .plain noEscape noQuote (if_pos (Spelling.isLiteral_of_not_isControl allowed))

namespace Rendering

variable {σ : Type} {s : Sink σ} {text : Text}

/-- A string between double quotes is read back. -/
theorem string?_observe (takes : s.TakesAll) (wellFormed : text.WellFormed) (kept : σ)
    (rest : List Char) :
    (s.observe (string (some text)) kept).result = .ok () ∧
      Reader.string? ((s.observe (string (some text)) kept).chars ++ rest) =
        some (text.characters, rest) :=
  takes.observe_text_reads_back .string wellFormed rfl rfl
    (Form.shortString.spells_charText rfl s.escapesUnicode) kept rest

/-- A string between triple quotes is read back. -/
theorem longString?_observe (takes : s.TakesAll) (wellFormed : text.WellFormed) (kept : σ)
    (rest : List Char) :
    (s.observe (longString (some text)) kept).result = .ok () ∧
      Reader.longString? ((s.observe (longString (some text)) kept).chars ++ rest) =
        some (text.characters, rest) :=
  takes.observe_text_reads_back .longString wellFormed rfl rfl
    (Form.longString.spells_charText rfl s.escapesUnicode) kept rest

/-- **Strings are read back.** A string between double quotes and a string between triple quotes are
written to the end and read back as the characters of the text, and the reader leaves exactly what
follows. So no two texts are written alike. -/
theorem strings_read_back (takes : s.TakesAll) (wellFormed : text.WellFormed) (kept : σ)
    (rest : List Char) :
    let short := s.observe (string (some text)) kept
    let long := s.observe (longString (some text)) kept
    (short.result = .ok () ∧ Reader.string? (short.chars ++ rest) = some (text.characters, rest)) ∧
      (long.result = .ok () ∧
        Reader.longString? (long.chars ++ rest) = some (text.characters, rest)) ∧
      ∀ other : Text, other.WellFormed →
        short.chars = (s.observe (string (some other)) kept).chars ∨
          long.chars = (s.observe (longString (some other)) kept).chars →
        text.codeUnits = other.codeUnits := by
  intro short long
  refine ⟨string?_observe takes wellFormed kept rest,
    longString?_observe takes wellFormed kept rest, ?_⟩
  intro other otherWellFormed alike
  rcases alike with alike | alike
  · have reads := (string?_observe takes wellFormed kept []).2
    have otherReads := (string?_observe takes otherWellFormed kept []).2
    rw [← alike] at otherReads
    exact wellFormed.codeUnits_congr_of_reads otherWellFormed reads otherReads
  · have reads := (longString?_observe takes wellFormed kept []).2
    have otherReads := (longString?_observe takes otherWellFormed kept []).2
    rw [← alike] at otherReads
    exact wellFormed.codeUnits_congr_of_reads otherWellFormed reads otherReads

/-- A quote, a backslash, NUL before a digit, a line feed and a surrogate pair. -/
theorem strings_read_back_at_units :
    let text := Text.units [0x22, 0x27, 0x5C, 0x00, 0x31, 0x0A, 0xD83D, 0xDE00]
    let short := (Sink.characters true none).observe (string (some text)) ""
    let long := (Sink.characters true none).observe (longString (some text)) ""
    Reader.string? (short.chars ++ ['x']) =
        some (['"', '\'', '\\', '\x00', '1', '\n', .ofNat 0x1F600], ['x']) ∧
      Reader.longString? (long.chars ++ ['x']) =
        some (['"', '\'', '\\', '\x00', '1', '\n', .ofNat 0x1F600], ['x']) := by
  have wellFormed : Text.WellFormed (.units [0x22, 0x27, 0x5C, 0x00, 0x31, 0x0A, 0xD83D, 0xDE00]) :=
    .unit rfl (.unit rfl (.unit rfl (.unit rfl (.unit rfl (.unit rfl (.pair rfl rfl .nil))))))
  have back := strings_read_back (Sink.takesAll_characters true) wellFormed "" ['x']
  exact ⟨back.1.2, back.2.1.2⟩

end Rendering

end IonLiteral
