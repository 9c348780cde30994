import IonLiteral.Proofs.Safety
import IonLiteral.Proofs.Reading
import Mathlib.Data.Nat.Digits.Defs

/-! # Numerals in escapes

An escape by number ends in a numeral of a fixed width, which shows the number modulo the power of
sixteen that belongs to the width. Whoever writes an escape chooses a width with room for the
number, so nothing is cut off and the numeral is read as the number. The tables hold the same
numerals, with zeros in front of the digits that a number needs.
-/

namespace IonLiteral

/-! ## Digits -/

namespace Hex

/-- **A numeral shows a number modulo a power of sixteen.** Its digits, the most significant first,
are those of that remainder. -/
theorem exists_digits (width value : Nat) :
    ∃ digits : List Nat, digits.length = width ∧ (∀ digit ∈ digits, digit < 16) ∧
      Nat.ofDigits 16 digits.reverse = value % 16 ^ width ∧
      fixed width value = digits.map Nat.digitChar := by
  induction width generalizing value with
  | zero => exact ⟨[], rfl, by simp, by simp [Nat.mod_one], rfl⟩
  | succ width ih =>
      obtain ⟨digits, length, small, number, written⟩ := ih (value / 16)
      refine ⟨digits ++ [value % 16], by simp [length], ?_, ?_, ?_⟩
      · intro digit member
        rcases List.mem_append.mp member with earlier | last
        · exact small digit earlier
        · cases List.mem_singleton.mp last
          exact Nat.mod_lt value (by decide)
      · rw [List.reverse_append, List.reverse_singleton, List.singleton_append, Nat.ofDigits_cons,
          number, pow_succ', Nat.mod_mul]
      · rw [fixed, written, List.map_append, List.map_singleton]

theorem fixed_zero (width : Nat) : fixed width 0 = List.replicate width '0' := by
  induction width with
  | zero => rfl
  | succ width ih =>
      rw [fixed, Nat.zero_div, ih, List.replicate_succ']
      rfl

/-- **A numeral with room for its number** is the number as it is usually written, filled up with
zeros. -/
theorem fixed_eq_leftpad {width value : Nat} (some : 0 < width) (fits : value < 16 ^ width) :
    fixed width value = (Nat.toDigits 16 value).leftpad width '0' := by
  induction width generalizing value with
  | zero => cases some
  | succ width ih =>
      by_cases digit : value < 16
      · rw [fixed, Nat.div_eq_of_lt digit, Nat.mod_eq_of_lt digit, fixed_zero,
          Nat.toDigits_of_lt_base digit]
        rfl
      · have least : 16 ≤ value := Nat.le_of_not_lt digit
        have further : 0 < width := by
          refine Nat.pos_of_ne_zero fun none => digit ?_
          simpa [none] using fits
        have behind : value / 16 < 16 ^ width := by
          rw [Nat.div_lt_iff_lt_mul (by decide), ← pow_succ]
          exact fits
        rw [fixed, ih further behind, Nat.toDigits_of_base_le (by decide) least]
        simp [List.leftpad]

end Hex

/-! ## Escapes with room -/

/-- An escape by number has the width for the number: two digits up to `0xFF`, four up to `0xFFFF`,
and eight from `0x10000` to the last character. -/
inductive Escape.Holds : Escape → Nat → Prop
  | x {value : Nat} (fits : value ≤ 0xFF) : Holds (.x value) value
  | u {value : Nat} (fits : value ≤ 0xFFFF) : Holds (.u value) value
  | wide {value : Nat} (beyond : 0x10000 ≤ value) (fits : value ≤ 0x10FFFF) :
      Holds (.wide value) value

/-- **Nothing is cut off.** The digits of an escape with room for its number are read as the number,
whatever follows them. -/
theorem Escape.Holds.reads {escape : Escape} {value : Nat} (holds : escape.Holds value) :
    ∃ marker width digits, escape = .numeric marker width value ∧ value < 16 ^ width ∧
      escape.text = '\\' :: marker :: digits ∧ digits.length = width ∧
      ∀ rest, Hex.read? width (digits ++ rest) = some (value, rest) := by
  have numeral (marker : Char) {width : Nat} (fits : value < 16 ^ width) :
      ∃ m w digits, numeric marker width value = .numeric m w value ∧ value < 16 ^ w ∧
        (numeric marker width value).text = '\\' :: m :: digits ∧ digits.length = w ∧
        ∀ rest, Hex.read? w (digits ++ rest) = some (value, rest) :=
    ⟨marker, width, Hex.fixed width value, rfl, fits, rfl, Hex.length_fixed width value,
      Hex.read?_fixed fits⟩
  cases holds with
  | x fits => exact numeral 'x' (Nat.lt_succ_of_le fits)
  | u fits => exact numeral 'u' (Nat.lt_succ_of_le fits)
  | wide beyond fits => exact numeral 'U' (Nat.lt_of_le_of_lt fits (by decide))

/-- A spelling keeps numbers: it is as what is spelled, or a letter, or escapes with room for the
numbers one by one. -/
inductive Spelling.Keeps (numbers : List Nat) : Spelling → Prop
  | itself : Keeps numbers .itself
  | named (letter : Char) : Keeps numbers (.escaped [.named letter])
  | held {escapes : List Escape} (each : List.Forall₂ Escape.Holds escapes numbers) :
      Keeps numbers (.escaped escapes)

/-! ## Tables -/

namespace Form

/-- The marker of escapes by number below `0x100`. -/
def latinMarker (form : Form) : Char := if form.isJson then 'u' else 'x'

/-- The width of escapes by number below `0x100`. -/
def latinWidth (form : Form) : Nat := if form.isJson then 4 else 2

/-- The escape by number of a number below `0x100`. -/
def latinEscape (form : Form) (value : Nat) : Escape :=
  .numeric form.latinMarker form.latinWidth value

/-- Below `0x100` there is one escape by number. -/
theorem byNumber_eq_latinEscape (form : Form) {c : Char} (latin : c.val < 0x100) :
    Spelling.byNumber form c = [form.latinEscape c.toNat] := by
  rw [Spelling.byNumber, if_pos latin, latinEscape, latinMarker, latinWidth]
  cases form.isJson <;> rfl

theorem latin_fits (form : Form) (value : UInt8) : value.toNat < 16 ^ form.latinWidth := by
  have bound : value.toNat < 16 ^ 2 := value.toNat_lt
  rw [latinWidth]
  split
  · exact Nat.lt_trans bound (by decide)
  · exact bound

/-- The escape of a byte by its number has room for it. -/
theorem holds_latinEscape (form : Form) (value : UInt8) :
    (form.latinEscape value.toNat).Holds value.toNat := by
  have bound := Nat.le_of_lt_succ value.toNat_lt
  rw [latinEscape, latinMarker, latinWidth]
  cases form.isJson with
  | true => exact .u (Nat.le_trans bound (by decide))
  | false => exact .x bound

/-- The two kinds of entries. -/
theorem escape?_cases {form : Form} {value : UInt8} {escape : Escape}
    (entry : form.escape? value = some escape) :
    (∃ letter, (letter, Char.ofUInt8 value) ∈ Spelling.letters ∧ escape = .named letter) ∨
      escape = form.latinEscape value.toNat := by
  rw [Spelling.escape?_eq_tabled, Spelling.tabled] at entry
  split at entry
  · rename_i letter named
    cases entry
    exact .inl ⟨letter, Spelling.mem_letters named, rfl⟩
  · rw [form.byNumber_eq_latinEscape (CodePoint.ofUInt8_latin value)] at entry
    split at entry
    · cases entry
      exact .inr rfl
    · cases entry

/-- Control characters and all from DEL on have an entry, but for the line feed of long strings. -/
theorem escape?_ne_none {form : Form} {value : UInt8} (unprintable : value < 0x20 ∨ 0x7F ≤ value)
    (noLineFeed : ¬ (form = .longString ∧ value = 0x0A)) : form.escape? value ≠ none := by
  intro nothing
  have number : (Char.ofUInt8 value).val.toNat = value.toNat := UInt8.toNat_toUInt32 value
  rw [Spelling.escape?_eq_tabled, Spelling.tabled] at nothing
  split at nothing
  · cases nothing
  · rw [form.byNumber_eq_latinEscape (CodePoint.ofUInt8_latin value)] at nothing
    split at nothing
    · cases nothing
    · rename_i allowed
      simp only [Bool.or_eq_true, decide_eq_true_eq, not_or] at allowed
      obtain ⟨noControl, small⟩ := allowed
      refine noControl (Spelling.isControl_of_control ?_ ?_)
      · rw [UInt32.le_iff_toNat_le, number] at small
        rw [UInt8.lt_iff_toNat_lt, UInt8.le_iff_toNat_le] at unprintable
        rw [UInt32.lt_iff_toNat_lt, ← UInt32.toNat_inj, number]
        simp only [UInt8.toNat_ofNat, UInt32.toNat_ofNat] at small unprintable ⊢
        omega
      · rintro ⟨long, lineFeed⟩
        refine noLineFeed ⟨long, ?_⟩
        rw [← CodePoint.toUInt8_ofUInt8 value, lineFeed]
        rfl

/-- **Entries are what is written for a number.** The text of an entry by number is the number as it
is usually written, filled up with zeros, and that is what the writing of numerals makes of it. -/
theorem hexEscape_latin (form : Form) (value : UInt8) :
    Checked.hexEscape form.latinMarker.toUInt8 value.toUInt32 form.latinWidth =
        .ok (form.latinEscape value.toNat).text ∧
      (form.latinEscape value.toNat).text = '\\' :: form.latinMarker ::
        (Nat.toDigits 16 value.toNat).leftpad form.latinWidth '0' := by
  have some : 0 < form.latinWidth := by rw [latinWidth]; split <;> decide
  have room : form.latinWidth ≤ 8 := by rw [latinWidth]; split <;> decide
  have ascii : form.latinMarker.val < 0x80 := by rw [latinMarker]; split <;> decide
  refine ⟨?_, ?_⟩
  · rw [Checked.hexEscape_eq ascii value.toUInt32 room, UInt8.toNat_toUInt32]
    rfl
  · rw [latinEscape, Escape.text, Hex.fixed_eq_leftpad some (form.latin_fits value)]

end Form

/-! ## Writers -/

namespace Special

/-- What can be met in a text: a unit, or a surrogate pair that is one. -/
def IsWhole : Special → Prop
  | unit _ => True
  | pair lead trail => lead.isHighSurrogate = true ∧ trail.isLowSurrogate = true

/-- The numbers that stand for a character: its own, or in JSON those of its halves if any. -/
def numbers (form : Form) : Special → List Nat
  | unit u => [u.toNat]
  | pair lead trail =>
    if form.isJson then [lead.toNat, trail.toNat] else [(Surrogate.combine lead trail).toNat]

/-- Characters are units or surrogate pairs. -/
theorem isWhole_ofChar (c : Char) : (ofChar c).IsWhole := by
  rw [ofChar]
  split
  · trivial
  · rename_i large
    obtain ⟨high, low, -⟩ := CodePoint.split_isPair large
    exact ⟨high, low⟩

/-- The numbers that stand for a character, by the character. -/
theorem numbers_ofChar (form : Form) (c : Char) :
    (ofChar c).numbers form =
      if form.isJson ∧ 0x10000 ≤ c.val then
        [(Surrogate.split c.val).1.toNat, (Surrogate.split c.val).2.toNat]
      else [c.toNat] := by
  by_cases small : c.val < 0x10000
  · have notLarge : ¬ (0x10000 : CodePoint) ≤ c.val := UInt32.not_le.mpr small
    rw [ofChar, if_pos small, if_neg fun both => notLarge both.2, numbers,
      CodePoint.toNat_toUInt16 small]
    rfl
  · obtain ⟨_, _, value⟩ := CodePoint.split_isPair small
    have large : (0x10000 : CodePoint) ≤ c.val := UInt32.not_lt.mp small
    rw [ofChar, if_neg small, numbers, value]
    simp only [large, and_true]
    rfl

/-- **No spelling cuts a number off**, whatever is spelled. -/
theorem keeps_spelling (form : Form) (escapesUnicode : Bool) {special : Special}
    (whole : special.IsWhole) :
    (special.spelling form escapesUnicode).Keeps (special.numbers form) := by
  cases special with
  | unit u =>
      rw [spelling, numbers]
      split
      · rename_i latin
        have byte : u.toUInt8.toNat = u.toNat := by
          have bound : u.toNat < 0x100 := UInt16.lt_iff_toNat_lt.mp latin
          rw [UInt16.toNat_toUInt8]
          omega
        split
        · rename_i escape entry
          split
          · rcases Form.escape?_cases entry with ⟨letter, _, rfl⟩ | rfl
            · exact .named letter
            · have holds := form.holds_latinEscape u.toUInt8
              rw [byte] at holds ⊢
              exact .held (.cons holds .nil)
          · exact .itself
        · exact .itself
      · split
        · exact .held (.cons (.u (Nat.le_of_lt_succ u.toNat_lt)) .nil)
        · exact .itself
  | pair lead trail =>
      obtain ⟨high, low⟩ := whole
      rw [spelling, numbers]
      cases escapesUnicode with
      | false => exact .itself
      | true =>
          by_cases json : form.isJson = true
          · simp only [if_true, if_pos json]
            exact .held (.cons (.u (Nat.le_of_lt_succ lead.toNat_lt))
              (.cons (.u (Nat.le_of_lt_succ trail.toNat_lt)) .nil))
          · simp only [if_true, if_neg json]
            have value := Surrogate.toNat_combine high low
            have leadBounds := CodeUnit.isHighSurrogate_iff.mp high
            have trailBounds := CodeUnit.isLowSurrogate_iff.mp low
            exact .held (.cons (.wide (by omega) (by omega)) .nil)

/-- A scan of characters finds no other pairs than surrogate pairs. -/
theorem isWhole_of_mem_scanChars {form : Form} {cs : List Char} {special : Special}
    (member : .special special ∈ scanChars form cs) : special.IsWhole := by
  rw [scanChars_eq_scan] at member
  obtain ⟨c, _, found⟩ := Piece.special_mem_scan member
  obtain ⟨_, rfl⟩ := Form.special?_eq_some_iff.mp found
  exact isWhole_ofChar c

/-- A scan of units finds no other pairs than surrogate pairs. -/
theorem isWhole_of_mem_scanUnits {form : Form} {us : List CodeUnit} {special : Special}
    (member : .special special ∈ (scanUnits form us).pieces) : special.IsWhole := by
  rw [scanUnits, scanUnitsFrom_eq] at member
  exact isWhole_of_mem_scanChars member

end Special

/-- A character by itself is spelled without cutting off its numbers. -/
theorem Spelling.keeps_ofChar (form : Form) (escapesUnicode : Bool) (c : Char) :
    (ofChar form escapesUnicode c).Keeps
      (if form.isJson ∧ 0x10000 ≤ c.val then
        [(Surrogate.split c.val).1.toNat, (Surrogate.split c.val).2.toNat]
      else [c.toNat]) := by
  rw [← Special.spelling_ofChar, ← Special.numbers_ofChar]
  exact Special.keeps_spelling form escapesUnicode (Special.isWhole_ofChar c)

namespace Sink

variable {σ : Type}

/-- Put something as it is spelled. -/
def putSpelling (s : Sink σ) (verbatim : SinkM σ Unit) : Spelling → SinkM σ Unit
  | .itself => verbatim
  | .escaped escapes => s.putEscapes escapes

/-- What is no plain character is put as it is spelled. -/
theorem putSpecial_eq_putSpelling (s : Sink σ) (form : Form) (special : Special) :
    s.putSpecial form special =
      s.putSpelling (s.putVerbatim special) (special.spelling form s.escapesUnicode) := by
  rw [putSpecial]
  cases special.spelling form s.escapesUnicode <;> rfl

/-- A character given by its number is put as it is spelled. -/
theorem writeCodePoint_eq_putSpelling (s : Sink σ) (form : Form) (c : Char) :
    s.writeCodePoint form c.val =
      s.putSpelling (s.putItself c) (Spelling.ofChar form s.escapesUnicode c) := by
  rw [writeCodePoint, CodePoint.toChar?_val]
  change s.writeChar form c = _
  rw [writeChar]
  cases Spelling.ofChar form s.escapesUnicode c <;> rfl

end Sink

/-! ## Renderings -/

/-- **Numerals are whole.** An escape by number, of any number and any width up to eight, is put in
one piece: a backslash, the marker and as many digits as the width says, which are the digits of the
number modulo the power of sixteen. The writers choose widths with room for the number. Whatever
unit or pair ends a run is written as it is, by a letter, or by escapes with room for its numbers,
and so is every character that is written by itself. A scan finds no other pairs than surrogate
pairs, and a number without a character is refused. Two digits are for numbers up to `0xFF`, four
for numbers up to `0xFFFF` and eight for characters from `0x10000` up, so the digits are always read
as the number they were written for. An entry of an escape table, for a control character or
anything from DEL on, is a letter or what is written for the number, which is the number filled up
with zeros. Only the line feed of long strings has none. -/
theorem numerals_are_whole {σ : Type} (s : Sink σ) :
    (∀ (marker : Char) (value : CodePoint) (width : Nat), marker.val < 0x80 → width ≤ 8 →
      ∃ digits : List Nat, digits.length = width ∧ (∀ digit ∈ digits, digit < 16) ∧
        Nat.ofDigits 16 digits.reverse = value.toNat % 16 ^ width ∧
        s.putEscape (.numeric marker width value.toNat) =
          s.putAscii ('\\' :: marker :: digits.map Nat.digitChar) ∧
        Checked.putNumber s marker value width =
          liftM (s.putAscii ('\\' :: marker :: digits.map Nat.digitChar))) ∧
      (∀ (form : Form) (special : Special), special.IsWhole →
        (special.spelling form s.escapesUnicode).Keeps (special.numbers form) ∧
          s.putSpecial form special =
            s.putSpelling (s.putVerbatim special) (special.spelling form s.escapesUnicode)) ∧
      (∀ (form : Form) (special : Special),
        ((∃ us, .special special ∈ (scanUnits form us).pieces) ∨
          ∃ cs, .special special ∈ scanChars form cs) → special.IsWhole) ∧
      (∀ (form : Form) (c : Char),
        (Spelling.ofChar form s.escapesUnicode c).Keeps
            (if form.isJson ∧ 0x10000 ≤ c.val then
              [(Surrogate.split c.val).1.toNat, (Surrogate.split c.val).2.toNat]
            else [c.toNat]) ∧
          s.writeCodePoint form c.val =
            s.putSpelling (s.putItself c) (Spelling.ofChar form s.escapesUnicode c)) ∧
      (∀ (form : Form) (cp : CodePoint), ¬ cp.isValidChar →
        s.writeCodePoint form cp = throw (.notScalar cp)) ∧
      (∀ (escape : Escape) (value : Nat), escape.Holds value →
        ∃ marker width digits, escape = .numeric marker width value ∧ value < 16 ^ width ∧
          escape.text = '\\' :: marker :: digits ∧ digits.length = width ∧
          ∀ rest, Hex.read? width (digits ++ rest) = some (value, rest)) ∧
      ∀ (form : Form) (value : UInt8), value < 0x20 ∨ 0x7F ≤ value →
        (form = .longString ∧ value = 0x0A ∧ form.escape? value = none) ∨
          (∃ letter, (letter, Char.ofUInt8 value) ∈ Spelling.letters ∧
            form.escape? value = some (.named letter)) ∨
          ∃ escape, form.escape? value = some escape ∧ escape.Holds value.toNat ∧
            Checked.hexEscape form.latinMarker.toUInt8 value.toUInt32 form.latinWidth =
              .ok escape.text ∧
            escape.text = '\\' :: form.latinMarker ::
              (Nat.toDigits 16 value.toNat).leftpad form.latinWidth '0' := by
  refine ⟨?_, ?_, ?_, ?_, ?_, ?_, ?_⟩
  · intro marker value width ascii room
    obtain ⟨digits, length, small, number, written⟩ := Hex.exists_digits width value.toNat
    have put : s.putEscape (.numeric marker width value.toNat) =
        s.putAscii ('\\' :: marker :: digits.map Nat.digitChar) := by
      rw [Sink.putEscape, Escape.text, written]
    refine ⟨digits, length, small, number, put, ?_⟩
    rw [Checked.putNumber_eq s ascii value room, s.putEscapes_singleton, put]
  · intro form special whole
    exact ⟨special.keeps_spelling form s.escapesUnicode whole,
      s.putSpecial_eq_putSpelling form special⟩
  · rintro form special (⟨us, found⟩ | ⟨cs, found⟩)
    · exact Special.isWhole_of_mem_scanUnits found
    · exact Special.isWhole_of_mem_scanChars found
  · intro form c
    exact ⟨Spelling.keeps_ofChar form s.escapesUnicode c, s.writeCodePoint_eq_putSpelling form c⟩
  · intro form cp invalid
    rw [Sink.writeCodePoint, CodePoint.toChar?_eq_none_iff.mpr invalid]
  · intro escape value holds
    exact holds.reads
  · intro form value unprintable
    -- All entries are there but for the line feed of long strings.
    by_cases lineFeed : form = .longString ∧ value = 0x0A
    · obtain ⟨rfl, rfl⟩ := lineFeed
      exact .inl ⟨rfl, rfl, rfl⟩
    · obtain ⟨escape, entry⟩ := Option.ne_none_iff_exists'.mp
        (Form.escape?_ne_none unprintable lineFeed)
      rcases Form.escape?_cases entry with ⟨letter, known, rfl⟩ | rfl
      · exact .inr (.inl ⟨letter, known, entry⟩)
      · obtain ⟨written, text⟩ := form.hexEscape_latin value
        exact .inr (.inr ⟨_, entry, form.holds_latinEscape value, written, text⟩)

/-- A number that four digits have no room for, the halves that JSON escapes instead, the last
character, a number without a character, and an entry that is filled up. -/
theorem numerals_are_whole_at_widths :
    let s := Sink.characters true none
    Checked.putNumber s 'u' 0x1F600 4 = liftM (s.putAscii "\\uf600".toList) ∧
      Spelling.Keeps [0xD83D, 0xDE00] (.escaped [.u 0xD83D, .u 0xDE00]) ∧
      Hex.read? 8 "0010ffff0".toList = some (0x10FFFF, ['0']) ∧
      s.writeCodePoint .json 0xD800 = throw (.notScalar 0xD800) ∧
      Checked.hexEscape 0x75 0x7F 4 = .ok "\\u007f".toList := by
  intro s
  obtain ⟨put, specials, _, _, invalid, reads, entries⟩ := numerals_are_whole s
  refine ⟨?_, (specials .json (.pair 0xD83D 0xDE00) ⟨rfl, rfl⟩).1, ?_,
    invalid .json 0xD800 (by decide), ?_⟩
  · obtain ⟨digits, length, small, number, written, checked⟩ :=
      put 'u' 0x1F600 4 (by decide) (by decide)
    exact checked.trans (congrArg liftM written.symm)
  · obtain ⟨marker, width, digits, same, _, text, _, read⟩ :=
      reads (.wide 0x10FFFF) 0x10FFFF (.wide (by decide) (by decide))
    cases same
    cases text
    exact read ['0']
  · rcases entries .json 0x7F (.inr (by decide)) with ⟨form, _⟩ | ⟨letter, _, named⟩ |
      ⟨escape, entry, _, written, _⟩
    · cases form
    · cases named
    · cases entry
      exact written

end IonLiteral
