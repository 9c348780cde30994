import IonLiteral.Proofs.Decoding
import IonLiteral.Proofs.Observation

/-! # The spelling of a character

The escape tables and the rule for single characters spell every character alike, in every form and
for every sink. So both ways of writing ask a sink for the same operations at a character that is
not plain, and at a plain one the rule for single characters asks for the character itself.
-/

namespace IonLiteral

/-- What holds of all numbers below `0x100` holds of all bytes. -/
theorem forall_bytes {P : UInt8 → Prop} (each : ∀ n < 0x100, P (UInt8.ofNat n)) (value : UInt8) :
    P value := by
  have found := each value.toNat value.toNat_lt
  rwa [UInt8.ofNat_toNat] at found

/-- Numerals are made of digits. -/
theorem Hex.exists_digit_of_mem_fixed {width value : Nat} {c : Char}
    (member : c ∈ Hex.fixed width value) : ∃ n < 16, c = Nat.digitChar n := by
  induction width generalizing value with
  | zero => cases member
  | succ width ih =>
      rcases List.mem_append.mp member with earlier | last
      · exact ih earlier
      · exact ⟨value % 16, Nat.mod_lt _ (by decide), List.mem_singleton.mp last⟩

namespace Spelling

/-- The letters that name characters, each with the character. -/
def letters : List (Char × Char) :=
  [('0', '\x00'), ('a', '\x07'), ('b', '\x08'), ('t', '\t'), ('n', '\n'), ('v', '\x0B'),
    ('f', '\x0C'), ('r', '\r'), ('\\', '\\'), ('"', '"'), ('\'', '\'')]

/-- No letter names a character beyond ASCII. -/
theorem letter?_eq_none {form : Form} {c : Char} (large : 0x80 ≤ c.val) :
    letter? form c = none := by
  have ne (d : Char) (ascii : d.val < 0x80) : c ≠ d := by
    rintro rfl
    exact UInt32.not_le.mpr ascii large
  unfold letter?
  rw [if_neg (ne _ (by decide)), if_neg (ne _ (by decide)), if_neg (ne _ (by decide)),
    if_neg (ne _ (by decide)), if_neg (ne _ (by decide)), if_neg (ne _ (by decide)),
    if_neg (ne _ (by decide)), if_neg (ne _ (by decide)), if_neg (ne _ (by decide)),
    if_neg (ne _ (by decide)), if_neg (ne _ (by decide))]

/-- Characters with a name are ASCII. -/
theorem ascii_of_letter? {form : Form} {c letter : Char} (named : letter? form c = some letter) :
    c.val < 0x80 := by
  refine UInt32.not_le.mp fun large => ?_
  rw [letter?_eq_none large] at named
  cases named

/-- Whatever form names a character, the name is the same. -/
theorem mem_letters {form : Form} {c letter : Char} (named : letter? form c = some letter) :
    (letter, c) ∈ letters := by
  have each : ∀ n < 0x80, ((letter? form (Char.ofNat n)).all fun letter =>
      decide ((letter, Char.ofNat n) ∈ letters)) = true := by
    cases form <;> decide +kernel
  have found := forall_ascii
    (P := fun c => ((letter? form c).all fun letter => decide ((letter, c) ∈ letters)) = true) each
    (ascii_of_letter? named)
  rw [named] at found
  exact of_decide_eq_true found

/-- Control characters are ASCII. -/
theorem ascii_of_isControl {form : Form} {c : Char} (control : isControl form c = true) :
    c.val < 0x80 := by
  unfold isControl at control
  simp only [Bool.and_eq_true, Bool.or_eq_true, decide_eq_true_eq, beq_iff_eq] at control
  rcases control.1 with low | delete
  · exact UInt32.lt_trans low (by decide)
  · rw [delete]
    decide

/-- The three ways to spell a character, each with what makes it the right one. -/
inductive Rule (form : Form) (escapesUnicode : Bool) (c : Char) : Spelling → Prop
  | named {letter : Char} (found : letter? form c = some letter) :
      Rule form escapesUnicode c (.escaped [.named letter])
  | number (unnamed : letter? form c = none)
      (needed : isControl form c = true ∨ (escapesUnicode = true ∧ 0x80 ≤ c.val)) :
      Rule form escapesUnicode c (.escaped (byNumber form c))
  | itself (unnamed : letter? form c = none) (allowed : isControl form c = false)
      (held : escapesUnicode = true → c.val < 0x80) : Rule form escapesUnicode c .itself

/-- **Characters are spelled by the rule.** -/
theorem rule_ofChar (form : Form) (escapesUnicode : Bool) (c : Char) :
    Rule form escapesUnicode c (ofChar form escapesUnicode c) := by
  unfold ofChar
  cases found : letter? form c with
  | some letter => exact .named found
  | none =>
      by_cases needed : (isControl form c || (escapesUnicode && 0x80 ≤ c.val)) = true
      · simp only [needed, ↓reduceIte]
        simp only [Bool.or_eq_true, Bool.and_eq_true, decide_eq_true_eq] at needed
        exact .number found needed
      · simp only [needed, Bool.false_eq_true, ↓reduceIte]
        simp only [Bool.or_eq_true, Bool.and_eq_true, decide_eq_true_eq, not_or, not_and] at needed
        exact .itself found (Bool.eq_false_iff.mpr needed.1) fun escapes =>
          UInt32.not_le.mp (needed.2 escapes)

/-- Escapes by number have one of three markers. -/
theorem eq_numeric_of_mem_byNumber {form : Form} {c : Char} {escape : Escape}
    (member : escape ∈ byNumber form c) :
    ∃ marker ∈ ['x', 'u', 'U'], ∃ width value, escape = .numeric marker width value := by
  unfold byNumber at member
  split at member
  · split at member
    · cases List.mem_singleton.mp member
      exact ⟨'u', by decide, 4, c.toNat, rfl⟩
    · cases List.mem_singleton.mp member
      exact ⟨'x', by decide, 2, c.toNat, rfl⟩
  · split at member
    · cases List.mem_singleton.mp member
      exact ⟨'u', by decide, 4, c.toNat, rfl⟩
    · split at member
      · rcases List.mem_cons.mp member with rfl | member
        · exact ⟨'u', by decide, 4, _, rfl⟩
        · cases List.mem_singleton.mp member
          exact ⟨'u', by decide, 4, _, rfl⟩
      · cases List.mem_singleton.mp member
        exact ⟨'U', by decide, 8, c.toNat, rfl⟩

/-- Only the halves of a pair are escaped one by one. -/
theorem exists_byNumber_eq_singleton {form : Form} {c : Char}
    (noHalves : ¬ (form.isJson = true ∧ 0x10000 ≤ c.val)) :
    ∃ escape, byNumber form c = [escape] := by
  unfold byNumber
  split
  · split <;> exact ⟨_, rfl⟩
  · split
    · exact ⟨_, rfl⟩
    · rename_i beyond
      rw [if_neg fun json => noHalves ⟨json, UInt32.not_lt.mp beyond⟩]
      exact ⟨_, rfl⟩

/-- The entry that the escape table of a form holds for a character, by the rule for single
characters. -/
def tabled (form : Form) (c : Char) : Option Escape :=
  match letter? form c with
  | some letter => some (.named letter)
  | none => if isControl form c || 0x80 ≤ c.val then (byNumber form c).head? else none

/-- **The tables follow the rule.** -/
theorem escape?_eq_tabled (form : Form) (value : UInt8) :
    form.escape? value = tabled form (Char.ofUInt8 value) := by
  refine forall_bytes (P := fun value => form.escape? value = tabled form (Char.ofUInt8 value)) ?_
    value
  -- Both sides are closed for a form and a byte, so the entries are compared one by one.
  cases form <;> decide +kernel

/-- The escape tables hold what the rule says. -/
theorem tabled_of_latin {form : Form} {c : Char} (latin : c.val < 0x100) :
    form.escape? c.val.toUInt8 = tabled form c := by
  rw [escape?_eq_tabled, CodePoint.ofUInt8_toUInt8 latin]

/-- Below `0x100` a character has one escape by number. -/
theorem byNumber_of_latin (form : Form) {c : Char} (latin : c.val < 0x100) :
    ∃ escape, byNumber form c = [escape] := by
  apply exists_byNumber_eq_singleton
  rintro ⟨_, large⟩
  exact UInt32.not_lt.mpr large (UInt32.lt_trans latin (by decide))

/-- Below `0x100` a character is spelled by its entry, which above ASCII is only for the sinks that
escape. -/
theorem ofChar_of_latin {form : Form} {c : Char} (latin : c.val < 0x100) (escapesUnicode : Bool) :
    ofChar form escapesUnicode c =
      match tabled form c with
      | some escape => if c.val < 0x80 || escapesUnicode then .escaped [escape] else .itself
      | none => .itself := by
  unfold ofChar tabled
  cases named : letter? form c with
  | some letter => simp only [ascii_of_letter? named, decide_true, Bool.true_or, ↓reduceIte]
  | none =>
      obtain ⟨escape, number⟩ := byNumber_of_latin form latin
      by_cases control : isControl form c = true
      · have ascii := ascii_of_isControl control
        simp only [control, number, ascii, Bool.true_or, ↓reduceIte, List.head?_cons, decide_true]
      · by_cases ascii : c.val < 0x80
        · have small : ¬ 0x80 ≤ c.val := UInt32.not_le.mpr ascii
          simp only [control, small, decide_false, Bool.and_false, Bool.or_false,
            Bool.false_eq_true, ↓reduceIte]
        · have large : 0x80 ≤ c.val := UInt32.not_lt.mp ascii
          cases escapesUnicode <;>
            simp only [control, large, ascii, number, decide_true, decide_false, Bool.and_true,
              Bool.or_true, Bool.or_false, Bool.false_eq_true, ↓reduceIte,
              List.head?_cons]

/-- Beyond ASCII a character is spelled by its number, or as it is where it can be held. -/
theorem ofChar_of_large {form : Form} {c : Char} (large : ¬ c.val < 0x80) (escapesUnicode : Bool) :
    ofChar form escapesUnicode c =
      if escapesUnicode then .escaped (byNumber form c) else .itself := by
  have above : 0x80 ≤ c.val := UInt32.not_lt.mp large
  have uncontrolled : isControl form c = false := Bool.eq_false_iff.mpr fun control =>
    large (ascii_of_isControl control)
  unfold ofChar
  rw [letter?_eq_none above]
  simp only [uncontrolled, above, decide_true, Bool.and_true, Bool.false_or]

/-- From `0x100` up a character is escaped exactly for the sinks that escape. -/
theorem ofChar_of_not_latin {form : Form} {c : Char} (beyond : ¬ c.val < 0x100)
    (escapesUnicode : Bool) :
    ofChar form escapesUnicode c =
      if escapesUnicode then .escaped (byNumber form c) else .itself :=
  ofChar_of_large (fun ascii => beyond (UInt32.lt_trans ascii (by decide))) escapesUnicode

end Spelling

/-- **Tables and rule agree.** What the tables make of a character is what the rule makes of it. -/
theorem Special.spelling_ofChar (form : Form) (escapesUnicode : Bool) (c : Char) :
    (ofChar c).spelling form escapesUnicode = Spelling.ofChar form escapesUnicode c := by
  by_cases small : c.val < 0x10000
  · have latinUnit : c.val.toUInt16 < 0x100 ↔ c.val < 0x100 :=
      CodePoint.toUInt16_lt_iff small (by decide)
    have asciiUnit : c.val.toUInt16 < 0x80 ↔ c.val < 0x80 :=
      CodePoint.toUInt16_lt_iff small (by decide)
    have sameByte : c.val.toUInt16.toUInt8 = c.val.toUInt8 := UInt32.toUInt8_toUInt16 c.val
    unfold ofChar
    rw [if_pos small]
    unfold spelling
    simp only [latinUnit, asciiUnit, sameByte, CodePoint.toNat_toUInt16 small]
    by_cases latin : c.val < 0x100
    · rw [Spelling.ofChar_of_latin latin, Spelling.tabled_of_latin latin]
      cases Spelling.tabled form c <;> exact if_pos latin
    · rw [if_neg latin, Spelling.ofChar_of_not_latin latin]
      unfold Spelling.byNumber
      rw [if_neg latin, if_pos small]
      rfl
  · have beyond : ¬ c.val < 0x100 := fun latin => small (UInt32.lt_trans latin (by decide))
    obtain ⟨_, _, value⟩ := CodePoint.split_isPair small
    unfold ofChar
    rw [if_neg small, Spelling.ofChar_of_not_latin beyond]
    unfold spelling Spelling.byNumber
    simp only [if_neg beyond, if_neg small, value]
    cases escapesUnicode
    · rfl
    · cases form.isJson <;> rfl

/-! ## The operations for a character -/

/-- The operation that puts a character as it is. -/
def Call.ofChar (c : Char) : Call :=
  if c.val < 0x80 then .ascii [c]
  else if c.val < 0x10000 then .char c
  else .pair (Surrogate.split c.val).1 (Surrogate.split c.val).2

namespace Form

/-- The operations for a character in a form. -/
def charCalls (form : Form) (escapesUnicode : Bool) (c : Char) : List Call :=
  match Spelling.ofChar form escapesUnicode c with
  | .escaped escapes => escapes.map fun escape => .ascii escape.text
  | .itself => [.ofChar c]

/-- The text for a character in a form. -/
def charText (form : Form) (escapesUnicode : Bool) (c : Char) : List Char :=
  match Spelling.ofChar form escapesUnicode c with
  | .escaped escapes => escapes.flatMap Escape.text
  | .itself => [c]

end Form

/-- The operation that puts a character that is not plain as it is, if it is a character. -/
def Special.verbatim : Special → List Call
  | unit u => (CodePoint.toChar? u.toUInt32).toList.map .char
  | pair lead trail => [.pair lead trail]

/-- A character beyond ASCII is put as it is in one operation. -/
theorem Special.verbatim_ofChar {c : Char} (large : ¬ c.val < 0x80) :
    (ofChar c).verbatim = [Call.ofChar c] := by
  unfold ofChar Call.ofChar
  rw [if_neg large]
  split
  · rename_i small
    simp only [verbatim, CodePoint.toUInt32_toUInt16 small, CodePoint.toChar?_val,
      Option.toList_some, List.map_cons, List.map_nil]
  · rfl

theorem Call.chars_ofChar (c : Char) : (Call.ofChar c).chars = [c] := by
  unfold ofChar
  split
  · rfl
  · split
    · rfl
    · rename_i large
      change (Surrogate.combine _ _).toChar?.toList = [c]
      rw [(CodePoint.split_isPair large).2.2, CodePoint.toChar?_val]
      rfl

/-- The operations for a character add its text. -/
theorem Form.flatMap_chars_charCalls (form : Form) (escapesUnicode : Bool) (c : Char) :
    (form.charCalls escapesUnicode c).flatMap Call.chars = form.charText escapesUnicode c := by
  unfold charCalls charText
  cases Spelling.ofChar form escapesUnicode c with
  | escaped escapes => exact List.flatMap_map ..
  | itself =>
      simp only [List.flatMap_cons, List.flatMap_nil, List.append_nil]
      exact Call.chars_ofChar c

theorem Form.flatMap_chars_flatMap_charCalls (form : Form) (escapesUnicode : Bool)
    (cs : List Char) :
    (cs.flatMap (form.charCalls escapesUnicode)).flatMap Call.chars =
      cs.flatMap (form.charText escapesUnicode) := by
  rw [List.flatMap_assoc]
  exact congrArg cs.flatMap (funext fun c => form.flatMap_chars_charCalls escapesUnicode c)

/-- Plain characters are written as they are. -/
theorem Spelling.ofChar_of_plain {form : Form} {c : Char} (plain : form.isPlainChar c = true)
    (escapesUnicode : Bool) : ofChar form escapesUnicode c = .itself := by
  unfold Form.isPlainChar Form.needsEscape at plain
  simp only [Bool.and_eq_true, decide_eq_true_eq, Bool.not_eq_true', Option.isSome_eq_false_iff,
    Option.isNone_iff_eq_none] at plain
  have latin : c.val < 0x100 := UInt32.lt_trans plain.1 (by decide)
  rw [ofChar_of_latin latin, ← tabled_of_latin latin, plain.2]

theorem Form.charCalls_of_plain {form : Form} {c : Char} (plain : form.isPlainChar c = true)
    (escapesUnicode : Bool) : form.charCalls escapesUnicode c = [.ascii [c]] := by
  have ascii : c.val < 0x80 := of_decide_eq_true (Bool.and_eq_true_iff.mp plain).1
  unfold charCalls Call.ofChar
  rw [Spelling.ofChar_of_plain plain, if_pos ascii]

/-- A character that is not plain and yet written as it is lies beyond ASCII. -/
theorem Spelling.large_of_itself {form : Form} {c : Char} {escapesUnicode : Bool}
    (special : form.isPlainChar c = false) (itself : ofChar form escapesUnicode c = .itself) :
    ¬ c.val < 0x80 := by
  intro ascii
  have latin : c.val < 0x100 := UInt32.lt_trans ascii (by decide)
  rw [ofChar_of_latin latin, ← tabled_of_latin latin] at itself
  unfold Form.isPlainChar Form.needsEscape at special
  cases entry : form.escape? c.val.toUInt8 with
  | none =>
      rw [entry, decide_eq_true ascii] at special
      cases special
  | some escape =>
      rw [entry, decide_eq_true ascii] at itself
      cases itself

/-! ## Allowed operations -/

/-- The printable characters of ASCII. -/
def IsPrintable (c : Char) : Prop :=
  0x20 ≤ c.val ∧ c.val ≤ 0x7E

instance : DecidablePred IsPrintable := fun _ => inferInstanceAs (Decidable (_ ∧ _))

/-- The characters that a sink is given as ASCII: what is printable, and in a long string line feeds
too. -/
def Form.Prints (form : Form) (c : Char) : Prop :=
  IsPrintable c ∨ (form = .longString ∧ c = '\n')

/-- The operations that a writer may ask a sink for in a form: ASCII that is not empty and has
nothing in it that needs an escape, and where the sink can hold more than ASCII, also characters
beyond ASCII that have one code unit, and surrogate pairs. -/
def Call.IsAllowed (form : Form) (escapesUnicode : Bool) : Call → Prop
  | ascii text => text ≠ [] ∧ ∀ c ∈ text, form.Prints c
  | char c => escapesUnicode = false ∧ 0x80 ≤ c.val ∧ c.val ≤ 0xFFFF
  | pair lead trail =>
    escapesUnicode = false ∧ lead.isHighSurrogate = true ∧ trail.isLowSurrogate = true

theorem Form.Prints.ascii {form : Form} {c : Char} (prints : form.Prints c) : c.val < 0x80 := by
  rcases prints with ⟨_, most⟩ | ⟨_, rfl⟩
  · exact UInt32.lt_of_le_of_lt most (by decide)
  · decide

namespace Call.IsAllowed

variable {form : Form} {escapesUnicode : Bool} {call : Call}

theorem isProper (allowed : call.IsAllowed form escapesUnicode) : call.IsProper escapesUnicode := by
  cases call with
  | ascii text => exact fun c member => (allowed.2 c member).ascii
  | char c => exact allowed.1
  | pair lead trail => exact allowed

/-- What a sink that escapes may be asked for, any sink may be asked for. -/
theorem of_escaping (allowed : call.IsAllowed form true) : call.IsAllowed form escapesUnicode := by
  cases call with
  | ascii text => exact allowed
  | char c => cases allowed.1
  | pair lead trail => cases allowed.1

/-- Pieces of ASCII that may be put one by one may be put together. -/
theorem append {text more : List Char} (first : (ascii text).IsAllowed form escapesUnicode)
    (second : (ascii more).IsAllowed form escapesUnicode) :
    (ascii (text ++ more)).IsAllowed form escapesUnicode :=
  ⟨List.append_ne_nil_of_left_ne_nil first.1 more,
    List.forall_mem_append.mpr ⟨first.2, second.2⟩⟩

/-- Printable text is allowed in every form. -/
theorem of_printable {text : List Char} (some : text ≠ []) (printable : ∀ c ∈ text, IsPrintable c) :
    (ascii text).IsAllowed form escapesUnicode :=
  ⟨some, fun c member => .inl (printable c member)⟩

end Call.IsAllowed

theorem Escape.text_ne_nil (escape : Escape) : escape.text ≠ [] := by
  cases escape <;> exact List.cons_ne_nil _ _

/-- Escapes by a letter are printable. -/
theorem Escape.isPrintable_of_mem_named {form : Form} {c letter : Char}
    (found : Spelling.letter? form c = some letter) :
    ∀ d ∈ (named letter).text, IsPrintable d := by
  have letters : ∀ entry ∈ Spelling.letters, IsPrintable entry.1 := by decide
  intro d member
  rcases List.mem_cons.mp member with rfl | member
  · decide
  · cases List.mem_singleton.mp member
    exact letters _ (Spelling.mem_letters found)

/-- Escapes by number are printable. -/
theorem Escape.isPrintable_of_mem_numeric {marker : Char} (known : marker ∈ ['x', 'u', 'U'])
    (width value : Nat) : ∀ c ∈ (numeric marker width value).text, IsPrintable c := by
  have markers : (['x', 'u', 'U'].all fun c => decide (IsPrintable c)) = true := by decide
  have digits : ∀ n < 16, IsPrintable (Nat.digitChar n) := by decide
  intro c member
  rcases List.mem_cons.mp member with rfl | member
  · decide
  rcases List.mem_cons.mp member with rfl | member
  · exact of_decide_eq_true (List.all_eq_true.mp markers c known)
  · obtain ⟨n, small, rfl⟩ := Hex.exists_digit_of_mem_fixed member
    exact digits n small

/-- An ASCII character that is written as it is may be printed. -/
theorem Spelling.prints_of_itself {form : Form} {c : Char} (allowed : isControl form c = false)
    (ascii : c.val < 0x80) : form.Prints c := by
  unfold isControl at allowed
  simp only [Bool.and_eq_false_iff, Bool.or_eq_false_iff, decide_eq_false_iff_not,
    beq_eq_false_iff_ne, Bool.not_eq_false', Bool.and_eq_true, beq_iff_eq] at allowed
  rcases allowed with ⟨notLow, notDelete⟩ | lineFeed
  · have below : c.val.toNat < 0x80 := UInt32.lt_iff_toNat_lt.mp ascii
    have other : c.val.toNat ≠ 0x7F := fun same => notDelete (UInt32.toNat_inj.mp same)
    exact .inl ⟨UInt32.not_lt.mp notLow, UInt32.le_iff_toNat_le.mpr (by change _ ≤ 0x7E; omega)⟩
  · exact .inr lineFeed

/-- **Only allowed operations are asked for.** Escapes are printable, and characters and pairs are
put only where they can be held. -/
theorem Form.isAllowed_charCalls (form : Form) (escapesUnicode : Bool) (c : Char) :
    ∀ call ∈ form.charCalls escapesUnicode c, call.IsAllowed form escapesUnicode := by
  intro call member
  have rule := Spelling.rule_ofChar form escapesUnicode c
  unfold charCalls at member
  generalize Spelling.ofChar form escapesUnicode c = spelling at rule member
  cases rule with
  | named found =>
      cases List.mem_singleton.mp member
      exact .of_printable (Escape.text_ne_nil _) (Escape.isPrintable_of_mem_named found)
  | number unnamed needed =>
      obtain ⟨escape, among, rfl⟩ := List.mem_map.mp member
      obtain ⟨marker, known, width, value, rfl⟩ := Spelling.eq_numeric_of_mem_byNumber among
      exact .of_printable (Escape.text_ne_nil _)
        (Escape.isPrintable_of_mem_numeric known width value)
  | itself unnamed allowed held =>
      cases List.mem_singleton.mp member
      have holds (large : ¬ c.val < 0x80) : escapesUnicode = false :=
        Bool.eq_false_iff.mpr fun escapes => large (held escapes)
      unfold Call.ofChar
      split
      · rename_i ascii
        refine ⟨List.cons_ne_nil c [], fun d inside => ?_⟩
        cases List.mem_singleton.mp inside
        exact Spelling.prints_of_itself allowed ascii
      · rename_i large
        split
        · rename_i small
          have most : c.val.toNat < 0x10000 := CodePoint.small_iff.mp small
          exact ⟨holds large, UInt32.not_lt.mp large,
            UInt32.le_iff_toNat_le.mpr (Nat.le_of_lt_succ most)⟩
        · rename_i beyond
          obtain ⟨high, low, _⟩ := CodePoint.split_isPair beyond
          exact ⟨holds large, high, low⟩

namespace Sink

variable {σ : Type}

theorem putEscapes_eq (s : Sink σ) (escapes : List Escape) :
    s.putEscapes escapes = s.performAll (escapes.map fun escape => .ascii escape.text) := by
  induction escapes with
  | nil => rfl
  | cons escape escapes ih =>
      rw [List.map_cons, performAll_cons, ← ih]
      rfl

theorem putItself_eq (s : Sink σ) (c : Char) : s.putItself c = s.perform (.ofChar c) := by
  unfold putItself Call.ofChar
  split
  · rfl
  · split <;> rfl

/-- Writing a character is carrying out its operations. -/
theorem writeChar_eq (s : Sink σ) (form : Form) (c : Char) :
    s.writeChar form c = s.performAll (form.charCalls s.escapesUnicode c) := by
  unfold writeChar Form.charCalls
  cases Spelling.ofChar form s.escapesUnicode c with
  | escaped escapes => exact s.putEscapes_eq escapes
  | itself =>
      rw [performAll_singleton]
      exact s.putItself_eq c

/-- Putting what is no plain character as it is is one operation if it is a character. -/
theorem putVerbatim_eq (s : Sink σ) {special : Special} {call : Call}
    (alone : special.verbatim = [call]) : s.putVerbatim special = s.perform call := by
  cases special with
  | pair lead trail =>
      cases alone
      rfl
  | unit u =>
      change (CodePoint.toChar? u.toUInt32).toList.map Call.char = [call] at alone
      unfold putVerbatim
      cases found : CodePoint.toChar? u.toUInt32 with
      | none =>
          rw [found] at alone
          cases alone
      | some c =>
          rw [found] at alone
          cases alone
          simp only [found]
          rfl

/-- Putting a character that ends a run is carrying out its operations. -/
theorem putSpecial_ofChar (s : Sink σ) {form : Form} {c : Char}
    (special : form.isPlainChar c = false) :
    s.putSpecial form (.ofChar c) = s.performAll (form.charCalls s.escapesUnicode c) := by
  unfold putSpecial Form.charCalls
  rw [Special.spelling_ofChar]
  cases spelling : Spelling.ofChar form s.escapesUnicode c with
  | escaped escapes => exact s.putEscapes_eq escapes
  | itself =>
      have large := Spelling.large_of_itself special spelling
      rw [performAll_singleton]
      exact s.putVerbatim_eq (Special.verbatim_ofChar large)

end Sink

end IonLiteral
