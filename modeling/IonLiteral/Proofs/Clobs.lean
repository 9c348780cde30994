import IonLiteral.Proofs.Sessions
import IonLiteral.Proofs.Strings

/-! # Clobs are read back

Every byte of a clob is written as something that a reader of clobs takes for that byte: as itself
only if it is printable, by a letter that names it, or by two digits. A byte is never put as a
character beyond ASCII, so it makes no difference whether the sink escapes.
-/

namespace IonLiteral

namespace Reader

/-- A letter names the same character in a clob, and stands for the byte of that number. -/
theorem clobEscape?_named {letter c : Char} (named : namedChar? letter = some c)
    (rest : List Char) : clobEscape? (letter :: rest) = some (c.val.toUInt8, rest) := by
  unfold clobEscape?
  simp only [named]

/-- Two digits are read as the byte that they were written for. -/
theorem clobEscape?_numeric {value : Nat} (fits : value < 16 ^ 2) (rest : List Char) :
    clobEscape? ('x' :: Hex.fixed 2 value ++ rest) = some (UInt8.ofNat value, rest) := by
  change (Hex.read? 2 (Hex.fixed 2 value ++ rest)).map _ = _
  rw [Hex.read?_fixed fits]
  rfl

end Reader

namespace Form

/-- What is printed as it is lies below DEL. -/
theorem Prints.below_delete {form : Form} {c : Char} (prints : form.Prints c) : c.val < 0x7F := by
  rcases prints with ⟨_, most⟩ | ⟨_, rfl⟩
  · exact UInt32.lt_of_le_of_lt most (by decide)
  · decide

/-- **Every byte is read back.** What a byte is written as in a clob is read as that byte. -/
theorem spells_ofUInt8 (form : Form) (ion : form.isJson = false) (byte : UInt8) :
    Reader.Spells (Reader.clobText (form == .longString)) form.quote byte
      (form.charText true (Char.ofUInt8 byte)) := by
  have latin := CodePoint.ofUInt8_latin byte
  have own : (Char.ofUInt8 byte).val.toUInt8 = byte := CodePoint.toUInt8_ofUInt8 byte
  have rule := Spelling.rule_ofChar form true (Char.ofUInt8 byte)
  unfold charText
  generalize Spelling.ofChar form true (Char.ofUInt8 byte) = spelling at rule
  cases rule with
  | named found =>
      have named := Reader.namedChar?_of_mem_letters (Spelling.mem_letters found)
      have read := Reader.clobEscape?_named named
      rw [own] at read
      exact .escape read
  | number unnamed needed =>
      have number : Spelling.byNumber form (Char.ofUInt8 byte) = [.x byte.toNat] := by
        unfold Spelling.byNumber
        rw [if_pos latin, ion]
        rfl
      have read := Reader.clobEscape?_numeric byte.toNat_lt
      rw [UInt8.ofNat_toNat] at read
      rw [number]
      change Reader.Spells _ _ byte ('\\' :: ('x' :: Hex.fixed 2 byte.toNat ++ []))
      rw [List.append_nil]
      exact .escape read
  | itself unnamed allowed held =>
      obtain ⟨noEscape, noQuote⟩ := Spelling.ne_of_unnamed unnamed
      have literal := Spelling.isLiteral_of_not_isControl allowed
      have below := (Spelling.prints_of_itself allowed (held rfl)).below_delete
      refine .plain noEscape noQuote ?_
      change (if (Reader.isLiteral _ _ && decide _) = true then _ else _) = _
      rw [literal, decide_eq_true below, Bool.true_and, if_pos rfl, own]

end Form

namespace Rendering

variable {σ : Type} {s : Sink σ}

/-- Bytes in a form of Ion are read back from between their quotes. -/
theorem observe_bytes_read_back (takes : s.TakesAll) (quoting : Quoting)
    (ion : quoting.form.isJson = false) {rendering : Rendering} {bytes : List UInt8}
    (planned : rendering.plan s.escapesUnicode =
      .quoted quoting (some (quoting.form.byteScript bytes)))
    {more : List Char} (delimiter : quoting.delimiter = quoting.form.quote :: more) (kept : σ)
    (rest : List Char) :
    (s.observe rendering kept).result = .ok () ∧
      Reader.quoted? (Reader.clobText (quoting.form == .longString)) quoting.delimiter
        ((s.observe rendering kept).chars ++ rest) = some (bytes, rest) := by
  have chars := quoting.form.chars_byteScript bytes
  rw [List.flatMap_map] at chars
  have reads := takes.observe_reads_back quoting planned rfl delimiter chars
    (fun byte _ => quoting.form.spells_ofUInt8 ion byte) kept rest
  rwa [List.map_id'] at reads

/-- A clob between double quotes is read back. -/
theorem clob?_observe (takes : s.TakesAll) (bytes : List UInt8) (kept : σ) (rest : List Char) :
    (s.observe (clob (some bytes)) kept).result = .ok () ∧
      Reader.clob? ((s.observe (clob (some bytes)) kept).chars ++ rest) = some (bytes, rest) :=
  observe_bytes_read_back takes .clob rfl rfl rfl kept rest

/-- A clob between triple quotes is read back. -/
theorem longClob?_observe (takes : s.TakesAll) (bytes : List UInt8) (kept : σ)
    (rest : List Char) :
    (s.observe (longClob (some bytes)) kept).result = .ok () ∧
      Reader.longClob? ((s.observe (longClob (some bytes)) kept).chars ++ rest) =
        some (bytes, rest) :=
  observe_bytes_read_back takes .longClob rfl rfl rfl kept rest

/-- A text is printed as a clob in the same way for all options, and read back as its bytes. -/
theorem exists_printWith_clob (text : String) :
    ∃ printed, (∀ options, printWith options .clob text = .ok printed) ∧
      ∀ rest, Reader.clob? (printed.toList ++ rest) = some (Utf8.encode text.toList, rest) := by
  let body := Form.clob.byteScript (Utf8.encode text.toList)
  have ends : (Script.quoted .clob (some body)).ending = .ok () := rfl
  refine ⟨String.ofList (Script.quoted .clob (some body)).chars, fun options => ?_, fun rest => ?_⟩
  · have planned : (ofChars text.toList options.quoteOperators .clob).plan
        options.charset.escapesUnicode = .quoted .clob (some body) := rfl
    rw [printWith_eq, planned, ends]
    rfl
  · have takes := Sink.takesAll_characters true
    obtain ⟨left, seen⟩ := Sink.observe_eq_plan takes (clob (some (Utf8.encode text.toList))) ""
    have reads := (clob?_observe takes (Utf8.encode text.toList) "" rest).2
    rw [seen] at reads
    rw [String.toList_ofList]
    exact reads

/-- **Clobs are read back.** The bytes of a clob between double quotes and of one between triple
quotes are written to the end and read back, and the reader leaves exactly what follows. What is
asked of a sink does not depend on whether it escapes. So a text is printed as a clob in one way for
all charsets, and it is read back as its UTF-8. -/
theorem clobs_read_back (takes : s.TakesAll) (bytes : List UInt8) (kept : σ) (rest : List Char) :
    let short := s.observe (clob (some bytes)) kept
    let long := s.observe (longClob (some bytes)) kept
    (short.result = .ok () ∧ Reader.clob? (short.chars ++ rest) = some (bytes, rest)) ∧
      (long.result = .ok () ∧ Reader.longClob? (long.chars ++ rest) = some (bytes, rest)) ∧
      (∀ {τ : Type} (other : Sink τ) (start : τ) (escapesUnicode : Bool),
        let flagged : Sink τ := { other with escapesUnicode }
        flagged.observe (clob (some bytes)) start = other.observe (clob (some bytes)) start ∧
          flagged.observe (longClob (some bytes)) start =
            other.observe (longClob (some bytes)) start) ∧
      ∀ text : String, ∃ printed, (∀ options, printWith options .clob text = .ok printed) ∧
        ∀ rest, Reader.clob? (printed.toList ++ rest) = some (Utf8.encode text.toList, rest) := by
  intro short long
  refine ⟨clob?_observe takes bytes kept rest, longClob?_observe takes bytes kept rest, ?_,
    exists_printWith_clob⟩
  -- The writers of bytes never look at the flag.
  intro τ other start escapesUnicode flagged
  exact ⟨rfl, rfl⟩

/-- NUL before a digit, the quotes, a backslash, a line feed, DEL and bytes beyond ASCII. -/
theorem clobs_read_back_at_delimiters :
    let bytes : List UInt8 := [0x00, 0x38, 0x22, 0x27, 0x5C, 0x0A, 0x7F, 0x80, 0xFF]
    let short := (Sink.characters false none).observe (clob (some bytes)) ""
    let long := (Sink.characters false none).observe (longClob (some bytes)) ""
    short.chars = "\"\\08\\\"'\\\\\\n\\x7f\\x80\\xff\"".toList ∧
      long.chars = "'''\\08\"\\'\\\\\n\\x7f\\x80\\xff'''".toList ∧
      Reader.clob? (short.chars ++ ['"']) = some (bytes, ['"']) ∧
      Reader.longClob? (long.chars ++ ['\'']) = some (bytes, ['\'']) := by
  intro bytes short long
  have takes := Sink.takesAll_characters false
  exact ⟨rfl, rfl, (clobs_read_back takes bytes "" ['"']).1.2,
    (clobs_read_back takes bytes "" ['\'']).2.1.2⟩

end Rendering

end IonLiteral
