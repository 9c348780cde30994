import IonLiteral.Proofs.BareSymbols
import IonLiteral.Proofs.CheckedBodies
import IonLiteral.Proofs.Contract

/-! # Nothing breaks while text is written

With every check on the way, renderings do what they do without checks. So no check ever fails:
strings are cut between characters only, no arithmetic leaves its type, no conversion fails, and
every loop comes to its end. What a rendering can end with is then a fault of the sink or of the
input, and of the inputs only unmatched surrogates, empty symbols and numbers without a character are
faults.
-/

namespace IonLiteral

/-- Write the code points that units decode to, and break off where the decoding does. -/
def Sink.writeDecoded {σ : Type} (s : Sink σ) (form : Form) (decoded : Utf16.Decoded) :
    SinkM σ Unit := do
  decoded.codePoints.forM (s.writeCodePoint form)
  stopAt decoded.unmatched

namespace Checked

variable {σ : Type}

/-! ## Bodies -/

/-- The body of a text. -/
def body (s : Sink σ) (form : Form) : Text → CheckedM σ Unit
  | .chars cs => loop (charsTurn s form cs) (Utf8.size cs) 0
  | .units us => loop (unitsTurn s form us) us.length 0

/-- The body of a clob. -/
def byteBody (s : Sink σ) (form : Form) (bytes : List UInt8) : CheckedM σ Unit :=
  loop (bytesTurn s form bytes) bytes.length 0

/-- **Bodies break nothing**, in characters as well as in units. -/
theorem body_eq (s : Sink σ) (form : Form) (text : Text) :
    body s form text = liftM (s.writeBody form text) := by
  cases text with
  | chars cs => exact (turns_chars s form cs).loop_eq ⟨[], rfl, rfl⟩
  | units us => exact (turns_units s form us).loop_eq ⟨[], rfl, rfl⟩

/-- **Bodies of bytes break nothing.** -/
theorem byteBody_eq (s : Sink σ) (form : Form) (bytes : List UInt8) :
    byteBody s form bytes = liftM (s.writeByteBody form bytes) :=
  (turns_bytes s form bytes).loop_eq List.drop_zero.symm

/-! ## One character at a time -/

/-- Put the escape by number of a character below `0x100`. -/
def putLatin (s : Sink σ) (form : Form) (c : Char) : CheckedM σ Unit :=
  if form.isJson then putNumber s 'u' c.val 4 else putNumber s 'x' c.val 2

/-- Put the escapes by number of the halves of a character beyond `0xFFFF`. -/
def putHalves (s : Sink σ) (c : Char) : CheckedM σ Unit := do
  let (lead, trail) ← split c.val
  putNumber s 'u' lead.toUInt32 4
  putNumber s 'u' trail.toUInt32 4

/-- Put a character beyond `0xFFFF` as a surrogate pair. -/
def putSupplementary (s : Sink σ) (c : Char) : CheckedM σ Unit := do
  let (lead, trail) ← split c.val
  putPairThrough s lead trail

/-- Write a character. -/
def writeChar (s : Sink σ) (form : Form) (c : Char) : CheckedM σ Unit :=
  match Spelling.letter? form c with
  | some letter => s.putEscape (.named letter)
  | none =>
    if Spelling.isControl form c then putLatin s form c
    else if c.val < 0x80 then s.putAscii [c]
    else if !s.escapesUnicode then
      if c.val < 0x10000 then s.putChar c else putSupplementary s c
    else if c.val < 0x100 then putLatin s form c
    else if c.val < 0x10000 then putNumber s 'u' c.val 4
    else if form.isJson then putHalves s c
    else putNumber s 'U' c.val 8

/-- Write the character with a given number, which has to exist. -/
def writeCodePoint (s : Sink σ) (form : Form) (cp : CodePoint) : CheckedM σ Unit :=
  match cp.toChar? with
  | some c => writeChar s form c
  | none => liftM (throw (.notScalar cp) : SinkM σ Unit)

/-- A turn that decodes one character of the units and writes it. -/
def decodingTurn (s : Sink σ) (form : Form) (us : List CodeUnit) (i : Nat) :
    CheckedM σ (Option Nat) :=
  unitTurn us i (fun lead trail => do writeCodePoint s form (← combine lead trail))
    fun u => writeCodePoint s form u.toUInt32

/-- Write code units one character at a time. -/
def writeUnits (s : Sink σ) (form : Form) (us : List CodeUnit) : CheckedM σ Unit :=
  loop (decodingTurn s form us) us.length 0

/-- Below `0x100` escapes by number break nothing. -/
theorem putLatin_eq (s : Sink σ) (form : Form) {c : Char} (latin : c.val < 0x100) :
    putLatin s form c = liftM (s.putEscapes (Spelling.byNumber form c)) := by
  rw [putLatin, Spelling.byNumber, if_pos latin]
  by_cases json : form.isJson = true
  · rw [if_pos json, if_pos json]
    exact putNumber_u s c.val
  · rw [if_neg json, if_neg json]
    exact putNumber_x s c.val

/-- Characters beyond `0xFFFF` can be split, so they can be put as pairs. -/
theorem putSupplementary_eq (s : Sink σ) {c : Char} (large : ¬ c.val < 0x10000) :
    putSupplementary s c =
      liftM (s.putPair (Surrogate.split c.val).1 (Surrogate.split c.val).2) := by
  obtain ⟨high, low, -⟩ := CodePoint.split_isPair large
  rw [putSupplementary, split_val large]
  exact putPairThrough_eq s high low

/-- Characters beyond `0xFFFF` can be split, so their halves can be escaped. -/
theorem putHalves_eq (s : Sink σ) {c : Char} (large : ¬ c.val < 0x10000) :
    putHalves s c =
      liftM (s.putEscapes [.u (Surrogate.split c.val).1.toNat,
        .u (Surrogate.split c.val).2.toNat]) := by
  rw [putHalves, split_val large]
  exact putNumber_pair s _ _

/-- Escapes by number, for a sink that takes nothing beyond ASCII. -/
theorem putNumbers_eq (s : Sink σ) (form : Form) (c : Char) :
    (if c.val < 0x100 then putLatin s form c
      else if c.val < 0x10000 then putNumber s 'u' c.val 4
      else if form.isJson then putHalves s c
      else putNumber s 'U' c.val 8) = liftM (s.putEscapes (Spelling.byNumber form c)) := by
  by_cases latin : c.val < 0x100
  · rw [if_pos latin, putLatin_eq s form latin]
  · rw [if_neg latin, Spelling.byNumber, if_neg latin]
    by_cases small : c.val < 0x10000
    · rw [if_pos small, if_pos small]
      exact putNumber_u s c.val
    · rw [if_neg small, if_neg small]
      by_cases json : form.isJson = true
      · rw [if_pos json, if_pos json, putHalves_eq s small]
      · rw [if_neg json, if_neg json]
        exact putNumber_wide s c.val

/-- Single characters break nothing. -/
theorem writeChar_eq (s : Sink σ) (form : Form) (c : Char) :
    writeChar s form c = liftM (s.writeChar form c) := by
  rw [writeChar, Sink.writeChar, Spelling.ofChar]
  cases Spelling.letter? form c with
  | some letter => exact congrArg liftM (s.putEscapes_singleton (.named letter)).symm
  | none =>
      by_cases control : Spelling.isControl form c = true
      · have latin : c.val < 0x100 :=
          UInt32.lt_trans (Spelling.ascii_of_isControl control) (by decide)
        simp only [control, Bool.true_or, if_true]
        exact putLatin_eq s form latin
      · by_cases ascii : c.val < 0x80
        · have below : ¬ 0x80 ≤ c.val := UInt32.not_le.mpr ascii
          simp only [control, below, decide_false, Bool.and_false, Bool.or_false,
            Bool.false_eq_true, if_false, if_pos ascii, Sink.putItself]
        · have above : 0x80 ≤ c.val := UInt32.not_lt.mp ascii
          cases s.escapesUnicode with
          | true =>
              simp only [control, above, decide_true, Bool.and_true, Bool.or_true, Bool.not_true,
                Bool.false_eq_true, if_false, if_true, if_neg ascii]
              exact putNumbers_eq s form c
          | false =>
              simp only [control, Bool.false_and, Bool.or_false, Bool.not_false, Bool.false_eq_true,
                if_false, if_true, if_neg ascii, Sink.putItself]
              by_cases small : c.val < 0x10000
              · rw [if_pos small, if_pos small]
              · rw [if_neg small, if_neg small, putSupplementary_eq s small]

/-- Single characters given by their numbers break nothing. -/
theorem writeCodePoint_eq (s : Sink σ) (form : Form) (cp : CodePoint) :
    writeCodePoint s form cp = liftM (s.writeCodePoint form cp) := by
  rw [writeCodePoint, Sink.writeCodePoint]
  cases cp.toChar? with
  | none => rfl
  | some c => exact writeChar_eq s form c

/-- What breaks nothing for each of some things breaks nothing for all. -/
theorem forM_liftM {α : Type} {check : α → CheckedM σ Unit} {write : α → SinkM σ Unit}
    (each : ∀ a, check a = liftM (write a)) (as : List α) :
    as.forM check = liftM (as.forM write) := by
  induction as with
  | nil => rfl
  | cons a as ih =>
      change (do check a; as.forM check) = liftM (do write a; as.forM write)
      rw [each a, ih, liftM_bind]

/-- **Turns that decode** write what is decoded. -/
theorem turns_decoding (s : Sink σ) (form : Form) (us : List CodeUnit) :
    Turns (decodingTurn s form us) us.length (IsRest us)
      fun i rest => s.writeDecoded form (Utf16.decodeFrom i rest) := by
  constructor
  · intro i rest here outside
    cases Classical.not_not.mp (here.lt_length_iff.not.mp outside)
    rfl
  · intro i rest here inside
    refine exists_unitTurn (fun c => s.writeCodePoint form c.val) _ (fun c small => ?_)
      (fun c large => ?_) here (here.lt_length_iff.mp inside) (fun c more starts => ?_)
      (fun half u more starts alone => ?_)
    · rw [CodePoint.toUInt32_toUInt16 small, writeCodePoint_eq]
    · obtain ⟨high, low, value⟩ := CodePoint.split_isPair large
      rw [combine_eq high low, value, CheckedM.liftM_ok, pure_bind, writeCodePoint_eq]
    · rw [starts, Utf16.decodeFrom_encodeChar]
      exact bind_assoc ..
    · rw [starts, Utf16.decodeFrom_unpaired _ alone]
      rfl

theorem writeUnits_eq (s : Sink σ) (form : Form) (us : List CodeUnit) :
    writeUnits s form us = liftM (s.writeUnits form us) :=
  (turns_decoding s form us).loop_eq ⟨[], rfl, rfl⟩

/-! ## Values -/

/-- Write a body between delimiters, or the null where there is no body. -/
def writeQuoted (s : Sink σ) (quoting : Quoting) : Option (CheckedM σ Unit) → CheckedM σ Unit
  | none => s.putAscii quoting.absent
  | some body => do
    s.putAscii quoting.delimiter
    body
    s.putAscii quoting.delimiter

/-- Write a text as a quoted value. -/
def writeText (s : Sink σ) (quoting : Quoting) (text : Option Text) : CheckedM σ Unit :=
  writeQuoted s quoting (text.map (body s quoting.form))

/-- Write bytes as a quoted value. -/
def writeBytes (s : Sink σ) (quoting : Quoting) (bytes : Option (List UInt8)) : CheckedM σ Unit :=
  writeQuoted s quoting (bytes.map (byteBody s quoting.form))

/-- Write a symbol, in quotes only if it needs them. -/
def writeSymbol (s : Sink σ) (quoteOperators : Bool) : Option Text → CheckedM σ Unit
  | none => s.putAscii Quoting.symbol.absent
  | some text =>
    match Symbol.needsQuotes text quoteOperators with
    | .error fault => liftM (throw fault : SinkM σ Unit)
    | .ok true => writeText s .symbol (some text)
    | .ok false => body s .symbol text

/-- Write a symbol in quotes, whatever its text. -/
def writeQuotedSymbol (s : Sink σ) (text : Option Text) : CheckedM σ Unit :=
  if text.any Text.isEmpty then liftM (throw .emptySymbol : SinkM σ Unit)
  else writeText s .symbol text

/-- Delimiters break nothing. -/
theorem writeQuoted_eq (s : Sink σ) (quoting : Quoting) {α : Type} {check : α → CheckedM σ Unit}
    {write : α → SinkM σ Unit} (same : ∀ a, check a = liftM (write a)) (value : Option α) :
    writeQuoted s quoting (value.map check) = liftM (s.writeQuoted quoting (value.map write)) := by
  cases value with
  | none => rfl
  | some a =>
      rw [Option.map_some, Option.map_some, writeQuoted, Sink.writeQuoted, same, liftM_bind,
        liftM_bind]

theorem writeText_eq (s : Sink σ) (quoting : Quoting) (text : Option Text) :
    writeText s quoting text = liftM (s.writeText quoting text) :=
  writeQuoted_eq s quoting (body_eq s quoting.form) text

theorem writeBytes_eq (s : Sink σ) (quoting : Quoting) (bytes : Option (List UInt8)) :
    writeBytes s quoting bytes = liftM (s.writeBytes quoting bytes) :=
  writeQuoted_eq s quoting (byteBody_eq s quoting.form) bytes

theorem writeSymbol_eq (s : Sink σ) (quoteOperators : Bool) (text : Option Text) :
    writeSymbol s quoteOperators text = liftM (s.writeSymbol quoteOperators text) := by
  cases text with
  | none => rfl
  | some text =>
      rw [writeSymbol, Sink.writeSymbol]
      cases Symbol.needsQuotes text quoteOperators with
      | error fault => rfl
      | ok quoted =>
          cases quoted with
          | true => exact writeText_eq s .symbol (some text)
          | false => exact body_eq s .symbol text

theorem writeQuotedSymbol_eq (s : Sink σ) (text : Option Text) :
    writeQuotedSymbol s text = liftM (s.writeQuotedSymbol text) := by
  rw [writeQuotedSymbol, Sink.writeQuotedSymbol]
  by_cases empty : text.any Text.isEmpty = true
  · rw [if_pos empty, if_pos empty]
  · rw [if_neg empty, if_neg empty, writeText_eq]

end Checked

/-! ## Renderings -/

/-- Only an empty text is refused as a symbol. -/
theorem Symbol.isEmpty_of_needsQuotes {text : Text} {quoteOperators : Bool} {fault : Fault}
    (refused : needsQuotes text quoteOperators = .error fault) : text.isEmpty = true := by
  rw [needsQuotes_eq_error_iff, kind] at refused
  rw [← codeUnits_eq_nil_iff]
  cases units : text.codeUnits with
  | nil => rfl
  | cons u rest =>
      obtain ⟨found, known⟩ := exists_kindOfUnits u rest
      rw [units, known] at refused
      cases refused

/-- A symbol ends as its text does, but for the empty one. -/
theorem Text.ending_symbolScript (text : Text) (quoteOperators escapesUnicode : Bool) :
    (text.symbolScript quoteOperators escapesUnicode).ending =
      if text.isEmpty then .error .emptySymbol else text.ending := by
  rw [symbolScript]
  cases needed : Symbol.needsQuotes text quoteOperators with
  | error fault =>
      cases Symbol.eq_emptySymbol_of_needsQuotes needed
      rw [if_pos (Symbol.isEmpty_of_needsQuotes needed)]
      rfl
  | ok quoted =>
      have something : ¬ text.isEmpty = true := fun empty => by
        rw [Symbol.needsQuotes_of_isEmpty empty] at needed
        cases needed
      rw [if_neg something]
      cases quoted with
      | true => exact Script.ending_quoted .symbol _
      | false => rfl

namespace Rendering

/-- Carry out a rendering with every check on the way. -/
def checked {σ : Type} (s : Sink σ) : Rendering → CheckedM σ Unit
  | string text => Checked.writeText s .string text
  | longString text => Checked.writeText s .longString text
  | jsonString text => Checked.writeText s .json text
  | symbol text quoteOperators => Checked.writeSymbol s quoteOperators text
  | quotedSymbol text => Checked.writeQuotedSymbol s text
  | clob bytes => Checked.writeBytes s .clob bytes
  | longClob bytes => Checked.writeBytes s .longClob bytes
  | jsonClob bytes => Checked.writeBytes s .jsonClob bytes
  | body text form => Checked.body s form text
  | codePoint cp form => Checked.writeCodePoint s form cp
  | chars cs form => cs.forM (Checked.writeChar s form)
  | units us form => Checked.writeUnits s form us

/-- **Checks change nothing.** -/
theorem checked_eq {σ : Type} (s : Sink σ) (rendering : Rendering) :
    rendering.checked s = liftM (rendering.write s) := by
  cases rendering with
  | string text => exact Checked.writeText_eq s .string text
  | longString text => exact Checked.writeText_eq s .longString text
  | jsonString text => exact Checked.writeText_eq s .json text
  | symbol text quoteOperators => exact Checked.writeSymbol_eq s quoteOperators text
  | quotedSymbol text => exact Checked.writeQuotedSymbol_eq s text
  | clob bytes => exact Checked.writeBytes_eq s .clob bytes
  | longClob bytes => exact Checked.writeBytes_eq s .longClob bytes
  | jsonClob bytes => exact Checked.writeBytes_eq s .jsonClob bytes
  | body text form => exact Checked.body_eq s form text
  | codePoint cp form => exact Checked.writeCodePoint_eq s form cp
  | chars cs form => exact Checked.forM_liftM (Checked.writeChar_eq s form) cs
  | units us form => exact Checked.writeUnits_eq s form us

/-! ## Endings -/

/-- Whether a rendering goes by runs. The others go by single characters. -/
def isBatched : Rendering → Bool
  | string _ | longString _ | jsonString _ | symbol _ _ | quotedSymbol _ => true
  | clob _ | longClob _ | jsonClob _ | body _ _ => true
  | codePoint _ _ | chars _ _ | units _ _ => false

/-- The text that goes by runs, where there is one. -/
def text? : Rendering → Option Text
  | string text | longString text | jsonString text | symbol text _ | quotedSymbol text => text
  | body text _ => some text
  | clob _ | longClob _ | jsonClob _ | codePoint _ _ | chars _ _ | units _ _ => none

/-- Whether a symbol is written that has no text. -/
def isEmptySymbol : Rendering → Bool
  | symbol text _ | quotedSymbol text => text.any Text.isEmpty
  | string _ | longString _ | jsonString _ | clob _ | longClob _ | jsonClob _ | body _ _ => false
  | codePoint _ _ | chars _ _ | units _ _ => false

/-- How a rendering by runs ends, if its sink does not fail before. -/
def ending (rendering : Rendering) : Except Fault Unit :=
  if rendering.isEmptySymbol then .error .emptySymbol
  else rendering.text?.elim (.ok ()) Text.ending

/-- **Plans of runs** end by the text. -/
theorem ending_plan {rendering : Rendering} (batched : rendering.isBatched = true)
    (escapesUnicode : Bool) : (rendering.plan escapesUnicode).ending = rendering.ending := by
  have texts (quoting : Quoting) (text : Option Text) :
      (Script.quoted quoting (text.map (·.batched quoting.form escapesUnicode))).ending =
        text.elim (.ok ()) Text.ending := by
    cases text with
    | none => rfl
    | some text => exact Script.ending_quoted quoting _
  have clobs (quoting : Quoting) (bytes : Option (List UInt8)) :
      (Script.quoted quoting (bytes.map quoting.form.byteScript)).ending = .ok () := by
    cases bytes with
    | none => rfl
    | some bytes => exact Script.ending_quoted quoting _
  cases rendering with
  | string text => exact texts .string text
  | longString text => exact texts .longString text
  | jsonString text => exact texts .json text
  | symbol text quoteOperators =>
      cases text with
      | none => rfl
      | some text => exact text.ending_symbolScript quoteOperators escapesUnicode
  | quotedSymbol text =>
      rw [plan, ending, isEmptySymbol]
      by_cases empty : text.any Text.isEmpty = true
      · rw [if_pos empty, if_pos empty]
        rfl
      · rw [if_neg empty, if_neg empty]
        exact texts .symbol text
  | clob bytes => exact clobs .clob bytes
  | longClob bytes => exact clobs .longClob bytes
  | jsonClob bytes => exact clobs .jsonClob bytes
  | body text form => rfl
  | codePoint cp form => cases batched
  | chars cs form => cases batched
  | units us form => cases batched

/-- **The three endings of a text.** A rendering by runs is written to the end, or is an empty
symbol, or holds a surrogate without its partner. -/
theorem ending_cases (rendering : Rendering) :
    rendering.ending = .ok () ∨ rendering.ending = .error .emptySymbol ∨
      ∃ found, rendering.ending = .error (.unmatchedSurrogate found) := by
  rw [ending]
  split
  · exact .inr (.inl rfl)
  · cases rendering.text? with
    | none => exact .inl rfl
    | some text =>
        rw [Option.elim_some, Text.ending]
        split
        · exact .inl rfl
        · exact .inr (.inr ⟨_, rfl⟩)

/-- Only text in code units can be ill-formed. -/
theorem ending_of_text {rendering : Rendering}
    (notUnits : ∀ us, rendering.text? ≠ some (.units us)) :
    rendering.ending = if rendering.isEmptySymbol then .error .emptySymbol else .ok () := by
  rw [ending]
  split
  · rfl
  · cases given : rendering.text? with
    | none => rfl
    | some text =>
        cases text with
        | chars cs => rfl
        | units us => exact absurd given (notUnits us)

/-- **Nothing breaks.** Whatever is written and however the sink behaves, a rendering with every
check on the way does what it does without them, and no check fails. So no sum or difference leaves
its type, no index and no slice is out of range, no string is cut inside a character, only halves of a
pair are combined and only characters beyond `0xFFFF` are split, bytes taken for text are UTF-8,
numbers taken for characters are characters, and every loop goes forward to its end. The heads of the
loop over characters are boundaries between them, the units taken for plain characters lie below
DEL, and the pairs that a sink is asked to put stand for characters. On a sink that takes all it can
be asked for, a rendering by runs is written to the end, or is an empty symbol, or holds a surrogate
without its partner. So it never ends because a number has no character, and in no custom fault, be
it for a charset or for a reason of the sink's own; and what is given in characters or in bytes is
written to the end, but for empty symbols. -/
theorem no_check_fails {σ : Type} (rendering : Rendering) (s : Sink σ) (kept : σ) :
    rendering.checked s = liftM (rendering.write s) ∧
      (∀ breach left, rendering.checked s kept ≠ .ok (.error breach) left) ∧
      (∀ form cs i, Checked.Head (Checked.charsTurn s form cs) (Utf8.size cs) i →
        Utf8.IsBoundary cs i ∧ ∃ parts, Checked.cut cs i = .ok parts) ∧
      (∀ form u, Form.isPlainUnit form u = true → u < 0x7F) ∧
      (∀ lead trail, .pair lead trail ∈ (s.observe rendering kept).calls →
        ∃ c, (Checked.combine lead trail >>= Checked.character) = .ok c) ∧
      (s.TakesAll → rendering.isBatched = true →
        let result := (s.observe rendering kept).result
        (result = .ok () ∨ result = .error .emptySymbol ∨
            ∃ found, result = .error (.unmatchedSurrogate found)) ∧
          (∀ cp, result ≠ .error (.notScalar cp)) ∧
          (∀ fault, fault.isCustom = true → result ≠ .error fault) ∧
          ((∀ us, rendering.text? ≠ some (.units us)) →
            result = if rendering.isEmptySymbol then .error .emptySymbol else .ok ())) := by
  refine ⟨rendering.checked_eq s, ?_, ?_, ?_, ?_, ?_⟩
  · intro breach left
    rw [checked_eq]
    exact CheckedM.liftM_ne_breach (rendering.write s) kept left breach
  · intro form cs i head
    obtain ⟨rest, before, whole, size⟩ :=
      (Checked.turns_chars s form cs).exists_rest ⟨[], rfl, rfl⟩ head
    have boundary : Utf8.IsBoundary cs i := ⟨before, rest, whole, size⟩
    exact ⟨boundary, Checked.exists_cut_iff.mpr boundary⟩
  · intro form u plain
    exact Form.below_delete_of_isPlainUnit plain
  · intro lead trail asked
    obtain ⟨_, high, low⟩ := s.isAllowed_observe rendering kept _ asked
    exact Checked.exists_character_combine high low
  · intro takes batched result
    obtain ⟨left, seen⟩ := Sink.observe_eq_plan takes rendering kept
    have ends : result = rendering.ending :=
      (congrArg Observation.result seen).trans (ending_plan batched s.escapesUnicode)
    rw [ends]
    refine ⟨rendering.ending_cases, fun cp refused => ?_, fun fault custom refused => ?_,
      ending_of_text⟩
    · rcases rendering.ending_cases with done | empty | ⟨found, unmatched⟩
      · cases done.symm.trans refused
      · cases empty.symm.trans refused
      · cases unmatched.symm.trans refused
    · rcases rendering.ending_cases with done | empty | ⟨found, unmatched⟩
      · cases done.symm.trans refused
      · cases empty.symm.trans refused
        cases custom
      · cases unmatched.symm.trans refused
        cases custom

/-- Characters of one, two and four bytes in a string, on a sink that takes them as they are. The
second turn starts behind the first two. -/
theorem no_check_fails_between_widths :
    let cs := ['a', 'é', '😀']
    let rendering := string (some (.chars cs))
    let s := Sink.characters false none
    rendering.checked s "" = .ok (.ok ()) "\"aé😀\"" ∧
      Utf8.IsBoundary cs 3 ∧
      (∃ c, (Checked.combine 0xD83D 0xDE00 >>= Checked.character) = .ok c) ∧
      (s.observe rendering "").result = .ok () := by
  intro cs rendering s
  obtain ⟨same, _, boundaries, _, pairs, ends⟩ := no_check_fails rendering s ""
  have run : Checked.IsRun (Checked.isPlainByte .shortString) [0x61] (Utf8.encode ['é', '😀']) := by
    refine ⟨List.forall_mem_singleton.mpr rfl, fun byte starts => ?_⟩
    cases starts
    rfl
  have stop : Checked.runEnd (Checked.isPlainByte .shortString) (Utf8.encode cs) 0 = 1 :=
    Checked.runEnd_of_isRun run []
  have turned : Checked.charsTurn s .shortString cs 0 "" = .ok (.ok (some 3)) "aé" := by
    rw [Checked.charsTurn, stop]
    rfl
  have second : Checked.Head (Checked.charsTurn s .shortString cs) (Utf8.size cs) 3 :=
    .next .first (by decide) turned
  have calls : (s.observe rendering "").calls =
      [.ascii ['"'], .ascii ['a'], .char 'é', .pair 0xD83D 0xDE00, .ascii ['"']] := rfl
  refine ⟨?_, (boundaries .shortString cs 3 second).1, pairs 0xD83D 0xDE00 ?_, ?_⟩
  · rw [same]
    rfl
  · rw [calls]
    decide
  · exact (ends (Sink.takesAll_characters false) rfl).2.2.2 (by intro us given; cases given)

end Rendering

end IonLiteral
