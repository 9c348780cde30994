import IonLiteral.Proofs.BareSymbols
import IonLiteral.Proofs.Contract
import IonLiteral.Proofs.IllFormed
import IonLiteral.Proofs.Json
import IonLiteral.Proofs.Sessions

/-! # What the charset changes

A sink that holds ASCII only gets the text that any other sink gets, with the numeric escape of each
character beyond ASCII in the place of the character. Everything else is decided without asking what
the sink can hold: what ASCII is written as, how a rendering ends and whether a symbol has quotes. So
for a text in ASCII the charset makes no difference.
-/

namespace IonLiteral

/-! ## Characters beyond ASCII -/

namespace Form

/-- A character by its number: in Ion by the whole of it, with two, four or eight digits, and in JSON
by its code units, with four digits for each. -/
def numbered (form : Form) (c : Char) : List Char :=
  if form.isJson then (Utf16.encodeChar c).flatMap fun u => '\\' :: 'u' :: Hex.fixed 4 u.toNat
  else if c.val ≤ 0xFF then '\\' :: 'x' :: Hex.fixed 2 c.toNat
  else if c.val ≤ 0xFFFF then '\\' :: 'u' :: Hex.fixed 4 c.toNat
  else '\\' :: 'U' :: Hex.fixed 8 c.toNat

/-- A character of a text that has to be ASCII: as it is, or by its number if it is none. -/
def inAscii (form : Form) (c : Char) : List Char :=
  if c.val < 0x80 then [c] else form.numbered c

theorem isJson_iff {form : Form} : form.isJson = true ↔ form = .json := by
  cases form <;> decide

/-- ASCII is left alone. -/
theorem flatMap_inAscii_of_ascii (form : Form) {cs : List Char} (ascii : ∀ c ∈ cs, c.val < 0x80) :
    cs.flatMap form.inAscii = cs := by
  induction cs with
  | nil => rfl
  | cons c cs ih =>
      obtain ⟨here, others⟩ := List.forall_mem_cons.mp ascii
      rw [List.flatMap_cons, ih others, inAscii, if_pos here]
      rfl

end Form

namespace Spelling

/-- The text of the escapes by number. -/
theorem text_byNumber (form : Form) (c : Char) :
    (byNumber form c).flatMap Escape.text = form.numbered c := by
  have latin : c.val < 0x100 ↔ c.val ≤ 0xFF := by
    rw [UInt32.lt_iff_toNat_lt, UInt32.le_iff_toNat_le]
    exact Nat.lt_succ_iff
  have small : c.val < 0x10000 ↔ c.val ≤ 0xFFFF := by
    rw [UInt32.lt_iff_toNat_lt, UInt32.le_iff_toNat_le]
    exact Nat.lt_succ_iff
  cases json : form.isJson with
  | true =>
      cases Form.isJson_iff.mp json
      rw [Form.numbered, if_pos json]
      by_cases one : c.val < 0x10000
      · rw [text_byNumber_of_small one, Utf16.encodeChar_small one]
        exact (List.append_nil _).symm
      · rw [text_byNumber_of_large one, Utf16.encodeChar_large one, List.flatMap_cons,
          List.flatMap_singleton]
        rfl
  | false =>
      simp only [byNumber, Form.numbered, json, Bool.false_eq_true, if_false, latin, small]
      split
      · exact List.append_nil _
      · split
        · exact List.append_nil _
        · exact List.append_nil _

/-- ASCII is spelled alike for all sinks. -/
theorem ofChar_of_ascii {form : Form} {c : Char} (ascii : c.val < 0x80) (escapesUnicode : Bool) :
    ofChar form escapesUnicode c = ofChar form false c := by
  have latin : c.val < 0x100 := UInt32.lt_trans ascii (by decide)
  rw [ofChar_of_latin latin, ofChar_of_latin latin, decide_eq_true ascii, Bool.true_or,
    Bool.true_or]

end Spelling

namespace Form

/-- An ASCII character is given the same operations for all sinks. -/
theorem charCalls_of_ascii (form : Form) {c : Char} (ascii : c.val < 0x80) (escapesUnicode : Bool) :
    form.charCalls escapesUnicode c = form.charCalls false c := by
  rw [charCalls, charCalls, Spelling.ofChar_of_ascii ascii]

/-- For a sink that escapes, characters are written in ASCII. -/
theorem ascii_of_mem_charText (form : Form) {c d : Char} (member : d ∈ form.charText true c) :
    d.val < 0x80 := by
  rw [← form.flatMap_chars_charCalls] at member
  obtain ⟨call, asked, among⟩ := List.mem_flatMap.mp member
  rcases (form.isAllowed_charCalls true c call asked).prints_or_large among with prints | ⟨holds, _⟩
  · exact prints.ascii
  · cases holds

/-- **A sink that escapes gets numbers for what is beyond ASCII**, and the rest as others do. -/
theorem charText_true_eq (form : Form) (c : Char) :
    form.charText true c = (form.charText false c).flatMap form.inAscii := by
  by_cases ascii : c.val < 0x80
  · have same : form.charText false c = form.charText true c := by
      rw [charText, charText, Spelling.ofChar_of_ascii ascii true]
    rw [same, form.flatMap_inAscii_of_ascii fun d member => form.ascii_of_mem_charText member]
  · have held : form.charText false c = [c] := by
      rw [charText, Spelling.ofChar_of_large ascii]
      rfl
    have escaped : form.charText true c = form.numbered c := by
      rw [charText, Spelling.ofChar_of_large ascii, if_pos rfl]
      exact Spelling.text_byNumber form c
    rw [held, escaped, List.flatMap_singleton, inAscii, if_neg ascii]

end Form

/-! ## Scripts -/

namespace Script

/-- A script for a sink that escapes next to one for a sink that does not: both end alike, and the
text of the first is that of the second in ASCII. -/
structure InAscii (form : Form) (escaping holding : Script) : Prop where
  ending : escaping.ending = holding.ending
  chars : escaping.chars = holding.chars.flatMap form.inAscii

/-- A script that writes ASCII is the same for both kinds of sinks. -/
theorem InAscii.of_ascii (form : Form) {script : Script} (ascii : ∀ c ∈ script.chars, c.val < 0x80) :
    InAscii form script script :=
  ⟨rfl, (form.flatMap_inAscii_of_ascii ascii).symm⟩

/-- A refusal writes nothing, so there is nothing to escape. -/
theorem InAscii.of_fault (form : Form) (fault : Fault) :
    InAscii form (.fault fault) (.fault fault) :=
  ⟨rfl, rfl⟩

/-- Scripts that write a text character by character differ only in the characters beyond ASCII. -/
theorem InAscii.of_calls {form : Form} {cs : List Char} {escaping holding : Script}
    (ends : escaping.ending = holding.ending)
    (escaped : escaping.chars = cs.flatMap (form.charText true))
    (held : holding.chars = cs.flatMap (form.charText false)) : InAscii form escaping holding := by
  refine ⟨ends, ?_⟩
  rw [escaped, held, List.flatMap_assoc]
  exact congrArg cs.flatMap (funext form.charText_true_eq)

/-- Scripts one after the other differ only in what their parts differ in. -/
theorem InAscii.andThen {form : Form} {first second firstHeld secondHeld : Script}
    (before : InAscii form first firstHeld) (after : InAscii form second secondHeld) :
    InAscii form (first.andThen second) (firstHeld.andThen secondHeld) := by
  obtain ⟨calls, ending⟩ := first
  obtain ⟨callsHeld, endingHeld⟩ := firstHeld
  obtain ⟨ends, chars⟩ := before
  cases ends
  cases ending with
  | error fault => exact ⟨rfl, chars⟩
  | ok _ =>
      refine ⟨after.ending, ?_⟩
      change (calls ++ second.calls).flatMap Call.chars =
        ((callsHeld ++ secondHeld.calls).flatMap Call.chars).flatMap form.inAscii
      rw [List.flatMap_append, List.flatMap_append, List.flatMap_append]
      exact congrArg₂ (· ++ ·) chars after.chars

/-- Delimiters and nulls are printable, so quoted scripts differ only in their bodies. -/
theorem InAscii.quoted {quoting : Quoting} (printable : quoting.isPrintable = true)
    {escaping holding : Option Script}
    (inside : Option.Rel (InAscii quoting.form) escaping holding) :
    InAscii quoting.form (.quoted quoting escaping) (.quoted quoting holding) := by
  have around (text : List Char) (member : text ∈ [quoting.delimiter, quoting.absent]) :
      InAscii quoting.form (ofCalls [.ascii text]) (ofCalls [.ascii text]) := by
    apply InAscii.of_ascii
    intro c among
    have allowed := quoting.isAllowed_of_isPrintable printable true member
    obtain ⟨call, asked, among⟩ := List.mem_flatMap.mp among
    cases List.mem_singleton.mp asked
    exact ((allowed _ asked).2 c among).ascii
  cases inside with
  | none => exact around quoting.absent (List.mem_cons_of_mem _ List.mem_cons_self)
  | some bodies =>
      have delimiter := around quoting.delimiter List.mem_cons_self
      exact delimiter.andThen (bodies.andThen delimiter)

end Script

namespace Text

/-- The body of a text, for both kinds of sinks. -/
theorem inAscii_batched (text : Text) (form : Form) :
    Script.InAscii form (text.batched form true) (text.batched form false) :=
  .of_calls rfl (text.chars_batched form true) (text.chars_batched form false)

theorem inAscii_oneByOne (text : Text) (form : Form) :
    Script.InAscii form (text.oneByOne form true) (text.oneByOne form false) :=
  .of_calls rfl (form.flatMap_chars_flatMap_charCalls true text.characters)
    (form.flatMap_chars_flatMap_charCalls false text.characters)

end Text

/-- The body of bytes is ASCII for all sinks. -/
theorem Form.inAscii_byteScript (form : Form) (bytes : List UInt8) :
    Script.InAscii form (form.byteScript bytes) (form.byteScript bytes) := by
  apply Script.InAscii.of_ascii
  intro c member
  rw [form.chars_byteScript] at member
  obtain ⟨d, _, among⟩ := List.mem_flatMap.mp member
  exact form.ascii_of_mem_charText among

/-! ## Renderings -/

namespace Rendering

/-- A way to write a text without delimiters is given its form. -/
theorem Undelimited.form_eq {form : Form} {write : Text → Rendering}
    (undelimited : Undelimited form write) (text : Text) : (write text).form = form := by
  cases undelimited with
  | batched => rfl
  | oneByOne => cases text <;> rfl

/-- **Every plan is the other in ASCII.** -/
theorem inAscii_plan (rendering : Rendering) :
    Script.InAscii rendering.form (rendering.plan true) (rendering.plan false) := by
  have texts (quoting : Quoting) (text : Option Text) (printable : quoting.isPrintable = true) :
      Script.InAscii quoting.form
        (.quoted quoting (text.map (·.batched quoting.form true)))
        (.quoted quoting (text.map (·.batched quoting.form false))) := by
    apply Script.InAscii.quoted printable
    cases text with
    | none => exact .none
    | some text => exact .some (text.inAscii_batched quoting.form)
  have clobs (quoting : Quoting) (bytes : Option (List UInt8))
      (printable : quoting.isPrintable = true) :
      Script.InAscii quoting.form
        (.quoted quoting (bytes.map quoting.form.byteScript))
        (.quoted quoting (bytes.map quoting.form.byteScript)) := by
    apply Script.InAscii.quoted printable
    cases bytes with
    | none => exact .none
    | some bytes => exact .some (quoting.form.inAscii_byteScript bytes)
  cases rendering with
  | string text => exact texts .string text rfl
  | longString text => exact texts .longString text rfl
  | jsonString text => exact texts .json text rfl
  | symbol text quoteOperators =>
      cases text with
      | none => exact texts .symbol none rfl
      | some text =>
          rw [plan, plan, Text.symbolScript, Text.symbolScript]
          -- What decides about quotes is the same on both sides.
          cases Symbol.needsQuotes text quoteOperators with
          | error fault => exact .of_fault _ fault
          | ok quotes =>
              cases quotes with
              | true => exact texts .symbol (some text) rfl
              | false => exact text.inAscii_batched .symbol
  | quotedSymbol text =>
      rw [plan, plan]
      split
      · exact .of_fault _ .emptySymbol
      · exact texts .symbol text rfl
  | clob bytes => exact clobs .clob bytes rfl
  | longClob bytes => exact clobs .longClob bytes rfl
  | jsonClob bytes => exact clobs .jsonClob bytes rfl
  | body text form => exact text.inAscii_batched form
  | codePoint cp form =>
      rw [plan, plan, Form.codePointScript, Form.codePointScript]
      cases cp.toChar? with
      | none => exact .of_fault _ (.notScalar cp)
      | some c =>
          have single (escapesUnicode : Bool) :
              (Script.ofCalls (form.charCalls escapesUnicode c)).chars =
                [c].flatMap (form.charText escapesUnicode) := by
            rw [List.flatMap_singleton]
            exact form.flatMap_chars_charCalls escapesUnicode c
          exact .of_calls rfl (single true) (single false)
  | chars cs form => exact (Text.chars cs).inAscii_oneByOne form
  | units us form => exact (Text.units us).inAscii_oneByOne form

end Rendering

/-! ## Text in ASCII -/

/-- What stands between blocks comes from the list. -/
theorem Blocks.mem_of_mem_cut {α : Type} {isPlain : α → Bool} {as : List α} {part : α × List α}
    (member : part ∈ (cut isPlain as).rest) : part.1 ∈ as := by
  have inside : part.1 ∈ (cut isPlain as).toList :=
    List.mem_append_right _ (List.mem_flatMap.mpr ⟨part, member, List.mem_cons_self⟩)
  rwa [(divide_cut isPlain as).whole] at inside

/-- ASCII is written by the same operations for all sinks. -/
theorem Form.bodyCalls_of_ascii (form : Form) {cs : List Char} (ascii : ∀ c ∈ cs, c.val < 0x80)
    (escapesUnicode : Bool) : form.bodyCalls escapesUnicode cs = form.bodyCalls false cs := by
  rw [bodyCalls_eq_calls, bodyCalls_eq_calls]
  apply Blocks.calls_congr
  intro part member
  exact form.charCalls_of_ascii (ascii part.1 (Blocks.mem_of_mem_cut member)) escapesUnicode

/-- The body of ASCII is planned the same for all sinks. -/
theorem Text.batched_of_ascii {cs : List Char} (ascii : ∀ c ∈ cs, c.val < 0x80) (form : Form)
    (escapesUnicode : Bool) :
    (Text.chars cs).batched form escapesUnicode = (Text.chars cs).batched form false :=
  congrArg (Script.mk · _) (form.bodyCalls_of_ascii ascii escapesUnicode)

/-- A value of ASCII is planned the same for all sinks. -/
theorem Rendering.plan_ofChars_of_ascii {cs : List Char} (ascii : ∀ c ∈ cs, c.val < 0x80)
    (quoteOperators : Bool) (form : Form) (escapesUnicode : Bool) :
    (ofChars cs quoteOperators form).plan escapesUnicode =
      (ofChars cs quoteOperators form).plan false := by
  have body := Text.batched_of_ascii ascii form escapesUnicode
  cases form with
  | shortString => rw [ofChars, plan, plan, Option.map_some, body, Option.map_some]
  | longString => rw [ofChars, plan, plan, Option.map_some, body, Option.map_some]
  | symbol => rw [ofChars, plan, plan, Text.symbolScript, body, Text.symbolScript]
  | clob => rfl
  | json => rw [ofChars, plan, plan, Option.map_some, body, Option.map_some]

/-- A value of ASCII is printed the same in every charset. -/
theorem printWith_of_ascii {value : String} (ascii : ∀ c ∈ value.toList, c.val < 0x80)
    (options : Options) (form : Form) (charset other : Charset) :
    printWith (options.withCharset charset) form value =
      printWith (options.withCharset other) form value := by
  rw [printWith_eq, printWith_eq, Rendering.plan_ofChars_of_ascii ascii,
    Rendering.plan_ofChars_of_ascii ascii (options.withCharset other).quoteOperators]
  rfl

/-! ## Quotes -/

namespace Rendering

variable {σ : Type} {s : Sink σ}

/-- A symbol starts with a quote exactly if it needs quotes. -/
theorem head?_observe_symbol (takes : s.TakesAll) (text : Text) (quoteOperators : Bool) (kept : σ) :
    (s.observe (symbol (some text) quoteOperators) kept).chars.head? = some '\'' ↔
      Symbol.needsQuotes text quoteOperators = .ok true := by
  obtain ⟨left, seen⟩ := Sink.observe_eq_plan takes (symbol (some text) quoteOperators) kept
  rw [seen, plan]
  change (text.symbolScript quoteOperators s.escapesUnicode).chars.head? = some '\'' ↔ _
  cases needed : Symbol.needsQuotes text quoteOperators with
  | error fault =>
      rw [Text.symbolScript, needed]
      refine iff_of_false (fun start => ?_) (fun same => ?_)
      · cases start
      · cases same
  | ok quotes =>
      cases quotes with
      | true =>
          rw [Text.symbolScript, needed]
          exact iff_of_true rfl rfl
      | false =>
          have bare := Text.isPlainSymbol_of_needsQuotes needed
          refine iff_of_false (fun start => ?_) (fun same => ?_)
          · rw [Text.symbolScript_of_unquoted needed] at start
            change (text.characters ++ []).head? = some '\'' at start
            rw [List.append_nil] at start
            exact absurd (bare.plain '\'' (List.mem_of_mem_head? start)) (by decide)
          · cases same

/-- **The charset changes only what is beyond ASCII.** Take a sink that escapes and one that does
not, both of which take all they can be asked for. Every rendering ends alike on both, and the text
that the first is given is the text of the second with each character beyond ASCII replaced by its
numeric escape. That is so for the body of a text in runs or character by character, which is
written to the end if the text is well-formed. A symbol has quotes on both or on neither. A text in
ASCII is printed as the same string for all charsets, and that string is what is written in them. -/
theorem charset_changes_beyond_ascii {τ : Type} {escaping : Sink σ} {holding : Sink τ}
    (takes : escaping.TakesAll) (takesOther : holding.TakesAll)
    (escapes : escaping.escapesUnicode = true) (holds : holding.escapesUnicode = false)
    (kept : σ) (other : τ) :
    (∀ form write text, Undelimited form write → text.WellFormed →
      (escaping.observe (write text) kept).result = .ok () ∧
        (holding.observe (write text) other).result = .ok () ∧
        (escaping.observe (write text) kept).chars =
          (holding.observe (write text) other).chars.flatMap form.inAscii) ∧
      (∀ rendering : Rendering,
        (escaping.observe rendering kept).result = (holding.observe rendering other).result ∧
          (escaping.observe rendering kept).chars =
            (holding.observe rendering other).chars.flatMap rendering.form.inAscii) ∧
      (∀ text quoteOperators,
        let quoted := Symbol.needsQuotes text quoteOperators = .ok true
        ((escaping.observe (symbol (some text) quoteOperators) kept).chars.head? = some '\'' ↔
            quoted) ∧
          ((holding.observe (symbol (some text) quoteOperators) other).chars.head? = some '\'' ↔
            quoted)) ∧
      ∀ (value : String) (options : Options) (form : Form) (charset otherCharset : Charset),
        (∀ c ∈ value.toList, c.val < 0x80) →
        let printed := printWith (options.withCharset otherCharset) form value
        printWith (options.withCharset charset) form value = printed ∧
          ∀ w : ByteWriter, w.limit = none → w.chunk ≠ some 0 →
            Outcome.ofResult (writeTo w (options.withCharset charset) form value #[]) =
              match printed with
              | .ok printed => ⟨.ok (), (charset.encode printed.toList).toArray⟩
              | .error fault => ⟨.error fault, #[]⟩ := by
  -- Both sinks take their plan to the end, so all is said by comparing the plans.
  have whole (rendering : Rendering) :
      (escaping.observe rendering kept).result = (holding.observe rendering other).result ∧
        (escaping.observe rendering kept).chars =
          (holding.observe rendering other).chars.flatMap rendering.form.inAscii := by
    obtain ⟨left, seen⟩ := Sink.observe_eq_plan takes rendering kept
    obtain ⟨leftOther, seenOther⟩ := Sink.observe_eq_plan takesOther rendering other
    rw [seen, seenOther, escapes, holds]
    exact ⟨rendering.inAscii_plan.ending, rendering.inAscii_plan.chars⟩
  refine ⟨?_, whole, ?_, ?_⟩
  · intro form write text undelimited wellFormed
    obtain ⟨left, seen⟩ := Sink.observe_eq_plan takes (write text) kept
    have ends : (escaping.observe (write text) kept).result = .ok () := by
      rw [seen, undelimited.ending_plan, wellFormed.ending]
    obtain ⟨same, chars⟩ := whole (write text)
    rw [undelimited.form_eq] at chars
    exact ⟨ends, same.symm.trans ends, chars⟩
  · intro text quoteOperators quoted
    exact ⟨head?_observe_symbol takes text quoteOperators kept,
      head?_observe_symbol takesOther text quoteOperators other⟩
  · intro value options form charset otherCharset ascii printed
    have same : printWith (options.withCharset charset) form value = printed :=
      printWith_of_ascii ascii options form charset otherCharset
    refine ⟨same, fun w unbounded takes => ?_⟩
    rw [writeTo_eq_printWith unbounded takes, same]
    rfl

/-- DEL and the characters on both sides of `0x80`, `0x100` and `0x10000`, in JSON and in a symbol. -/
theorem charset_changes_beyond_ascii_at_widths :
    let text := Text.units [0x7F, 0x80, 0xFF, 0x100, 0xFFFF, 0xD800, 0xDC00]
    let escaping := Sink.characters true none
    let holding := Sink.characters false none
    (holding.observe (body text .symbol) "").chars =
        ['\\', 'x', '7', 'f', '\x80', 'ÿ', 'Ā', '\uFFFF', '𐀀'] ∧
      (escaping.observe (body text .symbol) "").chars =
        "\\x7f\\x80\\xff\\u0100\\uffff\\U00010000".toList ∧
      (escaping.observe (body text .json) "").chars =
        "\\u007f\\u0080\\u00ff\\u0100\\uffff\\ud800\\udc00".toList ∧
      (escaping.observe (symbol (some text) false) "").chars.head? = some '\'' ∧
      printWith (Options.ascii.withCharset .ascii) .json "a/b" =
        printWith (Options.ascii.withCharset .utf16) .json "a/b" := by
  intro text escaping holding
  have wellFormed : text.WellFormed :=
    .unit rfl (.unit rfl (.unit rfl (.unit rfl (.unit rfl (.pair rfl rfl .nil)))))
  obtain ⟨bodies, _, quotes, ascii⟩ :=
    charset_changes_beyond_ascii (Sink.takesAll_characters true) (Sink.takesAll_characters false)
      rfl rfl "" ""
  have symbol := bodies .symbol _ text .batched wellFormed
  have json := bodies .json _ text .batched wellFormed
  have letters : ∀ c ∈ ['a', '/', 'b'], c.val < 0x80 := by simp
  refine ⟨rfl, symbol.2.2.trans rfl, json.2.2.trans rfl, (quotes text false).1.mpr (by decide), ?_⟩
  exact (ascii "a/b" .ascii .json .ascii .utf16 letters).1

end Rendering

end IonLiteral
