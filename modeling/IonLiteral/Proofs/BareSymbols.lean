import IonLiteral.Proofs.Blocks
import IonLiteral.Proofs.Grammar
import IonLiteral.Proofs.Operators

/-! # Symbols without quotes

A symbol that does not need quotes is made of characters that stand for themselves in symbols, so it
is one run and goes to the sink in one operation, as it is. All other symbols are written in quotes,
as if quotes were asked for. Quoting operators or not makes a difference to operators only.
-/

namespace IonLiteral

/-! ## Bare text -/

/-- A text that can stand in a symbol as it is: not empty, and plain from end to end. -/
structure Text.IsPlainSymbol (text : Text) : Prop where
  wellFormed : text.WellFormed
  something : text.characters ≠ []
  plain : ∀ c ∈ text.characters, Form.symbol.isPlainChar c = true

namespace Symbol

/-- Whether a code point can be part of an identifier or of an operator. -/
def isBarePart (cp : CodePoint) : Bool :=
  Lexical.isIdentifierPart cp || Lexical.isOperatorPart cp

/-- What bare symbols are made of is ASCII. -/
theorem isAscii_isBarePart : Lexical.IsAscii isBarePart := by
  intro cp part
  rcases Bool.or_eq_true_iff.mp part with part | part
  · exact Lexical.isAscii_isIdentifierPart cp part
  · exact Lexical.isAscii_isOperatorPart cp part

/-- What bare symbols are made of stands for itself between quotes, too. -/
theorem isPlainChar_of_isBarePart {c : Char} (part : isBarePart c.val = true) :
    Form.symbol.isPlainChar c = true := by
  rcases Bool.or_eq_true_iff.mp part with part | part
  · exact Form.isPlainChar_of_isIdentifierPart part
  · exact Form.isPlainChar_of_isOperatorPart part

/-- A text that is an identifier or an operator is made of the units of bare symbols. -/
theorem all_isBarePart {us : List CodeUnit} {kind : Kind} (known : kindOfUnits us = .ok kind)
    (bare : kind ≠ .quoted) : ∀ u ∈ us, isBarePart u.toUInt32 = true := by
  intro u member
  have rule := kindOfUnits_eq_iff.mp known
  cases rule with
  | quoted _ _ _ => exact absurd rfl bare
  | identifier name _ =>
      have part := Grammar.forall_mem_of_mem_one_mul Set.subset_union_left name u member
      exact Bool.or_eq_true_iff.mpr (.inl (Grammar.mem_parts_iff.mp part))
  | operator sign =>
      have part := Grammar.forall_mem_of_mem_one_mul Set.Subset.rfl sign u member
      exact Bool.or_eq_true_iff.mpr (.inr (Grammar.mem_operators_iff.mp part))

end Symbol

/-- ASCII has no surrogates. -/
theorem Utf16.wellFormed_of_ascii {us : List CodeUnit} (ascii : ∀ u ∈ us, u.toUInt32 < 0x80) :
    WellFormed us := by
  induction us with
  | nil => exact .nil
  | cons u us ih =>
      obtain ⟨here, others⟩ := List.forall_mem_cons.mp ascii
      refine .unit (Bool.eq_false_iff.mpr fun surrogate => ?_) (ih others)
      have high := (CodeUnit.isSurrogate_iff.mp surrogate).1
      have low : u.toUInt32.toNat < 0x80 := UInt32.lt_iff_toNat_lt.mp here
      rw [UInt16.toNat_toUInt32] at low
      omega

/-- **Identifiers and operators are plain throughout**, however they are given. -/
theorem Text.isPlainSymbol_of_kind {text : Text} {kind : Symbol.Kind}
    (known : Symbol.kind text = .ok kind) (bare : kind ≠ .quoted) : text.IsPlainSymbol := by
  have parts := Symbol.all_isBarePart known bare
  have wellFormed : text.WellFormed := by
    cases text with
    | chars cs => trivial
    | units us =>
        apply Utf16.wellFormed_of_ascii
        intro u member
        exact Symbol.isAscii_isBarePart _ (parts u member)
  have spelled := wellFormed.spelled_out.2
  refine ⟨wellFormed, ?_, ?_⟩
  · intro nothing
    rw [nothing] at spelled
    rw [Symbol.kind, spelled] at known
    cases known
  · have all : (text.codeUnits.all fun u => Symbol.isBarePart u.toUInt32) = true :=
      List.all_eq_true.mpr parts
    rw [spelled, Symbol.isAscii_isBarePart.all_encode, List.all_eq_true] at all
    intro c member
    exact Symbol.isPlainChar_of_isBarePart (all c member)

/-! ## One run -/

/-- The body of plain characters is one operation. -/
theorem Form.bodyCalls_of_plain {form : Form} {cs : List Char} (something : cs ≠ [])
    (plain : ∀ c ∈ cs, form.isPlainChar c = true) (escapesUnicode : Bool) :
    form.bodyCalls escapesUnicode cs = [.ascii cs] := by
  have unescaped : ∀ c ∈ cs, form.isUnescaped c = true := by
    intro c member
    rw [form.isUnescaped_eq, plain c member]
  have whole := Blocks.cut_append unescaped []
  rw [List.append_nil] at whole
  rw [form.bodyCalls_eq_calls, whole, Blocks.cut, List.append_nil, Blocks.calls, Blocks.runCalls,
    List.map_id, if_neg (mt List.isEmpty_iff.mp something), List.flatMap_nil, List.append_nil]

namespace Text

variable {text : Text}

/-- The characters of a plain symbol are ASCII. -/
theorem IsPlainSymbol.ascii (bare : text.IsPlainSymbol) : ∀ c ∈ text.characters, c.val < 0x80 := by
  intro c member
  exact of_decide_eq_true (Bool.and_eq_true_iff.mp (bare.plain c member)).1

/-- **Bare text is one run.** -/
theorem IsPlainSymbol.batched_eq (bare : text.IsPlainSymbol) (escapesUnicode : Bool) :
    text.batched .symbol escapesUnicode = .ofCalls [.ascii text.characters] := by
  rw [batched, Form.bodyCalls_of_plain bare.something bare.plain, bare.wellFormed.ending]
  rfl

/-- Operators are plain symbols. -/
theorem isPlainSymbol_of_operator (known : Symbol.kind text = .ok .operator) :
    text.IsPlainSymbol := by
  apply isPlainSymbol_of_kind known
  intro same
  cases same

/-- What stands without quotes is a plain symbol. -/
theorem isPlainSymbol_of_needsQuotes {quoteOperators : Bool}
    (unquoted : Symbol.needsQuotes text quoteOperators = .ok false) : text.IsPlainSymbol := by
  rcases Symbol.needsQuotes_eq_false_iff.mp unquoted with known | ⟨known, _⟩
  · apply isPlainSymbol_of_kind known
    intro same
    cases same
  · exact isPlainSymbol_of_operator known

/-- A symbol without quotes is one operation, which puts its text. -/
theorem symbolScript_of_unquoted {quoteOperators : Bool}
    (unquoted : Symbol.needsQuotes text quoteOperators = .ok false) (escapesUnicode : Bool) :
    text.symbolScript quoteOperators escapesUnicode = .ofCalls [.ascii text.characters] := by
  rw [symbolScript, unquoted]
  exact (isPlainSymbol_of_needsQuotes unquoted).batched_eq escapesUnicode

end Text

/-! ## Symbols -/

/-- Only for an operator the answer depends on whether operators get quotes. -/
theorem Symbol.needsQuotes_congr {text : Text} (other : kind text ≠ .ok .operator)
    (quoteOperators quotesInstead : Bool) :
    needsQuotes text quoteOperators = needsQuotes text quotesInstead := by
  rw [needsQuotes, needsQuotes]
  cases known : kind text with
  | error fault => rfl
  | ok found =>
      cases found with
      | identifier => rfl
      | quoted => rfl
      | operator => exact absurd known other

/-- An empty text is refused, whether operators get quotes or not. -/
theorem Symbol.needsQuotes_of_isEmpty {text : Text} (empty : text.isEmpty = true)
    (quoteOperators : Bool) : needsQuotes text quoteOperators = .error .emptySymbol := by
  rw [needsQuotes_eq_error_iff, kind, codeUnits_eq_nil_iff.mpr empty, kindOfUnits]

namespace Rendering

variable {σ : Type} {text : Text} {quoteOperators : Bool}

/-- A symbol that needs quotes is planned as the same symbol in quotes is. -/
theorem plan_symbol_of_quoted (quoted : Symbol.needsQuotes text quoteOperators = .ok true)
    (escapesUnicode : Bool) :
    (symbol (some text) quoteOperators).plan escapesUnicode =
      (quotedSymbol (some text)).plan escapesUnicode := by
  have something : text.isEmpty = false := by
    rw [Bool.eq_false_iff]
    intro empty
    rw [Symbol.needsQuotes_of_isEmpty empty] at quoted
    cases quoted
  rw [plan, Text.symbolScript, quoted, plan, Option.any_some, something,
    if_neg Bool.false_ne_true]
  rfl

/-- For an empty text both ways to write a symbol plan the same refusal. -/
theorem plan_symbol_of_isEmpty (empty : text.isEmpty = true) (quoteOperators : Bool)
    (escapesUnicode : Bool) :
    (symbol (some text) quoteOperators).plan escapesUnicode = .fault .emptySymbol ∧
      (quotedSymbol (some text)).plan escapesUnicode = .fault .emptySymbol := by
  constructor
  · rw [plan, Text.symbolScript, Symbol.needsQuotes_of_isEmpty empty]
  · rw [plan, Option.any_some, empty, if_pos rfl]

/-- A rendering that plans nothing but a fault asks for nothing and ends with it. -/
theorem observe_of_fault {s : Sink σ} {rendering : Rendering} {fault : Fault}
    (planned : rendering.plan s.escapesUnicode = .fault fault) (kept : σ) :
    s.observe rendering kept = ⟨.error fault, [], kept⟩ := by
  have taken : s.Takes kept (rendering.plan s.escapesUnicode).calls kept := by
    rw [planned]
    exact .nil kept
  rw [taken.observe_eq_plan, planned]
  rfl

/-- **A symbol is written as it is or in quotes.** If it needs no quotes, its text goes to the sink
in one operation, whose result is that of the rendering. If it needs them, it is written as if
quotes were asked for. An empty text is refused with nothing asked of the sink. So quoting operators
makes a difference to operators only: these are written as they are or between quotes. -/
theorem symbol_bare_or_quoted (s : Sink σ) (kept : σ) (text : Text) :
    let seen quoteOperators := s.observe (symbol (some text) quoteOperators) kept
    let quoted := s.observe (quotedSymbol (some text)) kept
    (∀ quoteOperators, Symbol.needsQuotes text quoteOperators = .ok false →
      text.codeUnits = Utf16.encode text.characters ∧ (∀ c ∈ text.characters, c.val < 0x80) ∧
        (seen quoteOperators).calls = [.ascii text.characters] ∧
        (seen quoteOperators).outcome = .ofResult (s.putAscii text.characters kept)) ∧
      (∀ quoteOperators, Symbol.needsQuotes text quoteOperators = .ok true →
        seen quoteOperators = quoted) ∧
      (text.isEmpty = true →
        (∀ quoteOperators, seen quoteOperators = ⟨.error .emptySymbol, [], kept⟩) ∧
          quoted = ⟨.error .emptySymbol, [], kept⟩) ∧
      (Symbol.kind text ≠ .ok .operator → seen true = seen false) ∧
      (Symbol.kind text = .ok .operator →
        (symbol (some text) false).script s.escapesUnicode = .ofCalls [.ascii text.characters] ∧
          (symbol (some text) true).script s.escapesUnicode =
            .ofCalls [.ascii ['\''], .ascii text.characters, .ascii ['\'']]) := by
  intro seen quoted
  refine ⟨?_, ?_, ?_, ?_, ?_⟩
  · intro quoteOperators unquoted
    have bare := Text.isPlainSymbol_of_needsQuotes unquoted
    have follows := s.follows_plan (symbol (some text) quoteOperators) kept
    rw [plan, Text.symbolScript_of_unquoted unquoted] at follows
    exact ⟨bare.wellFormed.spelled_out.2, bare.ascii, follows.of_singleton⟩
  · intro quoteOperators needed
    exact observe_congr (plan_symbol_of_quoted needed s.escapesUnicode) kept
  · intro empty
    refine ⟨fun quoteOperators => ?_, ?_⟩
    · exact observe_of_fault (plan_symbol_of_isEmpty empty quoteOperators s.escapesUnicode).1 kept
    · exact observe_of_fault (plan_symbol_of_isEmpty empty true s.escapesUnicode).2 kept
  · intro other
    apply observe_congr
    rw [plan, plan, Text.symbolScript, Symbol.needsQuotes_congr other true false]
    rfl
  · intro operator
    have bare := Text.isPlainSymbol_of_operator operator
    have unquoted := Symbol.needsQuotes_eq_false_iff.mpr (.inr ⟨operator, rfl⟩)
    refine ⟨?_, ?_⟩
    · rw [script_eq_plan, plan, Text.symbolScript_of_unquoted unquoted]
    · rw [script_eq_plan, plan, Text.symbolScript, Symbol.needsQuotes, operator]
      dsimp only
      rw [bare.batched_eq]
      rfl

/-- An operator on a string with no room for it, a keyword, and nothing at all. -/
theorem symbol_bare_or_quoted_without_room :
    let s := Sink.characters false (some 1)
    let operator := Text.units [0x3C, 0x3D]
    let keyword := Text.chars ['n', 'a', 'n']
    (s.observe (symbol (some operator) false) "").calls = [.ascii ['<', '=']] ∧
      (s.observe (symbol (some operator) false) "").outcome = ⟨.error .characterTarget, ""⟩ ∧
      (symbol (some operator) true).script false =
        .ofCalls [.ascii ['\''], .ascii ['<', '='], .ascii ['\'']] ∧
      s.observe (symbol (some keyword) false) "" = s.observe (quotedSymbol (some keyword)) "" ∧
      s.observe (symbol (some keyword) true) "" = s.observe (symbol (some keyword) false) "" ∧
      s.observe (symbol (some (.units [])) false) "" = ⟨.error .emptySymbol, [], ""⟩ := by
  intro s operator keyword
  have kind : Symbol.kind operator = .ok .operator := by decide
  have unquoted : Symbol.needsQuotes operator false = .ok false := by decide
  have needed : Symbol.needsQuotes keyword false = .ok true := by decide
  have noOperator : Symbol.kind keyword ≠ .ok .operator := by decide
  obtain ⟨_, _, calls, outcome⟩ := (symbol_bare_or_quoted s "" operator).1 false unquoted
  exact ⟨calls, outcome.trans rfl, ((symbol_bare_or_quoted s "" operator).2.2.2.2 kind).2,
    (symbol_bare_or_quoted s "" keyword).2.1 false needed,
    (symbol_bare_or_quoted s "" keyword).2.2.2.1 noOperator,
    ((symbol_bare_or_quoted s "" (.units [])).2.2.1 rfl).1 false⟩

end Rendering

end IonLiteral
