import IonLiteral.Proofs.Kinds
import IonLiteral.Proofs.Strings
import Mathlib.Data.List.TakeDrop

/-! # Symbols are read back

A symbol is written bare only if it is an identifier that means nothing else. Then a reader takes
all of it, and no more, for that symbol. In quotes it is read like a string, and since there is no
empty symbol its opening quote is not taken for the first of three.
-/

namespace IonLiteral

/-! ## Identifiers and operators -/

/-- Characters that are read as the symbol of that text where they stand bare. -/
inductive Symbol.IsBare : List Char → Prop
  | identifier {c : Char} {cs : List Char} (start : Lexical.isIdentifierStart c.val = true)
      (parts : ∀ d ∈ cs, Lexical.isIdentifierPart d.val = true)
      (free : Reader.isReserved (c :: cs) = false) : IsBare (c :: cs)

/-- Characters that are all part of operators. -/
def Symbol.IsOperator (cs : List Char) : Prop :=
  ∀ c ∈ cs, Lexical.isOperatorPart c.val = true

/-- What starts like an identifier is no operator. -/
theorem Symbol.not_isOperator {c : Char} (start : Lexical.isIdentifierStart c.val = true)
    (cs : List Char) : ¬ IsOperator (c :: cs) := by
  intro operator
  rw [Lexical.isIdentifierStart_of_isOperatorPart (operator c List.mem_cons_self)] at start
  cases start

/-- What is reserved looks like an identifier. -/
theorem Reader.isIdentifierStart_of_isReserved {c : Char} {cs : List Char}
    (reserved : isReserved (c :: cs) = true) : Lexical.isIdentifierStart c.val = true := by
  have each : (Symbol.keywords.all fun keyword =>
      keyword.head?.all fun c => Lexical.isIdentifierStart c.val) = true := by decide
  rcases Bool.or_eq_true_iff.mp reserved with keyword | identifier
  · exact List.all_eq_true.mp each _ (List.contains_iff_mem.mp keyword)
  · split at identifier
    · rename_i same
      cases same
      rfl
    · cases identifier

namespace Reader

/-- The longest run of characters of a class ends where the first stranger stands. -/
theorem span_append {P : Char → Bool} {cs rest : List Char} (all : ∀ d ∈ cs, P d = true)
    (ends : ∀ d ∈ rest.head?, P d = false) : (cs ++ rest).span P = (cs, rest) := by
  have stop : rest.takeWhile P = [] ∧ rest.dropWhile P = rest := by
    cases rest with
    | nil => exact ⟨rfl, rfl⟩
    | cons e rest =>
        rw [List.takeWhile_cons, List.dropWhile_cons, ends e rfl]
        exact ⟨rfl, rfl⟩
  rw [List.span_eq_takeWhile_dropWhile, List.takeWhile_append_of_pos all,
    List.dropWhile_append_of_pos all, stop.1, stop.2, List.append_nil]

/-- **Identifiers are read to their ends.** -/
theorem identifier_append {c : Char} {cs rest : List Char}
    (start : Lexical.isIdentifierStart c.val = true)
    (parts : ∀ d ∈ cs, Lexical.isIdentifierPart d.val = true)
    (ends : ∀ d ∈ rest.head?, Lexical.isIdentifierPart d.val = false) :
    identifier (c :: cs ++ rest) = (c :: cs, rest) := by
  have all : ∀ d ∈ c :: cs, Lexical.isIdentifierPart d.val = true :=
    List.forall_mem_cons.mpr ⟨Lexical.isIdentifierPart_of_isIdentifierStart start, parts⟩
  change (if _ then _ else _) = _
  rw [if_pos start, span_append all ends]

/-- What starts with no quote is read as an identifier, a keyword or a null. -/
theorem symbol?_of_ne {c : Char} (noQuote : c ≠ '\'') (cs : List Char) :
    symbol? (c :: cs) =
      if (identifier (c :: cs)).1.isEmpty then none
      else if (identifier (c :: cs)).1 = ['n', 'u', 'l', 'l'] then
        (following? ".symbol".toList (identifier (c :: cs)).2).map fun rest => (none, rest)
      else if isReserved (identifier (c :: cs)).1 then none
      else some (some (identifier (c :: cs)).1, (identifier (c :: cs)).2) := by
  unfold symbol?
  split
  · rename_i same
    cases same
    exact absurd rfl noQuote
  · rfl

/-- A bare identifier is read as the symbol of that text. -/
theorem symbol?_of_isBare {cs rest : List Char} (bare : Symbol.IsBare cs)
    (ends : ∀ c ∈ rest.head?, Lexical.isIdentifierPart c.val = false) :
    symbol? (cs ++ rest) = some (some cs, rest) := by
  obtain @⟨c, cs, start, parts, free⟩ := bare
  have token := identifier_append start parts ends
  have noQuote : c ≠ '\'' := by
    rintro rfl
    cases start
  have notNull : c :: cs ≠ ['n', 'u', 'l', 'l'] := fun same => by
    rw [same] at free
    cases free
  rw [List.cons_append] at token ⊢
  rw [symbol?_of_ne noQuote, token]
  dsimp only [List.isEmpty_cons]
  rw [if_neg Bool.false_ne_true, if_neg notNull, free, if_neg Bool.false_ne_true]

theorem symbol?_absent (rest : List Char) :
    symbol? ("null.symbol".toList ++ rest) = some (none, rest) := by
  have token : identifier ('n' :: ['u', 'l', 'l'] ++ (".symbol".toList ++ rest)) =
      (['n', 'u', 'l', 'l'], ".symbol".toList ++ rest) := by
    refine identifier_append rfl (List.all_eq_true.mp (by decide)) ?_
    intro c first
    cases first
    rfl
  change symbol? ('n' :: (['u', 'l', 'l'] ++ (".symbol".toList ++ rest))) = _
  rw [List.cons_append] at token
  rw [symbol?_of_ne (by decide), token]
  exact congrArg (fun read : Option (List Char) => read.map fun rest => (none, rest))
    (following?_append ".symbol".toList rest)

theorem symbol?_quoted (cs : List Char) :
    symbol? ('\'' :: cs) =
      (quotedSymbol? ('\'' :: cs)).map fun (text, rest) => (some text, rest) := rfl

/-- One quote is not taken for three if something else follows it. -/
theorem quotedSymbol?_of_ne {c : Char} (noQuote : c ≠ '\'') (cs : List Char) :
    quotedSymbol? ('\'' :: c :: cs) = quoted? (ionText false) ['\''] ('\'' :: c :: cs) := by
  unfold quotedSymbol?
  split
  · rename_i same
    cases same
    exact absurd rfl noQuote
  · rfl

end Reader

/-! ## Bare symbols -/

/-- The characters of identifiers stand for themselves between quotes, too. -/
theorem Form.isPlainChar_of_isIdentifierPart {c : Char}
    (part : Lexical.isIdentifierPart c.val = true) : symbol.isPlainChar c = true := by
  have each : ∀ n < 0x80, Lexical.isIdentifierPart (Char.ofNat n).val = true →
      symbol.isPlainChar (Char.ofNat n) = true := by
    decide +kernel
  exact forall_ascii (P := fun c => Lexical.isIdentifierPart c.val = true →
    symbol.isPlainChar c = true) each (Lexical.isAscii_isIdentifierPart c.val part) part

/-- Plain characters are written as they are. -/
theorem Form.flatMap_charText_of_plain {form : Form} {cs : List Char}
    (plain : ∀ c ∈ cs, form.isPlainChar c = true) (escapesUnicode : Bool) :
    cs.flatMap (form.charText escapesUnicode) = cs := by
  induction cs with
  | nil => rfl
  | cons c cs ih =>
      have others := ih fun d member => plain d (List.mem_cons_of_mem c member)
      rw [List.flatMap_cons, others, charText,
        Spelling.ofChar_of_plain (plain c List.mem_cons_self)]
      rfl

/-- A bare identifier is written as its text. -/
theorem Symbol.IsBare.flatMap_charText {cs : List Char} (bare : IsBare cs) (escapesUnicode : Bool) :
    cs.flatMap (Form.symbol.charText escapesUnicode) = cs := by
  obtain ⟨start, parts, _⟩ := bare
  refine Form.flatMap_charText_of_plain (fun c member => ?_) escapesUnicode
  apply Form.isPlainChar_of_isIdentifierPart
  rcases List.mem_cons.mp member with rfl | member
  · exact Lexical.isIdentifierPart_of_isIdentifierStart start
  · exact parts c member

/-- A well-formed text is empty when it has no characters. -/
theorem Text.WellFormed.isEmpty_characters {text : Text} (wellFormed : text.WellFormed) :
    text.characters.isEmpty = text.isEmpty := by
  have units := wellFormed.spelled_out.2
  cases text with
  | chars cs => rfl
  | units us => exact (Symbol.isEmpty_encode _).symm.trans (congrArg List.isEmpty units.symm)

/-- The three ways to write a symbol, each with what makes it the right one. -/
inductive Text.SymbolRule (text : Text) (quoteOperators escapesUnicode : Bool) : Script → Prop
  | quoted (needed : quoteOperators = true ∨ ¬ Symbol.IsOperator text.characters) :
      SymbolRule text quoteOperators escapesUnicode
        (.quoted .symbol (some (text.batched .symbol escapesUnicode)))
  | identifier (bare : Symbol.IsBare text.characters) :
      SymbolRule text quoteOperators escapesUnicode (text.batched .symbol escapesUnicode)
  | operator (unquoted : quoteOperators = false) (operator : Symbol.IsOperator text.characters) :
      SymbolRule text quoteOperators escapesUnicode (text.batched .symbol escapesUnicode)

/-- **Bare or in quotes.** A text is written bare only if it is an identifier that is not reserved,
or an operator where operators get no quotes. -/
theorem Text.WellFormed.symbolRule {text : Text} (wellFormed : text.WellFormed)
    (notEmpty : text.isEmpty = false) (quoteOperators escapesUnicode : Bool) :
    text.SymbolRule quoteOperators escapesUnicode
      (text.symbolScript quoteOperators escapesUnicode) := by
  rw [← wellFormed.isEmpty_characters] at notEmpty
  unfold symbolScript Symbol.needsQuotes Symbol.kind
  rw [wellFormed.spelled_out.2]
  cases chars : text.characters with
  | nil =>
      rw [chars] at notEmpty
      cases notEmpty
  | cons c cs =>
      have inQuotes (other : ¬ Symbol.IsOperator (c :: cs)) :
          text.SymbolRule quoteOperators escapesUnicode
            (.quoted .symbol (some (text.batched .symbol escapesUnicode))) :=
        .quoted (.inr (chars ▸ other))
      -- The cases of the classifier again, on characters instead of units.
      rw [Symbol.kindOfUnits_encode]
      by_cases reserved : Reader.isReserved (c :: cs) = true
      · rw [if_pos reserved]
        exact inQuotes (Symbol.not_isOperator (Reader.isIdentifierStart_of_isReserved reserved) cs)
      rw [if_neg reserved]
      by_cases start : Lexical.isIdentifierStart c.val = true
      · rw [if_pos start]
        by_cases parts : (cs.all fun d => Lexical.isIdentifierPart d.val) = true
        · have free := Bool.eq_false_iff.mpr reserved
          rw [if_pos parts]
          exact .identifier (chars ▸ .identifier start (List.all_eq_true.mp parts) free)
        · rw [if_neg parts]
          exact inQuotes (Symbol.not_isOperator start cs)
      rw [if_neg start]
      by_cases first : Lexical.isOperatorPart c.val = true
      · rw [if_pos first]
        by_cases others : (cs.all fun d => Lexical.isOperatorPart d.val) = true
        · rw [if_pos others]
          cases quoteOperators with
          | true => exact .quoted (.inl rfl)
          | false =>
              exact .operator rfl
                (chars ▸ List.forall_mem_cons.mpr ⟨first, List.all_eq_true.mp others⟩)
        · rw [if_neg others]
          exact inQuotes fun operator =>
            others (List.all_eq_true.mpr (List.forall_mem_cons.mp operator).2)
      · rw [if_neg first]
        exact inQuotes fun operator => first (operator c List.mem_cons_self)

/-! ## Values -/

namespace Reader

/-- What is read here is no keyword and no symbol identifier, so no null of a type either, and no
string. -/
structure OnlySymbol (cs : List Char) : Prop where
  free : isReserved (identifier cs).1 = false
  noString : string? cs = none
  noLongString : longString? cs = none

/-- A bare identifier is read as nothing but a symbol. -/
theorem OnlySymbol.of_isBare {cs rest : List Char} (bare : Symbol.IsBare cs)
    (ends : ∀ c ∈ rest.head?, Lexical.isIdentifierPart c.val = false) :
    OnlySymbol (cs ++ rest) := by
  obtain @⟨c, cs, start, parts, free⟩ := bare
  have noDouble : c ≠ '"' := by
    rintro rfl
    cases start
  have noSingle : c ≠ '\'' := by
    rintro rfl
    cases start
  refine ⟨?_, ?_, ?_⟩
  · rw [identifier_append start parts ends]
    exact free
  · unfold string? quoted?
    rw [List.cons_append, following?_of_ne noDouble]
  · unfold longString? quoted?
    rw [List.cons_append, following?_of_ne noSingle]

/-- What starts with one quote is read as nothing but a symbol. -/
theorem OnlySymbol.of_quoted {c : Char} (noQuote : c ≠ '\'') (cs : List Char) :
    OnlySymbol ('\'' :: c :: cs) := by
  refine ⟨rfl, ?_, ?_⟩
  · unfold string? quoted?
    rw [following?_of_ne (by decide)]
  · have other : following? ['\'', '\'', '\''] ('\'' :: c :: cs) = none := by
      rw [following?, if_pos rfl, following?_of_ne noQuote]
    unfold longString? quoted?
    rw [other]

/-- What stands for a value does not begin like the delimiter. -/
theorem Spells.exists_cons {α : Type} {dialect : Dialect α} {quote : Char} {a : α}
    {text : List Char} (spells : Spells dialect quote a text) (notEscape : quote ≠ '\\') :
    ∃ c tail, text = c :: tail ∧ c ≠ quote := by
  cases spells with
  | plain noEscape noQuote allowed => exact ⟨_, [], rfl, noQuote⟩
  | escape read => exact ⟨'\\', _, rfl, notEscape.symm⟩

end Reader

/-- The body of a symbol in quotes is not empty and starts with no quote, so the opening quote is
followed by something else. -/
theorem Text.WellFormed.exists_cons_body {text : Text} (wellFormed : text.WellFormed)
    (notEmpty : text.isEmpty = false) (escapesUnicode : Bool) (rest : List Char) :
    ∃ c tail, text.characters.flatMap (Form.symbol.charText escapesUnicode) ++ rest = c :: tail ∧
      c ≠ '\'' := by
  rw [← wellFormed.isEmpty_characters] at notEmpty
  cases chars : text.characters with
  | nil =>
      rw [chars] at notEmpty
      cases notEmpty
  | cons first others =>
      have spells := Form.symbol.spells_charText rfl escapesUnicode first
      obtain ⟨c, tail, spelled, noQuote⟩ := spells.exists_cons (by decide)
      rw [List.flatMap_cons, spelled]
      exact ⟨c, _, rfl, noQuote⟩

namespace Rendering

/-- The ways to write a symbol where a value is expected: in quotes always, or only if need be. -/
def valueSymbol (alwaysQuoted : Bool) (text : Option Text) : Rendering :=
  if alwaysQuoted then quotedSymbol text else symbol text true

/-- An absent symbol is planned as its null. -/
theorem plan_valueSymbol_none (alwaysQuoted escapesUnicode : Bool) :
    (valueSymbol alwaysQuoted none).plan escapesUnicode = .quoted .symbol none := by
  cases alwaysQuoted <;> rfl

/-- A symbol is planned in quotes, or bare if it is an identifier. -/
theorem plan_valueSymbol_some (alwaysQuoted escapesUnicode : Bool) {text : Text}
    (wellFormed : text.WellFormed) (notEmpty : text.isEmpty = false) :
    (valueSymbol alwaysQuoted (some text)).plan escapesUnicode =
        .quoted .symbol (some (text.batched .symbol escapesUnicode)) ∨
      ((valueSymbol alwaysQuoted (some text)).plan escapesUnicode =
          text.batched .symbol escapesUnicode ∧
        Symbol.IsBare text.characters) := by
  cases alwaysQuoted with
  | false =>
      have planned : (valueSymbol false (some text)).plan escapesUnicode =
          text.symbolScript true escapesUnicode := rfl
      have rule := wellFormed.symbolRule notEmpty true escapesUnicode
      rw [planned]
      generalize text.symbolScript true escapesUnicode = script at rule
      cases rule with
      | quoted needed => exact .inl rfl
      | identifier bare => exact .inr ⟨rfl, bare⟩
      | operator unquoted operator => cases unquoted
  | true =>
      refine .inl ?_
      change (quotedSymbol (some text)).plan escapesUnicode = _
      rw [plan, Option.any_some, notEmpty]
      rfl

variable {σ : Type} {s : Sink σ}

theorem symbol?_observe_none (takes : s.TakesAll) (alwaysQuoted : Bool) (kept : σ)
    (rest : List Char) :
    (s.observe (valueSymbol alwaysQuoted none) kept).result = .ok () ∧
      Reader.symbol? ((s.observe (valueSymbol alwaysQuoted none) kept).chars ++ rest) =
        some (none, rest) := by
  obtain ⟨left, seen⟩ := Sink.observe_eq_plan takes (valueSymbol alwaysQuoted none) kept
  rw [seen, plan_valueSymbol_none]
  exact ⟨rfl, Reader.symbol?_absent rest⟩

/-- A symbol in quotes is read from its opening quote, which something else follows. -/
theorem exists_cons_observe_quoted (takes : s.TakesAll) {rendering : Rendering} {text : Text}
    (wellFormed : text.WellFormed) (notEmpty : text.isEmpty = false)
    (planned : rendering.plan s.escapesUnicode =
      .quoted .symbol (some (text.batched .symbol s.escapesUnicode))) (kept : σ)
    (rest : List Char) :
    (s.observe rendering kept).result = .ok () ∧ ∃ c tail,
      (s.observe rendering kept).chars ++ rest = '\'' :: c :: tail ∧ c ≠ '\'' ∧
        Reader.quotedSymbol? ('\'' :: c :: tail) = some (text.characters, rest) := by
  obtain ⟨result, reads⟩ := takes.observe_text_reads_back .symbol wellFormed planned rfl
    (Form.symbol.spells_charText rfl s.escapesUnicode) kept rest
  have seen := (Sink.observe_quoted takes planned wellFormed.ending kept).2
  obtain ⟨c, tail, start, noQuote⟩ :=
    wellFormed.exists_cons_body notEmpty s.escapesUnicode ('\'' :: rest)
  have opening : (s.observe rendering kept).chars ++ rest = '\'' :: c :: tail := by
    rw [seen, Text.chars_batched, List.append_assoc, List.append_assoc]
    exact congrArg ('\'' :: ·) start
  rw [opening] at reads
  refine ⟨result, c, tail, opening, noQuote, ?_⟩
  rw [Reader.quotedSymbol?_of_ne noQuote]
  exact reads

/-- A symbol without quotes is its text, if all of that is written as it is. -/
theorem observe_unquoted (takes : s.TakesAll) {rendering : Rendering} {text : Text}
    (wellFormed : text.WellFormed)
    (planned : rendering.plan s.escapesUnicode = text.batched .symbol s.escapesUnicode)
    (plain : text.characters.flatMap (Form.symbol.charText s.escapesUnicode) = text.characters)
    (kept : σ) :
    (s.observe rendering kept).result = .ok () ∧
      (s.observe rendering kept).chars = text.characters := by
  obtain ⟨left, seen⟩ := Sink.observe_eq_plan takes rendering kept
  have chars := text.chars_batched .symbol s.escapesUnicode
  rw [seen, planned]
  exact ⟨wellFormed.ending, chars.trans plain⟩

/-- A symbol is read back with its text, and as nothing else. -/
theorem symbol?_observe_some (takes : s.TakesAll) (alwaysQuoted : Bool) {text : Text}
    (wellFormed : text.WellFormed) (notEmpty : text.isEmpty = false) (kept : σ) {rest : List Char}
    (ends : ∀ c ∈ rest.head?, Lexical.isIdentifierPart c.val = false) :
    (s.observe (valueSymbol alwaysQuoted (some text)) kept).result = .ok () ∧
      Reader.symbol? ((s.observe (valueSymbol alwaysQuoted (some text)) kept).chars ++ rest) =
        some (some text.characters, rest) ∧
      Reader.OnlySymbol
        ((s.observe (valueSymbol alwaysQuoted (some text)) kept).chars ++ rest) := by
  rcases plan_valueSymbol_some alwaysQuoted s.escapesUnicode wellFormed notEmpty with
    planned | ⟨planned, bare⟩
  · obtain ⟨result, c, tail, opening, noQuote, reads⟩ :=
      exists_cons_observe_quoted takes wellFormed notEmpty planned kept rest
    rw [opening, Reader.symbol?_quoted, reads]
    exact ⟨result, rfl, .of_quoted noQuote tail⟩
  · obtain ⟨result, chars⟩ :=
      observe_unquoted takes wellFormed planned (bare.flatMap_charText s.escapesUnicode) kept
    rw [chars]
    exact ⟨result, Reader.symbol?_of_isBare bare ends, .of_isBare bare ends⟩

/-- A symbol is read back, be it there or absent. -/
theorem symbol?_observe (takes : s.TakesAll) (alwaysQuoted : Bool) {text : Option Text}
    (wellFormed : ∀ t ∈ text, t.WellFormed ∧ t.isEmpty = false) (kept : σ) {rest : List Char}
    (ends : ∀ c ∈ rest.head?, Lexical.isIdentifierPart c.val = false) :
    (s.observe (valueSymbol alwaysQuoted text) kept).result = .ok () ∧
      Reader.symbol? ((s.observe (valueSymbol alwaysQuoted text) kept).chars ++ rest) =
        some (text.map Text.characters, rest) := by
  cases text with
  | none => exact symbol?_observe_none takes alwaysQuoted kept rest
  | some t =>
      obtain ⟨wellFormed, notEmpty⟩ := wellFormed t rfl
      obtain ⟨result, reads, _⟩ :=
        symbol?_observe_some takes alwaysQuoted wellFormed notEmpty kept ends
      exact ⟨result, reads⟩

/-- Well-formed symbols with the same characters have the same units. -/
theorem map_codeUnits_congr {text other : Option Text} (wellFormed : ∀ t ∈ text, t.WellFormed)
    (otherWellFormed : ∀ t ∈ other, t.WellFormed)
    (same : text.map Text.characters = other.map Text.characters) :
    text.map Text.codeUnits = other.map Text.codeUnits := by
  cases text with
  | none =>
      cases other with
      | none => rfl
      | some u => cases same
  | some t =>
      cases other with
      | none => cases same
      | some u =>
          exact congrArg some ((wellFormed t rfl).codeUnits_congr (otherWellFormed u rfl)
            (Option.some.inj same))

/-- **Symbols are read back.** A symbol that is written where a value is expected, bare or in
quotes, is read back with its text, or as absent if it has none, as long as no identifier goes on
behind it. One that has a text is read as nothing else, and no two symbols are written alike. -/
theorem symbols_read_back (takes : s.TakesAll) (alwaysQuoted : Bool) {text : Option Text}
    (wellFormed : ∀ t ∈ text, t.WellFormed ∧ t.isEmpty = false) (kept : σ) {rest : List Char}
    (ends : ∀ c ∈ rest.head?, Lexical.isIdentifierPart c.val = false) :
    let seen := s.observe (valueSymbol alwaysQuoted text) kept
    seen.result = .ok () ∧
      Reader.symbol? (seen.chars ++ rest) = some (text.map Text.characters, rest) ∧
      (text.isSome → Reader.OnlySymbol (seen.chars ++ rest)) ∧
      ∀ other : Option Text, (∀ t ∈ other, t.WellFormed ∧ t.isEmpty = false) →
        seen.chars = (s.observe (valueSymbol alwaysQuoted other) kept).chars →
        text.map Text.codeUnits = other.map Text.codeUnits := by
  intro seen
  obtain ⟨result, reads⟩ := symbol?_observe takes alwaysQuoted wellFormed kept ends
  refine ⟨result, reads, ?_, ?_⟩
  · intro present
    obtain ⟨t, rfl⟩ := Option.isSome_iff_exists.mp present
    obtain ⟨wellFormed, notEmpty⟩ := wellFormed t rfl
    exact (symbol?_observe_some takes alwaysQuoted wellFormed notEmpty kept ends).2.2
  · intro other otherWellFormed alike
    have noEnd : ∀ c ∈ ([] : List Char).head?, Lexical.isIdentifierPart c.val = false :=
      fun c first => nomatch first
    have reads := (symbol?_observe takes alwaysQuoted wellFormed kept noEnd).2
    have otherReads := (symbol?_observe takes alwaysQuoted otherWellFormed kept noEnd).2
    rw [← alike] at otherReads
    have same := congrArg Prod.fst (Option.some.inj (reads.symm.trans otherReads))
    exact map_codeUnits_congr (fun t member => (wellFormed t member).1)
      (fun t member => (otherWellFormed t member).1) same

/-- A keyword needs quotes and an identifier next to it does not. -/
theorem symbols_read_back_near_keyword :
    let null := some (Text.chars ['n', 'u', 'l', 'l'])
    let nul := some (Text.chars ['n', 'u', 'l'])
    let quoted := (Sink.units false).observe (valueSymbol false null) #[]
    let bare := (Sink.units false).observe (valueSymbol false nul) #[]
    Reader.symbol? (quoted.chars ++ ['.']) = some (some ['n', 'u', 'l', 'l'], ['.']) ∧
      quoted.chars = ['\'', 'n', 'u', 'l', 'l', '\''] ∧
      Reader.symbol? (bare.chars ++ ['.']) = some (some ['n', 'u', 'l'], ['.']) ∧
      bare.chars = ['n', 'u', 'l'] := by
  intro null nul quoted bare
  have nullWellFormed : ∀ t ∈ null, t.WellFormed ∧ t.isEmpty = false := by
    intro t member
    cases Option.some.inj member
    exact ⟨trivial, rfl⟩
  have nulWellFormed : ∀ t ∈ nul, t.WellFormed ∧ t.isEmpty = false := by
    intro t member
    cases Option.some.inj member
    exact ⟨trivial, rfl⟩
  have ends : ∀ c ∈ ['.'].head?, Lexical.isIdentifierPart c.val = false := by
    intro c first
    cases Option.some.inj first
    rfl
  have takes := Sink.takesAll_units false
  exact ⟨(symbols_read_back takes false nullWellFormed #[] ends).2.1, rfl,
    (symbols_read_back takes false nulWellFormed #[] ends).2.1, rfl⟩

end Rendering

end IonLiteral
