import IonLiteral.Proofs.Kinds
import Mathlib.Computability.Language

/-! # The grammar of symbols

What a symbol is taken for where it stands bare is given by a grammar over code units: identifiers,
the keywords and symbol identifiers among them, and operators. The kind of a symbol is found in one
pass over its units, by its first unit and then by all others, and it is the kind that the grammar
gives. The grammar is all ASCII, so units that are no UTF-16 need no rule of their own.
-/

namespace IonLiteral.Symbol

open scoped Computability

/-! ## The grammar -/

namespace Grammar

/-- The units of the characters between two characters, both included. -/
def range (first last : Char) : Set CodeUnit :=
  {u | first.val ≤ u.toUInt32 ∧ u.toUInt32 ≤ last.val}

/-- The units of some characters. -/
def anyOf (cs : List Char) : Set CodeUnit :=
  {u | ∃ c ∈ cs, c.val = u.toUInt32}

/-- One unit of a class. -/
def one (units : Set CodeUnit) : Language CodeUnit :=
  {us | ∃ u ∈ units, us = [u]}

/-- One word, and no other. -/
def word (text : String) : Language CodeUnit :=
  {Utf16.encode text.toList}

/-- What an identifier starts with. -/
def starts : Set CodeUnit := range 'A' 'Z' ∪ range 'a' 'z' ∪ anyOf ['_', '$']

/-- The digits of base ten. -/
def digits : Set CodeUnit := range '0' '9'

/-- What operators are made of. -/
def operators : Set CodeUnit :=
  anyOf ['<', '>', '=', '+', '-', '*', '&', '^', '%', '~', '/', '?', '.', ';', '!', '|', '@',
    '\x60', '#']

/-- A letter, an underscore or a dollar sign, and then these and digits in any number. -/
def identifier : Language CodeUnit := one starts * (one (starts ∪ digits))∗

/-- The identifiers that mean something else: four words, and a dollar sign with digits behind
it. -/
def keyword : Language CodeUnit :=
  word "true" + word "false" + word "null" + word "nan" +
    one (anyOf ['$']) * (one digits * (one digits)∗)

/-- Operator characters, at least one of them. -/
def operator : Language CodeUnit := one operators * (one operators)∗

/-! ## Words of a grammar -/

/-- Any number of units of a class. -/
theorem mem_kstar_one {units : Set CodeUnit} {us : List CodeUnit} :
    us ∈ (one units)∗ ↔ ∀ u ∈ us, u ∈ units := by
  constructor
  · rintro ⟨words, rfl, each⟩ u member
    obtain ⟨letter, among, inside⟩ := List.mem_flatten.mp member
    obtain ⟨v, known, rfl⟩ := each letter among
    rwa [List.mem_singleton.mp inside]
  · intro known
    rw [← List.flatMap_singleton' us, List.flatMap_def]
    apply Language.join_mem_kstar
    intro letter among
    obtain ⟨u, member, rfl⟩ := List.mem_map.mp among
    exact ⟨u, known u member, rfl⟩

/-- A word that begins with a unit is not empty. -/
theorem nil_notMem_one_mul {first : Set CodeUnit} {rest : Language CodeUnit} :
    [] ∉ one first * rest := by
  rintro ⟨letter, ⟨u, _, rfl⟩, others, _, empty⟩
  cases empty

/-- A word that begins with a unit has it in front. -/
theorem cons_mem_one_mul {first : Set CodeUnit} {rest : Language CodeUnit} {u : CodeUnit}
    {us : List CodeUnit} : u :: us ∈ one first * rest ↔ u ∈ first ∧ us ∈ rest := by
  constructor
  · rintro ⟨letter, ⟨v, known, rfl⟩, others, follows, whole⟩
    cases whole
    exact ⟨known, follows⟩
  · rintro ⟨known, follows⟩
    exact ⟨[u], ⟨u, known, rfl⟩, us, follows, rfl⟩

/-- All units of a word whose first unit may also stand further behind. -/
theorem forall_mem_of_mem_one_mul {first rest : Set CodeUnit} (among : first ⊆ rest)
    {us : List CodeUnit} (word : us ∈ one first * (one rest)∗) : ∀ u ∈ us, u ∈ rest := by
  cases us with
  | nil => exact fun _ member => absurd member List.not_mem_nil
  | cons u us =>
      obtain ⟨start, others⟩ := cons_mem_one_mul.mp word
      exact List.forall_mem_cons.mpr ⟨among start, mem_kstar_one.mp others⟩

/-! ## Classes of units -/

theorem mem_starts_iff {u : CodeUnit} :
    u ∈ starts ↔ Lexical.isIdentifierStart u.toUInt32 = true := by
  simp only [starts, range, anyOf, Set.mem_union, Set.mem_ofPred_eq, List.mem_cons,
    List.not_mem_nil, or_false, exists_eq_or_imp, exists_eq_left, Lexical.isIdentifierStart,
    Lexical.isLetter, CodePoint.isBetween, Bool.or_eq_true, Bool.and_eq_true, decide_eq_true_eq,
    beq_iff_eq, @eq_comm _ u.toUInt32]
  tauto

theorem mem_digits_iff {u : CodeUnit} : u ∈ digits ↔ Lexical.isDecimalDigit u.toUInt32 = true := by
  simp only [digits, range, Set.mem_ofPred_eq, Lexical.isDecimalDigit, CodePoint.isBetween,
    Bool.and_eq_true, decide_eq_true_eq]

theorem mem_parts_iff {u : CodeUnit} :
    u ∈ starts ∪ digits ↔ Lexical.isIdentifierPart u.toUInt32 = true := by
  rw [Set.mem_union, mem_starts_iff, mem_digits_iff, Lexical.isIdentifierPart, Bool.or_eq_true]

theorem mem_operators_iff {u : CodeUnit} :
    u ∈ operators ↔ Lexical.isOperatorPart u.toUInt32 = true := by
  simp only [operators, anyOf, Set.mem_ofPred_eq, Lexical.isOperatorPart, List.any_eq_true,
    beq_iff_eq]
  rfl

/-- Nothing that an identifier starts with is part of an operator. -/
theorem notMem_operators_of_mem_starts {u : CodeUnit} (start : u ∈ starts) : u ∉ operators := by
  intro part
  have other := Lexical.isIdentifierStart_of_isOperatorPart (mem_operators_iff.mp part)
  rw [mem_starts_iff, other] at start
  cases start

/-! ## Words of symbols -/

/-- An identifier by its first unit and by the others. -/
theorem cons_mem_identifier_iff {u : CodeUnit} {us : List CodeUnit} :
    u :: us ∈ identifier ↔
      Lexical.isIdentifierStart u.toUInt32 = true ∧
        (us.all fun r => Lexical.isIdentifierPart r.toUInt32) = true := by
  simp only [identifier, cons_mem_one_mul, mem_kstar_one, mem_starts_iff, mem_parts_iff,
    List.all_eq_true]

theorem cons_mem_operator_iff {u : CodeUnit} {us : List CodeUnit} :
    u :: us ∈ operator ↔
      Lexical.isOperatorPart u.toUInt32 = true ∧
        (us.all fun r => Lexical.isOperatorPart r.toUInt32) = true := by
  simp only [operator, cons_mem_one_mul, mem_kstar_one, mem_operators_iff, List.all_eq_true]

/-- Symbol identifiers are those of the grammar. -/
theorem mem_symbolId_iff {us : List CodeUnit} :
    us ∈ one (anyOf ['$']) * (one digits * (one digits)∗) ↔ isSymbolId us = true := by
  have dollar {u : CodeUnit} : u ∈ anyOf ['$'] ↔ (u.toUInt32 == '$'.val) = true := by
    rw [beq_iff_eq, eq_comm]
    simp only [anyOf, Set.mem_ofPred_eq, List.mem_singleton, exists_eq_left]
  cases us with
  | nil => exact iff_of_false nil_notMem_one_mul Bool.false_ne_true
  | cons u us =>
      rw [cons_mem_one_mul, dollar, isSymbolId]
      cases us with
      | nil =>
          rw [List.isEmpty_nil, Bool.not_true, Bool.and_false, Bool.false_and]
          exact iff_of_false (fun both => nil_notMem_one_mul both.2) Bool.false_ne_true
      | cons d us =>
          simp only [cons_mem_one_mul, mem_kstar_one, mem_digits_iff, List.isEmpty_cons,
            Bool.not_false, Bool.and_true, Bool.and_eq_true, List.all_eq_true,
            List.forall_mem_cons]

theorem mem_word_iff {text : String} {us : List CodeUnit} :
    us ∈ word text ↔ (Utf16.encode text.toList == us) = true := by
  rw [beq_iff_eq]
  exact eq_comm

/-- What is reserved is what the grammar calls a keyword. -/
theorem mem_keyword_iff {us : List CodeUnit} : us ∈ keyword ↔ isReserved us = true := by
  have words : keywords = ["true", "false", "null", "nan"].map String.toList := rfl
  simp only [keyword, Language.mem_add, mem_word_iff, mem_symbolId_iff, isReserved, words,
    List.any_map, List.any_cons, List.any_nil, Bool.or_false, Bool.or_eq_true, Function.comp_apply]
  tauto

/-- No identifier is an operator. -/
theorem notMem_operator_of_mem_identifier {us : List CodeUnit} (name : us ∈ identifier) :
    us ∉ operator := by
  cases us with
  | nil => exact nil_notMem_one_mul
  | cons u us =>
      intro sign
      exact notMem_operators_of_mem_starts (cons_mem_one_mul.mp name).1 (cons_mem_one_mul.mp sign).1

/-- Keywords look like identifiers. -/
theorem mem_identifier_of_mem_keyword {us : List CodeUnit} (reserved : us ∈ keyword) :
    us ∈ identifier := by
  simp only [keyword, Language.mem_add] at reserved
  rcases reserved with (((rfl | rfl) | rfl) | rfl) | ⟨first, dollar, others, number, rfl⟩
  · exact cons_mem_identifier_iff.mpr ⟨rfl, rfl⟩
  · exact cons_mem_identifier_iff.mpr ⟨rfl, rfl⟩
  · exact cons_mem_identifier_iff.mpr ⟨rfl, rfl⟩
  · exact cons_mem_identifier_iff.mpr ⟨rfl, rfl⟩
  · obtain ⟨u, ⟨c, member, same⟩, rfl⟩ := dollar
    rw [List.mem_singleton.mp member] at same
    refine cons_mem_one_mul.mpr ⟨.inr ⟨'$', .tail _ (.head _), same⟩, mem_kstar_one.mpr ?_⟩
    intro digit among
    exact .inr (forall_mem_of_mem_one_mul Set.Subset.rfl number digit among)

end Grammar

/-! ## The kind of a symbol -/

/-- The kind that the grammar gives to units, if there are any. -/
@[mk_iff]
inductive KindRule (us : List CodeUnit) : Except Fault Kind → Prop
  | empty (nothing : us = []) : KindRule us (.error .emptySymbol)
  | identifier (name : us ∈ Grammar.identifier) (free : us ∉ Grammar.keyword) :
      KindRule us (.ok .identifier)
  | operator (sign : us ∈ Grammar.operator) : KindRule us (.ok .operator)
  | quoted (something : us ≠ []) (noName : ¬ (us ∈ Grammar.identifier ∧ us ∉ Grammar.keyword))
      (noSign : us ∉ Grammar.operator) : KindRule us (.ok .quoted)

/-- **The kind of a symbol is the one that the grammar gives.** -/
theorem kindRule_kindOfUnits (us : List CodeUnit) : KindRule us (kindOfUnits us) := by
  cases us with
  | nil => exact .empty rfl
  | cons u us =>
      rw [kindOfUnits_cons]
      have something : u :: us ≠ [] := List.cons_ne_nil u us
      -- The cases are those of the classifier. Which grammars are left open is decided by the first
      -- unit, as no unit begins both an identifier and an operator.
      by_cases reserved : isReserved (u :: us) = true
      · rw [if_pos reserved]
        have word := Grammar.mem_keyword_iff.mpr reserved
        exact .quoted something (fun name => name.2 word)
          (Grammar.notMem_operator_of_mem_identifier (Grammar.mem_identifier_of_mem_keyword word))
      rw [if_neg reserved]
      have free := mt Grammar.mem_keyword_iff.mp reserved
      by_cases start : Lexical.isIdentifierStart u.toUInt32 = true
      · have noSign : u :: us ∉ Grammar.operator := by
          rw [Grammar.cons_mem_operator_iff]
          rintro ⟨part, -⟩
          rw [Lexical.isIdentifierStart_of_isOperatorPart part] at start
          cases start
        rw [if_pos start]
        by_cases parts : (us.all fun r => Lexical.isIdentifierPart r.toUInt32) = true
        · rw [if_pos parts]
          exact .identifier (Grammar.cons_mem_identifier_iff.mpr ⟨start, parts⟩) free
        · rw [if_neg parts]
          exact .quoted something (fun name => parts (Grammar.cons_mem_identifier_iff.mp name.1).2)
            noSign
      · have noName : u :: us ∉ Grammar.identifier :=
          fun name => start (Grammar.cons_mem_identifier_iff.mp name).1
        have inQuotes (noSign : u :: us ∉ Grammar.operator) : KindRule (u :: us) (.ok .quoted) :=
          .quoted something (fun name => noName name.1) noSign
        rw [if_neg start]
        by_cases part : Lexical.isOperatorPart u.toUInt32 = true
        · rw [if_pos part]
          by_cases parts : (us.all fun r => Lexical.isOperatorPart r.toUInt32) = true
          · rw [if_pos parts]
            exact .operator (Grammar.cons_mem_operator_iff.mpr ⟨part, parts⟩)
          · rw [if_neg parts]
            exact inQuotes fun sign => parts (Grammar.cons_mem_operator_iff.mp sign).2
        · rw [if_neg part]
          exact inQuotes fun sign => part (Grammar.cons_mem_operator_iff.mp sign).1

/-- The grammar gives one kind. -/
theorem KindRule.unique {us : List CodeUnit} {kind other : Except Fault Kind}
    (rule : KindRule us kind) (otherRule : KindRule us other) : kind = other := by
  have noName : [] ∉ Grammar.identifier := Grammar.nil_notMem_one_mul
  have noSign : [] ∉ Grammar.operator := Grammar.nil_notMem_one_mul
  have apart (name : us ∈ Grammar.identifier) : us ∉ Grammar.operator :=
    Grammar.notMem_operator_of_mem_identifier name
  cases rule with
  | empty nothing =>
      cases nothing
      cases otherRule with
      | empty _ => rfl
      | identifier name _ => exact absurd name noName
      | operator sign => exact absurd sign noSign
      | quoted something _ _ => exact absurd rfl something
  | identifier name free =>
      cases otherRule with
      | empty nothing => exact absurd (nothing ▸ name) noName
      | identifier _ _ => rfl
      | operator sign => exact absurd sign (apart name)
      | quoted _ noName _ => exact absurd ⟨name, free⟩ noName
  | operator sign =>
      cases otherRule with
      | empty nothing => exact absurd (nothing ▸ sign) noSign
      | identifier name _ => exact absurd sign (apart name)
      | operator _ => rfl
      | quoted _ _ noSign => exact absurd sign noSign
  | quoted something noName noSign =>
      cases otherRule with
      | empty nothing => exact absurd nothing something
      | identifier name free => exact absurd ⟨name, free⟩ noName
      | operator sign => exact absurd sign noSign
      | quoted _ _ _ => rfl

/-- The kind of a symbol and the rule of the grammar are one. -/
theorem kindOfUnits_eq_iff {us : List CodeUnit} {kind : Except Fault Kind} :
    kindOfUnits us = kind ↔ KindRule us kind := by
  constructor
  · rintro rfl
    exact kindRule_kindOfUnits us
  · exact (kindRule_kindOfUnits us).unique

/-- A unit that is no printable ASCII belongs to no bare symbol. -/
theorem kindOfUnits_of_large {us : List CodeUnit} {u : CodeUnit} (member : u ∈ us)
    (large : '~'.val < u.toUInt32) : kindOfUnits us = .ok .quoted := by
  apply kindOfUnits_of_stranger member
  · exact Bool.eq_false_iff.mpr fun part =>
      UInt32.not_lt.mpr (Lexical.le_of_isIdentifierPart part) large
  · exact Bool.eq_false_iff.mpr fun part =>
      UInt32.not_lt.mpr (Lexical.le_of_isOperatorPart part) large

/-- Bare are the identifiers that mean nothing else, and the operators unless they get quotes. -/
theorem needsQuotes_eq_false_iff {text : Text} {quoteOperators : Bool} :
    needsQuotes text quoteOperators = .ok false ↔
      kind text = .ok .identifier ∨ (kind text = .ok .operator ∧ quoteOperators = false) := by
  rw [needsQuotes]
  cases kind text with
  | error fault => simp only [reduceCtorEq, false_and, or_false]
  | ok kind => cases kind <;> simp

/-- There is an answer for every text but the empty one. -/
theorem needsQuotes_eq_error_iff {text : Text} {quoteOperators : Bool} {fault : Fault} :
    needsQuotes text quoteOperators = .error fault ↔ kind text = .error fault := by
  rw [needsQuotes]
  cases kind text with
  | error other => simp only [Except.error.injEq]
  | ok kind => cases kind <;> simp

/-- Only an empty text has no units. -/
theorem codeUnits_eq_nil_iff {text : Text} : text.codeUnits = [] ↔ text.isEmpty = true := by
  rw [← List.isEmpty_iff]
  cases text with
  | chars cs => rw [Text.codeUnits, isEmpty_encode, Text.isEmpty]
  | units us => rfl

/-- **Symbols are told by their grammar.** A text is a keyword, an identifier or an operator exactly
if its units are a word of that grammar, where keywords are no identifiers. All other text but the
empty one needs quotes, such as any with a unit beyond printable ASCII. -/
theorem kind_follows_grammar (text : Text) :
    let us := text.codeUnits
    (isKeyword text = true ↔ us ∈ Grammar.keyword) ∧
      (kind text = .error .emptySymbol ↔ text.isEmpty = true) ∧
      (kind text = .ok .identifier ↔ us ∈ Grammar.identifier ∧ us ∉ Grammar.keyword) ∧
      (kind text = .ok .operator ↔ us ∈ Grammar.operator) ∧
      (kind text = .ok .quoted ↔ text.isEmpty = false ∧
        ¬ (us ∈ Grammar.identifier ∧ us ∉ Grammar.keyword) ∧ us ∉ Grammar.operator) ∧
      (∀ u ∈ us, 0x7E < u ∨ u.isSurrogate = true → kind text = .ok .quoted) ∧
      ∀ quoteOperators,
        (needsQuotes text quoteOperators = .ok false ↔
          kind text = .ok .identifier ∨ (kind text = .ok .operator ∧ quoteOperators = false)) ∧
        ∀ fault, needsQuotes text quoteOperators = .error fault ↔ kind text = .error fault := by
  intro us
  have something : text.isEmpty = false ↔ us ≠ [] := by
    rw [← Bool.not_eq_true, ← codeUnits_eq_nil_iff]
  have rule {answer : Except Fault Kind} : kind text = answer ↔ KindRule us answer :=
    kindOfUnits_eq_iff
  refine ⟨Grammar.mem_keyword_iff.symm, ?_, ?_, ?_, ?_, ?_, fun quoteOperators =>
    ⟨needsQuotes_eq_false_iff, fun fault => needsQuotes_eq_error_iff⟩⟩
  · rw [rule, kindRule_iff, ← codeUnits_eq_nil_iff]
    simp only [reduceCtorEq, and_true, and_false, or_false]
    rfl
  · rw [rule, kindRule_iff]
    simp only [reduceCtorEq, Except.ok.injEq, and_true, and_false, or_false, false_or]
  · rw [rule, kindRule_iff]
    simp only [reduceCtorEq, Except.ok.injEq, and_true, and_false, or_false, false_or]
  · rw [rule, kindRule_iff, something]
    simp only [reduceCtorEq, Except.ok.injEq, and_true, and_false, false_or]
  · rintro u member (large | surrogate)
    · have beyond := UInt16.lt_iff_toNat_lt.mp large
      exact kindOfUnits_of_large member (UInt32.lt_iff_toNat_lt.mpr beyond)
    · have high := (CodeUnit.isSurrogate_iff.mp surrogate).1
      refine kindOfUnits_of_large member (UInt32.lt_iff_toNat_lt.mpr ?_)
      rw [UInt16.toNat_toUInt32]
      exact Nat.lt_of_lt_of_le (by decide) high

/-- A unit whose low byte is a letter is no letter. -/
theorem kind_follows_grammar_low_byte_letter :
    let text := Text.units [0x24, 0x0161]
    0x0161 ∈ text.codeUnits ∧ 0x7E < (0x0161 : CodeUnit) ∧ kind text = .ok .quoted := by
  intro text
  have member : 0x0161 ∈ text.codeUnits := .tail _ (.head _)
  have large : 0x7E < (0x0161 : CodeUnit) := by decide
  exact ⟨member, large, (kind_follows_grammar text).2.2.2.2.2.1 0x0161 member (.inl large)⟩

end IonLiteral.Symbol
