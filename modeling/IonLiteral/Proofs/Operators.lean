import IonLiteral.Proofs.Symbols

/-! # Symbols in s-expressions

In an s-expression an operator may stand without quotes, and a reader takes the longest run of
operator characters for it. But two slashes, or a slash and an asterisk, open a comment there before
any operator is looked for. So a symbol is read back in an s-expression unless it is an operator that
begins like a comment. All operators are written alike where they may stand without quotes, these
among them, and of these a reader sees a comment.
-/

namespace IonLiteral

/-! ## Operators and comments -/

/-- Operator characters stand for themselves between quotes, too. -/
theorem Form.isPlainChar_of_isOperatorPart {c : Char} (part : Lexical.isOperatorPart c.val = true) :
    symbol.isPlainChar c = true := by
  have each : (Lexical.operatorChars.all symbol.isPlainChar) = true := by decide +kernel
  obtain ⟨known, among, same⟩ := List.any_eq_true.mp part
  rw [← Char.ext (eq_of_beq same)]
  exact List.all_eq_true.mp each known among

namespace Symbol

/-- A symbol that opens a comment where it stands bare. -/
structure OpensComment (cs : List Char) : Prop where
  operator : IsOperator cs
  opening : ['/', '/'] <+: cs ∨ ['/', '*'] <+: cs

/-- What opens a comment begins with a slash and a second character that says so. -/
theorem OpensComment.exists_append {cs : List Char} (opens : OpensComment cs) (rest : List Char) :
    ∃ c ∈ ['/', '*'], cs ++ rest = '/' :: c :: (cs.drop 2 ++ rest) := by
  rcases opens.opening with ⟨tail, rfl⟩ | ⟨tail, rfl⟩
  · exact ⟨'/', by decide, rfl⟩
  · exact ⟨'*', by decide, rfl⟩

/-- No identifier is an operator. -/
theorem IsBare.not_isOperator {cs : List Char} (bare : IsBare cs) : ¬ IsOperator cs := by
  obtain ⟨start, _, _⟩ := bare
  exact Symbol.not_isOperator start _

/-- An operator is written as its text. -/
theorem IsOperator.flatMap_charText {cs : List Char} (operator : IsOperator cs)
    (escapesUnicode : Bool) : cs.flatMap (Form.symbol.charText escapesUnicode) = cs :=
  Form.flatMap_charText_of_plain
    (fun c member => Form.isPlainChar_of_isOperatorPart (operator c member)) escapesUnicode

end Symbol

namespace Reader

/-- The two characters that open a comment are read as its opening. -/
theorem token?_comment {c : Char} (opening : c ∈ ['/', '*']) (rest : List Char) :
    token? ('/' :: c :: rest) = some (.comment, rest) := by
  rcases List.mem_cons.mp opening with rfl | opening
  · rfl
  · cases List.mem_singleton.mp opening
    rfl

/-- What starts with a quote is read as a symbol in quotes. -/
theorem token?_quoted (cs : List Char) :
    token? ('\'' :: cs) = (quotedSymbol? ('\'' :: cs)).map fun read => (.symbol read.1, read.2) :=
  rfl

/-- What opens no comment and starts with no quote is an identifier or an operator. -/
theorem token?_bare {c : Char} {cs : List Char} (noQuote : c ≠ '\'')
    (noComment : c = '/' → ∀ d ∈ cs.head?, d ≠ '/' ∧ d ≠ '*') :
    token? (c :: cs) =
      if Lexical.isIdentifierStart c.val then
        if isReserved (identifier (c :: cs)).1 then
          some (.reserved (identifier (c :: cs)).1, (identifier (c :: cs)).2)
        else some (.symbol (identifier (c :: cs)).1, (identifier (c :: cs)).2)
      else if Lexical.isOperatorPart c.val then
        some (.symbol ((c :: cs).span fun c => Lexical.isOperatorPart c.val).1,
          ((c :: cs).span fun c => Lexical.isOperatorPart c.val).2)
      else none := by
  unfold token?
  split
  · rename_i same
    cases same
  · rename_i same
    cases same
    exact absurd rfl (noComment rfl _ rfl).1
  · rename_i same
    cases same
    exact absurd rfl (noComment rfl _ rfl).2
  · rename_i same
    cases same
    exact absurd rfl noQuote
  · rename_i same
    cases same
    rfl

/-- **An identifier is one token** if nothing behind it belongs to it. -/
theorem token?_of_isBare {cs rest : List Char} (bare : Symbol.IsBare cs)
    (ends : ∀ c ∈ rest.head?, Lexical.isIdentifierPart c.val = false) :
    token? (cs ++ rest) = some (.symbol cs, rest) := by
  obtain @⟨c, cs, start, parts, free⟩ := bare
  have token := identifier_append start parts ends
  have noQuote : c ≠ '\'' := by
    rintro rfl
    cases start
  have noSlash : c ≠ '/' := by
    rintro rfl
    cases start
  rw [List.cons_append] at token ⊢
  rw [token?_bare noQuote fun slash => absurd slash noSlash, if_pos start, token, free]
  rfl

/-- **An operator is one token** if it opens no comment and nothing behind it belongs to it. -/
theorem token?_of_isOperator {cs rest : List Char} (operator : Symbol.IsOperator cs)
    (notEmpty : cs ≠ []) (noComment : ¬ Symbol.OpensComment cs)
    (ends : ∀ c ∈ rest.head?, Lexical.isOperatorPart c.val = false) :
    token? (cs ++ rest) = some (.symbol cs, rest) := by
  cases cs with
  | nil => exact absurd rfl notEmpty
  | cons c cs =>
      have part := operator c List.mem_cons_self
      have noStart := Lexical.isIdentifierStart_of_isOperatorPart part
      have run := span_append (P := fun c => Lexical.isOperatorPart c.val) operator ends
      have noQuote : c ≠ '\'' := by
        rintro rfl
        cases part
      have noOpening : c = '/' → ∀ d ∈ (cs ++ rest).head?, d ≠ '/' ∧ d ≠ '*' := by
        rintro rfl d next
        cases cs with
        | nil =>
            -- A slash by itself opens no comment with what ends it.
            have other := ends d next
            constructor <;> (rintro rfl; cases other)
        | cons e cs =>
            cases Option.some.inj next
            constructor
            · rintro rfl
              exact noComment ⟨operator, .inl ⟨cs, rfl⟩⟩
            · rintro rfl
              exact noComment ⟨operator, .inr ⟨cs, rfl⟩⟩
      rw [List.cons_append] at run ⊢
      rw [token?_bare noQuote noOpening, noStart, if_neg Bool.false_ne_true, if_pos part, run]

end Reader

/-! ## Values -/

namespace Rendering

variable {σ : Type} {s : Sink σ} {text : Text}

/-- **Symbols in s-expressions are read back unless they open a comment.** A symbol that is written
with its operators bare, and followed by a space, is read as one token with its text and nothing
behind it. An operator that begins like a comment is written as it is, like every other operator,
and there the reader meets a comment, right behind its opening. -/
theorem symbols_tokenized_unless_comment (takes : s.TakesAll) (wellFormed : text.WellFormed)
    (notEmpty : text.isEmpty = false) (kept : σ) (rest : List Char) :
    let seen := s.observe (symbol (some text) false) kept
    seen.result = .ok () ∧
      (¬ Symbol.OpensComment text.characters →
        Reader.token? (seen.chars ++ ' ' :: rest) =
          some (.symbol text.characters, ' ' :: rest)) ∧
      (Symbol.OpensComment text.characters →
        seen.chars = text.characters ∧
          Reader.token? (seen.chars ++ ' ' :: rest) =
            some (.comment, text.characters.drop 2 ++ ' ' :: rest)) := by
  intro seen
  have planned : (symbol (some text) false).plan s.escapesUnicode =
      text.symbolScript false s.escapesUnicode := rfl
  have notNil : text.characters ≠ [] := by
    rw [← List.isEmpty_eq_false_iff, wellFormed.isEmpty_characters]
    exact notEmpty
  have rule := wellFormed.symbolRule notEmpty false s.escapesUnicode
  rw [← planned] at rule
  generalize script : (symbol (some text) false).plan s.escapesUnicode = plan at rule
  cases rule with
  | quoted needed =>
      have noOperator := needed.resolve_left Bool.false_ne_true
      obtain ⟨result, c, tail, opening, _, reads⟩ :=
        exists_cons_observe_quoted takes wellFormed notEmpty script kept (' ' :: rest)
      refine ⟨result, fun _ => ?_, fun opens => absurd opens.operator noOperator⟩
      rw [opening, Reader.token?_quoted, reads]
      rfl
  | identifier bare =>
      obtain ⟨result, chars⟩ := observe_unquoted takes wellFormed script
        (bare.flatMap_charText s.escapesUnicode) kept
      have ends : ∀ c ∈ (' ' :: rest).head?, Lexical.isIdentifierPart c.val = false := by
        rintro c ⟨⟩
        rfl
      refine ⟨result, fun _ => ?_, fun opens => absurd opens.operator bare.not_isOperator⟩
      rw [chars]
      exact Reader.token?_of_isBare bare ends
  | operator unquoted operator =>
      obtain ⟨result, chars⟩ := observe_unquoted takes wellFormed script
        (operator.flatMap_charText s.escapesUnicode) kept
      have ends : ∀ c ∈ (' ' :: rest).head?, Lexical.isOperatorPart c.val = false := by
        rintro c ⟨⟩
        rfl
      refine ⟨result, fun noComment => ?_, fun opens => ?_⟩
      · rw [chars]
        exact Reader.token?_of_isOperator operator notNil noComment ends
      · obtain ⟨c, opening, begins⟩ := opens.exists_append (' ' :: rest)
        refine ⟨chars, ?_⟩
        rw [chars, begins]
        exact Reader.token?_comment opening _

/-- An operator with slashes at its end, and one that begins with a slash and an asterisk. -/
theorem symbols_tokenized_unless_comment_behind_plus :
    let plus := (Sink.characters true none).observe
      (symbol (some (.chars ['+', '/', '/'])) false) ""
    let slash := (Sink.characters true none).observe
      (symbol (some (.units [0x2F, 0x2A, 0x2B])) false) ""
    Reader.token? (plus.chars ++ [' ', 'x']) = some (.symbol ['+', '/', '/'], [' ', 'x']) ∧
      slash.chars = ['/', '*', '+'] ∧
      Reader.token? (slash.chars ++ [' ', 'x']) = some (.comment, ['+', ' ', 'x']) := by
  intro plus slash
  have takes := Sink.takesAll_characters true
  have wellFormed : (Text.units [0x2F, 0x2A, 0x2B]).WellFormed :=
    .unit rfl (.unit rfl (.unit rfl .nil))
  have noComment : ¬ Symbol.OpensComment ['+', '/', '/'] := by
    rintro ⟨_, ⟨_, begins⟩ | ⟨_, begins⟩⟩ <;> cases begins
  have opens : Symbol.OpensComment ['/', '*', '+'] :=
    ⟨List.all_eq_true.mp (by decide), .inr ⟨['+'], rfl⟩⟩
  have plain : (Text.chars ['+', '/', '/']).WellFormed := trivial
  have atPlus := symbols_tokenized_unless_comment takes plain rfl "" ['x']
  have atSlash := symbols_tokenized_unless_comment takes wellFormed rfl "" ['x']
  exact ⟨atPlus.2.1 noComment, atSlash.2.2 opens⟩

/-- Two slashes are an operator like any other: they are written as they are, and read as a
comment. -/
theorem slashes_open_comment :
    let seen := (Sink.characters true none).observe (symbol (some (.chars ['/', '/'])) false) ""
    seen.result = .ok () ∧ seen.chars = ['/', '/'] ∧
      Reader.token? (seen.chars ++ [' ']) = some (.comment, [' ']) ∧
      Reader.token? (seen.chars ++ [' ']) ≠ some (.symbol ['/', '/'], [' ']) :=
  ⟨rfl, rfl, rfl, nofun⟩

end Rendering

end IonLiteral
