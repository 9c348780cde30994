import IonLiteral.Proofs.Plan
import IonLiteral.Reader.Body
import Mathlib.Tactic.Ring

/-! # Reading back

A piece of text stands for a value when a reader takes it for that value and goes on right behind
it, whatever comes next. A body made of such pieces is read piece by piece: the closing delimiter is
not met before the body ends, and what follows it is left alone.
-/

namespace IonLiteral

/-! ## Numerals -/

namespace Hex

/-- The digits of a numeral go on from the value of those before them. -/
theorem readMore_fixed (start width value : Nat) (rest : List Char) :
    readMore start width (fixed width value ++ rest) =
      some (start * 16 ^ width + value % 16 ^ width, rest) := by
  induction width generalizing value rest with
  | zero =>
      rw [pow_zero, Nat.mod_one, Nat.mul_one]
      rfl
  | succ width ih =>
      have digit : value % 16 < 16 := Nat.mod_lt value (by decide)
      have sum : 16 * (start * 16 ^ width + value / 16 % 16 ^ width) + value % 16 =
          start * 16 ^ (width + 1) + value % 16 ^ (width + 1) := by
        rw [pow_succ', Nat.mod_mul]
        ring
      rw [readMore_append, fixed, List.append_assoc, ih, Option.bind_some, List.singleton_append]
      simp only [readMore, digitValue?_digitChar digit, sum]

/-- **A numeral is read as the number it was written for.** -/
theorem read?_fixed {width value : Nat} (fits : value < 16 ^ width) (rest : List Char) :
    read? width (fixed width value ++ rest) = some (value, rest) := by
  unfold read?
  rw [readMore_fixed, Nat.zero_mul, Nat.zero_add, Nat.mod_eq_of_lt fits]

end Hex

/-! ## Bodies -/

namespace Reader

variable {α : Type}

/-- What stands for a value between delimiters that start with `quote`: a character that is allowed
there, or an escape that ends where it ends whatever follows. -/
inductive Spells (dialect : Dialect α) (quote : Char) (a : α) : List Char → Prop
  | plain {c : Char} (noEscape : c ≠ '\\') (noQuote : c ≠ quote)
      (allowed : dialect.plain? c = some a) : Spells dialect quote a [c]
  | escape {cs : List Char} (read : ∀ rest, dialect.escape? (cs ++ rest) = some (a, rest)) :
      Spells dialect quote a ('\\' :: cs)

/-- A character that does not begin the delimiter does not close the body. -/
theorem following?_of_ne {quote c : Char} (differ : c ≠ quote) (more cs : List Char) :
    following? (quote :: more) (c :: cs) = none :=
  if_neg differ.symm

/-- At its delimiter a body is empty. -/
theorem body?_delimiter (dialect : Dialect α) (delimiter rest : List Char) :
    body? dialect delimiter (delimiter ++ rest) = some ([], rest) := by
  rw [body?.eq_def, following?_append]

/-- A body that begins with what stands for a value is read as that value and the others. -/
theorem Spells.body? {dialect : Dialect α} {quote : Char} {a : α} {text : List Char}
    (spells : Spells dialect quote a text) (notEscape : quote ≠ '\\') (more rest : List Char) :
    Reader.body? dialect (quote :: more) (text ++ rest) =
      (Reader.body? dialect (quote :: more) rest).map (consRead a) := by
  rw [body?.eq_def]
  cases spells with
  | plain noEscape noQuote allowed =>
      rw [List.singleton_append, following?_of_ne noQuote]
      simp only [if_neg noEscape, allowed]
  | escape read =>
      rw [List.cons_append, following?_of_ne notEscape.symm]
      simp only [if_true]
      split
      · rename_i fails
        rw [read] at fails
        cases fails
      · rename_i succeeds
        rw [read] at succeeds
        cases succeeds
        rfl

/-- **A body is read as what it was made of.** What stands for values one by one is read as those
values when it is written in a row, up to the closing delimiter. -/
theorem body?_flatMap {β : Type} {dialect : Dialect α} {quote : Char} (notEscape : quote ≠ '\\')
    (more : List Char) {text : β → List Char} {value : β → α} {bs : List β}
    (spells : ∀ b ∈ bs, Spells dialect quote (value b) (text b)) (rest : List Char) :
    body? dialect (quote :: more) (bs.flatMap text ++ (quote :: more ++ rest)) =
      some (bs.map value, rest) := by
  induction bs with
  | nil => exact body?_delimiter dialect (quote :: more) rest
  | cons b bs ih =>
      have first := spells b List.mem_cons_self
      have others := ih fun other member => spells other (List.mem_cons_of_mem b member)
      rw [List.flatMap_cons, List.append_assoc, first.body? notEscape, others]
      rfl

/-- **A quoted value is read piece by piece**, and what follows it is left alone. -/
theorem quoted?_flatMap {β : Type} {dialect : Dialect α} {quote : Char} (notEscape : quote ≠ '\\')
    (more : List Char) {text : β → List Char} {value : β → α} {bs : List β}
    (spells : ∀ b ∈ bs, Spells dialect quote (value b) (text b)) (rest : List Char) :
    quoted? dialect (quote :: more)
        (quote :: more ++ (bs.flatMap text ++ (quote :: more ++ rest))) =
      some (bs.map value, rest) := by
  unfold quoted?
  rw [following?_append]
  exact body?_flatMap notEscape more spells rest

end Reader

/-! ## Written texts -/

/-- The character that the delimiter of a form is made of. -/
def Form.quote : Form → Char
  | shortString | clob | json => '"'
  | longString | symbol => '\''

/-- No delimiter begins like an escape. -/
theorem Form.quote_ne_backslash (form : Form) : form.quote ≠ '\\' := by
  cases form <;> decide

/-- A character without a name is neither the backslash nor the quote of its form. -/
theorem Spelling.ne_of_unnamed {form : Form} {c : Char} (unnamed : letter? form c = none) :
    c ≠ '\\' ∧ c ≠ form.quote := by
  constructor
  · rintro rfl
    cases form <;> cases unnamed
  · rintro rfl
    cases form <;> cases unnamed

/-- Well-formed texts that are read alike have the same units. -/
theorem Text.WellFormed.codeUnits_congr_of_reads {text other : Text} (wellFormed : text.WellFormed)
    (otherWellFormed : other.WellFormed) {read : Option (List Char × List Char)}
    {rest otherRest : List Char} (reads : read = some (text.characters, rest))
    (otherReads : read = some (other.characters, otherRest)) : text.codeUnits = other.codeUnits := by
  have same := Option.some.inj (reads.symm.trans otherReads)
  exact wellFormed.codeUnits_congr otherWellFormed (congrArg Prod.fst same)

namespace Sink.TakesAll

variable {σ α β : Type} {s : Sink σ} {rendering : Rendering}

/-- **A quoted body is read as what it was made of.** It is enough that each part is read. -/
theorem observe_reads_back (takes : s.TakesAll) (quoting : Quoting) {body : Script}
    (planned : rendering.plan s.escapesUnicode = .quoted quoting (some body))
    (ok : body.ending = .ok ()) {more : List Char}
    (delimiter : quoting.delimiter = quoting.form.quote :: more) {dialect : Reader.Dialect α}
    {text : β → List Char} {value : β → α} {bs : List β} (chars : body.chars = bs.flatMap text)
    (spells : ∀ b ∈ bs, Reader.Spells dialect quoting.form.quote (value b) (text b)) (kept : σ)
    (rest : List Char) :
    (s.observe rendering kept).result = .ok () ∧
      Reader.quoted? dialect quoting.delimiter ((s.observe rendering kept).chars ++ rest) =
        some (bs.map value, rest) := by
  obtain ⟨result, seen⟩ := observe_quoted takes planned ok kept
  refine ⟨result, ?_⟩
  rw [seen, chars, delimiter, List.append_assoc, List.append_assoc]
  exact Reader.quoted?_flatMap quoting.form.quote_ne_backslash more spells rest

/-- **A quoted text is read back** if the reader takes the spelling of each character for that
character. -/
theorem observe_text_reads_back (takes : s.TakesAll) (quoting : Quoting) {text : Text}
    (wellFormed : text.WellFormed)
    (planned : rendering.plan s.escapesUnicode =
      .quoted quoting (some (text.batched quoting.form s.escapesUnicode)))
    {more : List Char} (delimiter : quoting.delimiter = quoting.form.quote :: more)
    {dialect : Reader.Dialect Char}
    (spells : ∀ c, Reader.Spells dialect quoting.form.quote c
      (quoting.form.charText s.escapesUnicode c)) (kept : σ) (rest : List Char) :
    (s.observe rendering kept).result = .ok () ∧
      Reader.quoted? dialect quoting.delimiter ((s.observe rendering kept).chars ++ rest) =
        some (text.characters, rest) := by
  have reads := takes.observe_reads_back quoting planned wellFormed.ending delimiter
    (text.chars_batched quoting.form s.escapesUnicode)
    (fun c (_ : c ∈ text.characters) => spells c) kept rest
  rwa [List.map_id'] at reads

end Sink.TakesAll

end IonLiteral
