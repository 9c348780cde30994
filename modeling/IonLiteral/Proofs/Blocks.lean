import IonLiteral.Proofs.Encodings
import IonLiteral.Proofs.Scripts
import Mathlib.Data.List.Basic

/-! # Runs and what stands between them

A list can be taken apart at its elements that are not plain, in one way: into blocks of plain ones,
which may be empty, and the others between the blocks. A body is written along this division. Each
block that is not empty is one operation, and each character between blocks is written as it is by
itself. So runs are as long as they can be, and nothing is left out, written twice or moved.
-/

namespace IonLiteral

/-! ## Blocks -/

/-- A list taken apart at some of its elements: the block before the first of them, and each of them
with the block behind it. -/
structure Blocks (α : Type) where
  first : List α
  rest : List (α × List α)

namespace Blocks

variable {α : Type} {isPlain : α → Bool} {blocks : Blocks α} {as : List α}

/-- The list that was taken apart. -/
def toList (blocks : Blocks α) : List α :=
  blocks.first ++ blocks.rest.flatMap fun part => part.1 :: part.2

/-- Blocks divide a list if they are plain throughout and what stands between them is not. -/
structure Divide (isPlain : α → Bool) (blocks : Blocks α) (as : List α) : Prop where
  whole : blocks.toList = as
  first : ∀ a ∈ blocks.first, isPlain a = true
  between : ∀ part ∈ blocks.rest, isPlain part.1 = false
  behind : ∀ part ∈ blocks.rest, ∀ a ∈ part.2, isPlain a = true

/-- Take a list apart at what is not plain. -/
def cut (isPlain : α → Bool) : List α → Blocks α
  | [] => ⟨[], []⟩
  | a :: as =>
    if isPlain a then ⟨a :: (cut isPlain as).first, (cut isPlain as).rest⟩
    else ⟨[], (a, (cut isPlain as).first) :: (cut isPlain as).rest⟩

/-- A plain item goes into the first block. -/
theorem cut_cons_of_plain {a : α} (plain : isPlain a = true) (as : List α) :
    cut isPlain (a :: as) = ⟨a :: (cut isPlain as).first, (cut isPlain as).rest⟩ := by
  rw [cut, if_pos plain]

/-- An item that is not plain closes an empty first block. -/
theorem cut_cons_of_not_plain {a : α} (notPlain : isPlain a = false) (as : List α) :
    cut isPlain (a :: as) = ⟨[], (a, (cut isPlain as).first) :: (cut isPlain as).rest⟩ := by
  rw [cut, notPlain, if_neg Bool.false_ne_true]

/-- Plain items in front go into the first block together. -/
theorem cut_append {block : List α} (plain : ∀ a ∈ block, isPlain a = true) (as : List α) :
    cut isPlain (block ++ as) =
      ⟨block ++ (cut isPlain as).first, (cut isPlain as).rest⟩ := by
  induction block with
  | nil => rfl
  | cons a block ih =>
      obtain ⟨here, others⟩ := List.forall_mem_cons.mp plain
      rw [List.cons_append, cut_cons_of_plain here, ih others]
      rfl

/-- Cutting divides a list into its blocks. -/
theorem divide_cut (isPlain : α → Bool) (as : List α) : (cut isPlain as).Divide isPlain as := by
  induction as with
  | nil => exact ⟨rfl, nofun, nofun, nofun⟩
  | cons a as ih =>
      cases plain : isPlain a with
      | true =>
          rw [cut_cons_of_plain plain]
          refine ⟨?_, List.forall_mem_cons.mpr ⟨plain, ih.first⟩, ih.between, ih.behind⟩
          exact congrArg (a :: ·) ih.whole
      | false =>
          rw [cut_cons_of_not_plain plain]
          refine ⟨?_, nofun, List.forall_mem_cons.mpr ⟨plain, ih.between⟩,
            List.forall_mem_cons.mpr ⟨ih.first, ih.behind⟩⟩
          exact congrArg (a :: ·) ih.whole

/-- There is one division into blocks, and cutting finds it. -/
theorem Divide.eq_cut (divide : blocks.Divide isPlain as) : blocks = cut isPlain as := by
  obtain ⟨first, rest⟩ := blocks
  obtain ⟨rfl, plain, between, behind⟩ := divide
  rw [toList, cut_append plain]
  induction rest generalizing first with
  | nil =>
      rw [List.flatMap_nil, cut, List.append_nil]
  | cons part rest ih =>
      obtain ⟨notPlain, others⟩ := List.forall_mem_cons.mp between
      obtain ⟨block, further⟩ := List.forall_mem_cons.mp behind
      have same := ih part.2 block others further
      rw [List.flatMap_cons, List.cons_append, cut_cons_of_not_plain notPlain, cut_append block,
        ← same, List.append_nil]

/-- **There is one way to take a list apart.** -/
theorem divide_iff : blocks.Divide isPlain as ↔ blocks = cut isPlain as := by
  constructor
  · exact Divide.eq_cut
  · rintro rfl
    exact divide_cut isPlain as

/-! ## Operations for blocks -/

/-- The operations for a block of characters. For none there is no operation. -/
def runCalls (text : List Char) : List Call :=
  if text.isEmpty then [] else [.ascii text]

/-- The operations for blocks of plain things, each of which stands for a character, and for what
stands between them. -/
def calls (toChar : α → Char) (callsOf : α → List Call) (blocks : Blocks α) : List Call :=
  runCalls (blocks.first.map toChar) ++
    blocks.rest.flatMap fun part => callsOf part.1 ++ runCalls (part.2.map toChar)

/-- Only what is asked for the items between the blocks matters for the operations. -/
theorem calls_congr (toChar : α → Char) {callsOf other : α → List Call}
    (same : ∀ part ∈ blocks.rest, callsOf part.1 = other part.1) :
    blocks.calls toChar callsOf = blocks.calls toChar other := by
  rw [calls, calls]
  congr 1
  apply List.flatMap_congr
  intro part member
  rw [same part member]

end Blocks

/-! ## Scans -/

namespace Piece

variable {α β : Type} {toChar : α → Char} {special? : α → Option β} {isPlain : α → Bool}

/-- A run of characters as pieces: one, or none if the run is empty. -/
def ofRun (text : List Char) : List (Piece β) :=
  if text.isEmpty then [] else [.run text]

/-- The pieces of blocks and of what stands between them. -/
def ofBlocks (toChar : α → Char) (special? : α → Option β) (blocks : Blocks α) : List (Piece β) :=
  ofRun (blocks.first.map toChar) ++
    blocks.rest.flatMap fun part =>
      (special? part.1).toList.map special ++ ofRun (part.2.map toChar)

/-- What is not plain is looked up as something special. -/
theorem exists_special {a : α} (agrees : ∀ a, (special? a).isNone = isPlain a)
    (notPlain : isPlain a = false) : ∃ found, special? a = some found := by
  rw [← agrees, Option.isNone_eq_false_iff] at notPlain
  exact Option.isSome_iff_exists.mp notPlain

/-- A plain character lengthens the first block, since what follows that block is not plain. -/
theorem consPlain_ofBlocks (agrees : ∀ a, (special? a).isNone = isPlain a) {first : List α}
    {rest : List (α × List α)} (between : ∀ part ∈ rest, isPlain part.1 = false) (a : α) :
    consPlain (toChar a) (ofBlocks toChar special? ⟨first, rest⟩) =
      ofBlocks toChar special? ⟨a :: first, rest⟩ := by
  cases first with
  | cons b first => rfl
  | nil =>
      cases rest with
      | nil => rfl
      | cons part rest =>
          obtain ⟨found, special⟩ := exists_special agrees (between part List.mem_cons_self)
          simp only [ofBlocks, List.flatMap_cons, special]
          rfl

/-- **A scan takes a list apart at what is special.** -/
theorem scan_eq_ofBlocks (agrees : ∀ a, (special? a).isNone = isPlain a) (toChar : α → Char)
    (as : List α) :
    scan toChar special? as = ofBlocks toChar special? (Blocks.cut isPlain as) := by
  induction as with
  | nil => rfl
  | cons a as ih =>
      rw [scan_cons, ih]
      cases here : special? a with
      | none =>
          have plain : isPlain a = true := by rw [← agrees, here, Option.isNone_none]
          rw [Blocks.cut_cons_of_plain plain]
          exact consPlain_ofBlocks agrees (Blocks.divide_cut isPlain as).between a
      | some found =>
          have notPlain : isPlain a = false := by rw [← agrees, here, Option.isNone_some]
          rw [Blocks.cut_cons_of_not_plain notPlain]
          simp only [ofBlocks, List.flatMap_cons, here]
          rfl

/-- **The operations for a scan** are those for the blocks and for what stands between. -/
theorem flatMap_calls_scan (agrees : ∀ a, (special? a).isNone = isPlain a) (toChar : α → Char)
    (callsOf : β → List Call) (as : List α) :
    (scan toChar special? as).flatMap (calls callsOf) =
      (Blocks.cut isPlain as).calls toChar (single toChar special? callsOf) := by
  have run (text : List Char) : (ofRun text).flatMap (calls callsOf) = Blocks.runCalls text := by
    cases text <;> rfl
  rw [scan_eq_ofBlocks agrees, ofBlocks, Blocks.calls, List.flatMap_append, run,
    List.flatMap_assoc]
  congr 1
  apply List.flatMap_congr
  intro part member
  have notPlain := (Blocks.divide_cut isPlain as).between part member
  obtain ⟨found, special⟩ := exists_special agrees notPlain
  rw [List.flatMap_append, run, single, special]
  simp only [Option.toList_some, List.map_cons, List.map_nil, List.flatMap_singleton, calls]

end Piece

namespace Form

/-- Whether a character has a number below `0x100` for which the escape table has no entry. -/
def isUnescaped (form : Form) (c : Char) : Bool :=
  c.val < 0x100 && (form.escape? c.val.toUInt8).isNone

/-- A character is unescaped for every sink exactly if it is plain. -/
theorem isUnescaped_eq (form : Form) (c : Char) : form.isUnescaped c = form.isPlainChar c := by
  rw [isPlainChar_eq, needsEscape, Option.not_isSome, isUnescaped]

/-- What is special is what is not unescaped. -/
theorem isNone_special? (form : Form) (c : Char) :
    (form.special? c).isNone = form.isUnescaped c := by
  rw [isUnescaped_eq, special?]
  cases form.isPlainChar c <;> rfl

/-- **A body is written along the division of its text.** -/
theorem bodyCalls_eq_calls (form : Form) (escapesUnicode : Bool) (cs : List Char) :
    form.bodyCalls escapesUnicode cs =
      (Blocks.cut form.isUnescaped cs).calls id (form.charCalls escapesUnicode) := by
  rw [bodyCalls, scanChars_eq_scan, Piece.flatMap_calls_scan form.isNone_special?,
    funext (form.single_special? escapesUnicode)]

/-- **Bytes are written along the division of the bytes.** -/
theorem byteCalls_eq_calls (form : Form) (bytes : List UInt8) :
    form.byteCalls bytes =
      (Blocks.cut (fun byte => (form.escape? byte).isNone) bytes).calls Char.ofUInt8
        fun byte => (form.escape? byte).toList.map fun escape => .ascii escape.text := by
  rw [byteCalls, scanBytes_eq_scan, Piece.flatMap_calls_scan fun _ => rfl]
  apply Blocks.calls_congr
  intro part member
  have notPlain := (Blocks.divide_cut _ bytes).between part member
  obtain ⟨escape, entry⟩ := Piece.exists_special (fun _ => rfl) notPlain
  rw [Piece.single, entry]
  rfl

theorem length_text_u (value : Nat) : (Escape.u value).text.length = 6 := by
  rw [Escape.u, Escape.text, List.length_cons, List.length_cons, Hex.length_fixed]

/-- JSON escapes the halves of a pair one by one. -/
theorem charCalls_of_halves {form : Form} {c : Char} (json : form.isJson = true)
    (large : 0x10000 ≤ c.val) :
    form.charCalls true c =
      [.ascii (Escape.u (Surrogate.split c.val).1.toNat).text,
        .ascii (Escape.u (Surrogate.split c.val).2.toNat).text] := by
  have beyond : ¬ c.val < 0x10000 := UInt32.not_lt.mpr large
  have notLatin : ¬ c.val < 0x100 := fun latin => beyond (UInt32.lt_trans latin (by decide))
  rw [charCalls, Spelling.ofChar_of_not_latin notLatin, if_pos rfl, Spelling.byNumber,
    if_neg notLatin, if_neg beyond, if_pos json]
  rfl

/-- Everything else is one operation. -/
theorem exists_charCalls_eq_singleton {form : Form} {c : Char} {escapesUnicode : Bool}
    (whole : ¬ (form.isJson = true ∧ escapesUnicode = true ∧ 0x10000 ≤ c.val)) :
    ∃ call, form.charCalls escapesUnicode c = [call] := by
  have rule := Spelling.rule_ofChar form escapesUnicode c
  rw [charCalls]
  generalize Spelling.ofChar form escapesUnicode c = spelling at rule
  cases rule with
  | named found => exact ⟨_, rfl⟩
  | itself unnamed allowed held => exact ⟨_, rfl⟩
  | number unnamed needed =>
      have noHalves : ¬ (form.isJson = true ∧ 0x10000 ≤ c.val) := by
        rintro ⟨json, large⟩
        rcases needed with control | ⟨escapes, _⟩
        · have ascii := Spelling.ascii_of_isControl control
          exact UInt32.not_lt.mpr large (UInt32.lt_trans ascii (by decide))
        · exact whole ⟨json, escapes, large⟩
      obtain ⟨escape, single⟩ := Spelling.exists_byNumber_eq_singleton noHalves
      exact ⟨.ascii escape.text, by rw [single]; rfl⟩

end Form

/-! ## Renderings -/

namespace Rendering

/-- The ways to write bytes. -/
inductive OfBytes : Quoting → (List UInt8 → Rendering) → Prop
  | clob : OfBytes .clob fun bytes => clob (some bytes)
  | longClob : OfBytes .longClob fun bytes => longClob (some bytes)
  | jsonClob : OfBytes .jsonClob fun bytes => jsonClob (some bytes)

/-- All ways to write bytes plan the same: the delimiters around the operations of the bytes. -/
theorem OfBytes.plan_eq {quoting : Quoting} {write : List UInt8 → Rendering}
    (ofBytes : OfBytes quoting write) (escapesUnicode : Bool) (bytes : List UInt8) :
    (write bytes).plan escapesUnicode =
      .ofCalls (.ascii quoting.delimiter ::
        (quoting.form.byteCalls bytes ++ [.ascii quoting.delimiter])) := by
  cases ofBytes with
  | clob => rfl
  | longClob => rfl
  | jsonClob => rfl

/-- A character by itself is given the operations of that character. -/
theorem script_codePoint (form : Form) (escapesUnicode : Bool) (c : Char) :
    (codePoint c.val form).script escapesUnicode =
      .ofCalls (form.charCalls escapesUnicode c) := by
  rw [script_eq_plan, plan, Form.codePointScript, CodePoint.toChar?_val]

variable {σ : Type} {s : Sink σ}

/-- What is seen of a body: one operation for each block that is not empty, and between the blocks
those of the single characters. -/
theorem observe_body_eq_calls (takes : s.TakesAll) {text : Text} (wellFormed : text.WellFormed)
    (form : Form) (kept : σ) :
    (s.observe (body text form) kept).result = .ok () ∧
      (s.observe (body text form) kept).calls =
        (Blocks.cut form.isUnescaped text.characters).calls id fun c =>
          ((codePoint c.val form).script s.escapesUnicode).calls := by
  obtain ⟨left, seen⟩ := Sink.observe_eq_plan takes (body text form) kept
  rw [seen]
  refine ⟨wellFormed.ending, (form.bodyCalls_eq_calls s.escapesUnicode text.characters).trans ?_⟩
  apply Blocks.calls_congr
  intro part _
  rw [script_codePoint]
  rfl

/-- What is seen of bytes: one operation for each block that is not empty, and between the blocks
the escapes from the table. -/
theorem observe_bytes_eq_calls (takes : s.TakesAll) {quoting : Quoting}
    {write : List UInt8 → Rendering} (ofBytes : OfBytes quoting write) (bytes : List UInt8)
    (kept : σ) :
    (s.observe (write bytes) kept).result = .ok () ∧
      (s.observe (write bytes) kept).calls =
        .ascii quoting.delimiter ::
          ((Blocks.cut (fun byte => (quoting.form.escape? byte).isNone) bytes).calls Char.ofUInt8
            (fun byte => (quoting.form.escape? byte).toList.map fun escape => .ascii escape.text) ++
          [.ascii quoting.delimiter]) := by
  obtain ⟨left, seen⟩ := Sink.observe_eq_plan takes (write bytes) kept
  rw [seen, ofBytes.plan_eq, Form.byteCalls_eq_calls]
  exact ⟨rfl, rfl⟩

/-- **Runs are as long as they can be, and all else is written one by one.** The characters of a
text that have no entry in the escape table form blocks, in one way. On a sink that takes all it can
be asked for, each block that is not empty is one operation, and what stands between blocks is
written as it is by itself: by one operation, or by one for each half of its pair where JSON escapes
it. The bytes of a clob are written likewise, with one operation for each entry of the table. -/
theorem runs_are_maximal (takes : s.TakesAll) (kept : σ) :
    (∀ (text : Text) (form : Form), text.WellFormed →
      text.codeUnits = Utf16.encode text.characters ∧
        ∃ blocks : Blocks Char,
          (∀ other : Blocks Char,
            other.Divide form.isUnescaped text.characters ↔ other = blocks) ∧
          (s.observe (body text form) kept).result = .ok () ∧
          (s.observe (body text form) kept).calls =
            blocks.calls id fun c => ((codePoint c.val form).script s.escapesUnicode).calls) ∧
      (∀ (form : Form) (c : Char),
        if form.isJson = true ∧ s.escapesUnicode = true ∧ 0x10000 ≤ c.val then
          ∃ lead trail, lead.length = 6 ∧ trail.length = 6 ∧
            (codePoint c.val form).script s.escapesUnicode =
              .ofCalls [.ascii lead, .ascii trail]
        else ∃ call, (codePoint c.val form).script s.escapesUnicode = .ofCalls [call]) ∧
      ∀ (quoting : Quoting) (write : List UInt8 → Rendering) (bytes : List UInt8),
        OfBytes quoting write →
        ∃ blocks : Blocks UInt8,
          (∀ other : Blocks UInt8,
            other.Divide (fun byte => (quoting.form.escape? byte).isNone) bytes ↔
              other = blocks) ∧
          (s.observe (write bytes) kept).result = .ok () ∧
          (s.observe (write bytes) kept).calls =
            .ascii quoting.delimiter ::
              (blocks.calls Char.ofUInt8 (fun byte =>
                (quoting.form.escape? byte).toList.map fun escape => .ascii escape.text) ++
              [.ascii quoting.delimiter]) := by
  refine ⟨?_, ?_, ?_⟩
  · intro text form wellFormed
    exact ⟨wellFormed.spelled_out.2, _, fun other => Blocks.divide_iff,
      observe_body_eq_calls takes wellFormed form kept⟩
  · intro form c
    rw [script_codePoint]
    split
    · rename_i halves
      obtain ⟨json, escapes, large⟩ := halves
      rw [escapes, Form.charCalls_of_halves json large]
      exact ⟨_, _, Form.length_text_u _, Form.length_text_u _, rfl⟩
    · rename_i whole
      obtain ⟨call, single⟩ := Form.exists_charCalls_eq_singleton whole
      exact ⟨call, congrArg Script.ofCalls single⟩
  · intro quoting write bytes ofBytes
    exact ⟨_, fun other => Blocks.divide_iff, observe_bytes_eq_calls takes ofBytes bytes kept⟩

/-- Blocks at both ends, an escape, and a pair whose halves stand side by side; and bytes with an
empty block in front. -/
theorem runs_are_maximal_around_halves :
    let text := Text.units [0x61, 0x62, 0x0A, 0xD83D, 0xDE00, 0x63]
    let seen := (Sink.units true).observe (body text .json) #[]
    text.WellFormed ∧ seen.result = .ok () ∧
      seen.calls = [.ascii ['a', 'b'], .ascii ['\\', 'n'],
        .ascii ['\\', 'u', 'd', '8', '3', 'd'], .ascii ['\\', 'u', 'd', 'e', '0', '0'],
        .ascii ['c']] ∧
      ((Sink.units true).observe (clob (some [0xFF, 0x61, 0x62])) #[]).calls =
        [.ascii ['"'], .ascii ['\\', 'x', 'f', 'f'], .ascii ['a', 'b'], .ascii ['"']] := by
  intro text seen
  have wellFormed : text.WellFormed :=
    .unit rfl (.unit rfl (.unit rfl (.pair rfl rfl (.unit rfl .nil))))
  obtain ⟨ofText, _, ofBytes⟩ := runs_are_maximal (Sink.takesAll_units true) #[]
  obtain ⟨_, blocks, unique, result, calls⟩ := ofText text .json wellFormed
  have divided := (unique _).mp (Blocks.divide_cut Form.json.isUnescaped text.characters)
  obtain ⟨byteBlocks, only, _, byteCalls⟩ := ofBytes _ _ [0xFF, 0x61, 0x62] .clob
  have bytesDivided := (only _).mp (Blocks.divide_cut _ [0xFF, 0x61, 0x62])
  refine ⟨wellFormed, result, calls.trans ?_, byteCalls.trans ?_⟩
  · rw [← divided]
    rfl
  · rw [← bytesDivided]
    rfl

end Rendering

end IonLiteral
