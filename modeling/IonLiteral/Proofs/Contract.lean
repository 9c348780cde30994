import IonLiteral.Proofs.Encodings
import IonLiteral.Proofs.Scripts

/-! # What a sink can rely on

Whatever is written, and whenever a sink fails, it is asked only for operations that are allowed in
the form of the rendering. A sink that holds ASCII only is given printable characters, so it never
has to refuse one for its charset. Pairs are pairs, so a sink that knows no units finds a character
for each of them. Control characters reach no sink as they are.
-/

namespace IonLiteral

/-! ## Operations -/

/-- An operation that is allowed adds what may be printed, or characters beyond ASCII where the sink
holds them. -/
theorem Call.IsAllowed.prints_or_large {form : Form} {escapesUnicode : Bool} {call : Call}
    (allowed : call.IsAllowed form escapesUnicode) {c : Char} (member : c ∈ call.chars) :
    form.Prints c ∨ (escapesUnicode = false ∧ 0x80 ≤ c.val) := by
  cases call with
  | ascii text => exact .inl (allowed.2 c member)
  | char other =>
      cases List.mem_singleton.mp member
      exact .inr ⟨allowed.1, allowed.2.1⟩
  | pair lead trail =>
      obtain ⟨holds, high, low⟩ := allowed
      obtain ⟨found, value, large, _⟩ := CodePoint.exists_char_of_pair high low
      rw [chars, ← value, CodePoint.toChar?_val] at member
      cases List.mem_singleton.mp member
      exact .inr ⟨holds, UInt32.le_trans (by decide) (UInt32.not_lt.mp large)⟩

/-- Printable characters are no control characters. -/
theorem IsPrintable.not_control {c : Char} (printable : IsPrintable c) :
    ¬ (c.val < 0x20 ∨ c.val = 0x7F) := by
  rintro (low | delete)
  · exact UInt32.not_le.mpr low printable.1
  · rw [IsPrintable, delete] at printable
    exact absurd printable.2 (by decide)

/-- **A sink is asked only for what is allowed**, up to the operation at which it fails. -/
theorem Sink.isAllowed_observe {σ : Type} (s : Sink σ) (rendering : Rendering) (kept : σ) :
    ∀ call ∈ (s.observe rendering kept).calls,
      call.IsAllowed rendering.form s.escapesUnicode := by
  intro call member
  have follows := s.follows_plan rendering kept
  have planned := List.IsPrefix.subset follows.calls_prefix member
  exact rendering.isAllowed_plan s.escapesUnicode call planned

/-- A sink is given what may be printed, and characters beyond ASCII only if it holds them. -/
theorem Sink.prints_or_large_observe {σ : Type} (s : Sink σ) (rendering : Rendering) (kept : σ)
    {c : Char} (member : c ∈ (s.observe rendering kept).chars) :
    rendering.form.Prints c ∨ (s.escapesUnicode = false ∧ 0x80 ≤ c.val) := by
  obtain ⟨call, asked, inside⟩ := List.mem_flatMap.mp member
  exact (s.isAllowed_observe rendering kept call asked).prints_or_large inside

/-! ## Control characters -/

namespace Spelling

/-- A control character has one escape, which is the same for all sinks. -/
theorem exists_escape_of_isControl {form : Form} {c : Char} (control : isControl form c = true) :
    ∃ escape, ∀ escapesUnicode, ofChar form escapesUnicode c = .escaped [escape] := by
  have latin : c.val < 0x100 := UInt32.lt_trans (ascii_of_isControl control) (by decide)
  obtain ⟨number, single⟩ := byNumber_of_latin form latin
  unfold ofChar
  cases letter? form c with
  | some letter => exact ⟨.named letter, fun _ => rfl⟩
  | none =>
      refine ⟨number, fun escapesUnicode => ?_⟩
      simp only [control, single, Bool.true_or, ↓reduceIte]

/-- All control characters have to be escaped, but for the line feed of long strings. -/
theorem isControl_of_control {form : Form} {c : Char} (control : c.val < 0x20 ∨ c.val = 0x7F)
    (noLineFeed : ¬ (form = .longString ∧ c = '\n')) : isControl form c = true := by
  unfold isControl
  simp only [Bool.and_eq_true, Bool.or_eq_true, decide_eq_true_eq, beq_iff_eq,
    Bool.not_eq_true', Bool.and_eq_false_iff, beq_eq_false_iff_ne]
  exact ⟨control, Decidable.not_and_iff_or_not.mp noLineFeed⟩

end Spelling

namespace Rendering

/-- A character that is escaped is one operation, in a body as well as by itself. -/
theorem script_of_escaped {form : Form} {c : Char} {escape : Escape} {escapesUnicode : Bool}
    (escaped : Spelling.ofChar form escapesUnicode c = .escaped [escape]) :
    (body (.chars [c]) form).script escapesUnicode = .ofCalls [.ascii escape.text] ∧
      (codePoint c.val form).script escapesUnicode = .ofCalls [.ascii escape.text] := by
  have calls : form.charCalls escapesUnicode c = [.ascii escape.text] := by
    unfold Form.charCalls
    rw [escaped]
    rfl
  have notPlain : form.isPlainChar c = false := Bool.eq_false_iff.mpr fun plain => by
    rw [Spelling.ofChar_of_plain plain] at escaped
    cases escaped
  have pieces : form.bodyCalls escapesUnicode [c] = form.charCalls escapesUnicode c := by
    unfold Form.bodyCalls
    rw [scanChars_cons, notPlain, if_neg Bool.false_ne_true, List.flatMap_cons]
    change (Special.ofChar c).calls form escapesUnicode ++ [] = _
    rw [List.append_nil, Special.calls_ofChar notPlain]
  constructor
  · rw [script_eq_plan, plan, Text.batched]
    change Script.mk (form.bodyCalls escapesUnicode [c]) (.ok ()) = _
    rw [pieces, calls]
    rfl
  · rw [script_eq_plan, plan, Form.codePointScript, CodePoint.toChar?_val]
    exact congrArg Script.ofCalls calls

end Rendering

/-! ## Byte writers -/

/-- A byte writer fails for a reason of its own. -/
theorem ByteWriter.exists_reason (w : ByteWriter) {bytes : List UInt8} {held left : Array UInt8}
    {fault : Fault} (failed : w.writeAll bytes held = .error fault left) :
    ∃ reason, fault = .byteTarget reason := by
  rw [writeAll_eq, outcome] at failed
  split at failed
  · cases failed
  · cases failed
    unfold refusal
    split
    · exact ⟨_, rfl⟩
    · exact ⟨_, rfl⟩

/-- **Byte writers end by the input or for a reason of their own**, in every charset. -/
theorem Rendering.step_bytes_cases (rendering : Rendering) (charset : Charset) (w : ByteWriter)
    (held : Array UInt8) :
    IsInputEnding (Session.step (.bytes charset w) held (.render rendering)).result ∨
      ∃ reason, (Session.step (.bytes charset w) held (.render rendering)).result =
        .error (.byteTarget reason) := by
  let s := Sink.bytes charset w
  rw [Session.step_eq_outcome]
  rcases s.result_observe_cases rendering held with
    planned | ⟨call, between, fault, left, proper, failed, ends⟩
  · have input := rendering.isInputEnding_plan s.escapesUnicode
    rw [← planned] at input
    exact .inl input
  · rw [Sink.perform_bytes proper] at failed
    obtain ⟨reason, rfl⟩ := w.exists_reason failed
    exact .inr ⟨reason, ends⟩

namespace Rendering

/-- **Sinks are asked only for what is allowed.** Whatever is written and however the sink behaves,
every operation that it is asked for is allowed in the form that is written: ASCII is not empty and
printable, but for the line feeds of long strings, and characters and surrogate pairs come only to
sinks that do not escape. So a sink that escapes is given printable ASCII, no sink is given a
control character as it is, every pair stands for a character, and writing to a byte writer never
ends in a custom fault: it is never asked for a character that its charset has no bytes for. -/
theorem asks_only_allowed {σ : Type} (rendering : Rendering) (s : Sink σ) (kept : σ) :
    let seen := s.observe rendering kept
    (∀ call ∈ seen.calls, call.IsAllowed rendering.form s.escapesUnicode) ∧
      (s.escapesUnicode = true → ∀ c ∈ seen.chars, rendering.form.Prints c) ∧
      (∀ charset w held fault, fault.isCustom = true →
        (Session.step (.bytes charset w) held (.render rendering)).result ≠ .error fault) ∧
      (∀ lead trail, .pair lead trail ∈ seen.calls → ∃ c : Char,
        ∀ {τ : Type} (putChar : Char → SinkM τ Unit), putCombined putChar lead trail = putChar c) ∧
      (∀ c : Char, c.val < 0x20 ∨ c.val = 0x7F →
        (c ∈ seen.chars → rendering.form = .longString ∧ c = '\n') ∧
        ∀ form, ¬ (form = .longString ∧ c = '\n') → ∃ escape : Escape, ∀ escapesUnicode,
          (body (.chars [c]) form).script escapesUnicode = .ofCalls [.ascii escape.text] ∧
            (codePoint c.val form).script escapesUnicode = .ofCalls [.ascii escape.text]) := by
  intro seen
  refine ⟨s.isAllowed_observe rendering kept, ?_, ?_, ?_, ?_⟩
  · intro escapes c member
    rcases s.prints_or_large_observe rendering kept member with prints | ⟨holds, _⟩
    · exact prints
    · rw [escapes] at holds
      cases holds
  · intro charset w held fault custom refused
    -- The step ends by its input, or the writer has failed for its own reason.
    rcases rendering.step_bytes_cases charset w held with ends | ⟨reason, ends⟩
    · rw [refused] at ends
      rw [ends.isCustom_eq_false] at custom
      cases custom
    · rw [refused] at ends
      cases ends
      cases custom
  · intro lead trail asked
    obtain ⟨_, high, low⟩ := s.isAllowed_observe rendering kept _ asked
    obtain ⟨c, _, _, combined⟩ := exists_char_of_proper_pair high low
    exact ⟨c, combined⟩
  · intro c control
    refine ⟨fun member => ?_, fun form noLineFeed => ?_⟩
    · rcases s.prints_or_large_observe rendering kept member with
        (printable | lineFeed) | ⟨_, large⟩
      · exact absurd control printable.not_control
      · exact lineFeed
      · rcases control with low | delete
        · exact absurd (UInt32.lt_trans low (by decide)) (UInt32.not_lt.mpr large)
        · rw [delete] at large
          exact absurd large (by decide)
    · obtain ⟨escape, escaped⟩ :=
        Spelling.exists_escape_of_isControl (Spelling.isControl_of_control control noLineFeed)
      exact ⟨escape, fun escapesUnicode => script_of_escaped (escaped escapesUnicode)⟩

/-- A line feed, DEL, a Latin letter and a pair in a long string, on a sink that escapes and on one
that does not. -/
theorem asks_only_allowed_at_delete :
    let rendering := longString (some (.units [0x0A, 0x7F, 0xE9, 0xD83D, 0xDE00]))
    let escaping := (Sink.characters true none).observe rendering ""
    let holding := (Sink.characters false none).observe rendering ""
    escaping.chars = "'''\n\\x7f\\xe9\\U0001f600'''".toList ∧
      (∀ c ∈ escaping.chars, Form.longString.Prints c) ∧
      holding.calls = [.ascii "'''".toList, .ascii "\n".toList, .ascii "\\x7f".toList,
        .char 'é', .pair 0xD83D 0xDE00, .ascii "'''".toList] ∧
      (∃ c, ∀ {τ : Type} (putChar : Char → SinkM τ Unit),
        putCombined putChar 0xD83D 0xDE00 = putChar c) ∧
      '\x7F' ∉ holding.chars := by
  intro rendering escaping holding
  have ofEscaping := asks_only_allowed rendering (Sink.characters true none) ""
  have ofHolding := asks_only_allowed rendering (Sink.characters false none) ""
  have calls : holding.calls = [.ascii "'''".toList, .ascii "\n".toList, .ascii "\\x7f".toList,
      .char 'é', .pair 0xD83D 0xDE00, .ascii "'''".toList] := rfl
  refine ⟨rfl, ofEscaping.2.1 rfl, calls, ?_, fun member => ?_⟩
  · exact ofHolding.2.2.2.1 0xD83D 0xDE00 (by rw [calls]; decide)
  · exact absurd ((ofHolding.2.2.2.2 '\x7F' (.inr rfl)).1 member).2 (by decide)

end Rendering

end IonLiteral
