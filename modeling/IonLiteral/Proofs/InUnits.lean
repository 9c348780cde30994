import IonLiteral.Proofs.Kinds
import IonLiteral.Proofs.Plan

/-! # The same text in code units

A text can be handed over as characters or as the code units of these characters. The plans of its
renderings are the same, so no sink can tell which it was, not even one that fails in the middle: it
is asked for the same operations one by one, keeps the same and sees the rendering end alike.
-/

namespace IonLiteral

namespace Text

/-- The same text, given in code units. -/
def inUnits (text : Text) : Text := units text.codeUnits

/-- A text in units has the same characters. -/
theorem characters_inUnits (text : Text) : text.inUnits.characters = text.characters := by
  cases text with
  | chars cs => exact Utf16.chars_decode_encode cs
  | units us => rfl

/-- A text in units has the same unmatched surrogate, if any. -/
theorem unmatched_inUnits (text : Text) : text.inUnits.unmatched = text.unmatched := by
  cases text with
  | chars cs =>
      change (Utf16.decodeFrom 0 (Utf16.encode cs)).unmatched = none
      rw [Utf16.decodeFrom_encode]
  | units us => rfl

theorem isEmpty_inUnits (text : Text) : text.inUnits.isEmpty = text.isEmpty := by
  cases text with
  | chars cs => exact Symbol.isEmpty_encode cs
  | units us => rfl

theorem ending_inUnits (text : Text) : text.inUnits.ending = text.ending := by
  unfold ending
  rw [unmatched_inUnits]

theorem batched_inUnits (text : Text) (form : Form) (escapesUnicode : Bool) :
    text.inUnits.batched form escapesUnicode = text.batched form escapesUnicode := by
  unfold batched
  rw [characters_inUnits, ending_inUnits]

theorem oneByOne_inUnits (text : Text) (form : Form) (escapesUnicode : Bool) :
    text.inUnits.oneByOne form escapesUnicode = text.oneByOne form escapesUnicode := by
  unfold oneByOne
  rw [characters_inUnits, ending_inUnits]

/-- A symbol in units is planned the same. -/
theorem symbolScript_inUnits (text : Text) (quoteOperators escapesUnicode : Bool) :
    text.inUnits.symbolScript quoteOperators escapesUnicode =
      text.symbolScript quoteOperators escapesUnicode := by
  unfold symbolScript
  rw [batched_inUnits]
  rfl

end Text

namespace Rendering

/-- The same rendering of the same text, given in code units. Bytes and single code points are no
text. -/
def inUnits : Rendering → Rendering
  | string text => string (text.map Text.inUnits)
  | longString text => longString (text.map Text.inUnits)
  | jsonString text => jsonString (text.map Text.inUnits)
  | symbol text quoteOperators => symbol (text.map Text.inUnits) quoteOperators
  | quotedSymbol text => quotedSymbol (text.map Text.inUnits)
  | clob bytes => clob bytes
  | longClob bytes => longClob bytes
  | jsonClob bytes => jsonClob bytes
  | body text form => body text.inUnits form
  | codePoint cp form => codePoint cp form
  | chars cs form => units (Utf16.encode cs) form
  | units us form => units us form

/-- **One plan for both.** -/
theorem plan_inUnits (escapesUnicode : Bool) (rendering : Rendering) :
    rendering.inUnits.plan escapesUnicode = rendering.plan escapesUnicode := by
  have quoted (quoting : Quoting) (text : Option Text) :
      Script.quoted quoting ((text.map Text.inUnits).map (·.batched quoting.form escapesUnicode)) =
        Script.quoted quoting (text.map (·.batched quoting.form escapesUnicode)) := by
    rw [Option.map_map]
    exact congrArg (fun body => Script.quoted quoting (text.map body))
      (funext fun text => text.batched_inUnits quoting.form escapesUnicode)
  cases rendering with
  | string text => exact quoted .string text
  | longString text => exact quoted .longString text
  | jsonString text => exact quoted .json text
  | symbol text quoteOperators =>
      cases text with
      | none => rfl
      | some text => exact text.symbolScript_inUnits quoteOperators escapesUnicode
  | quotedSymbol text =>
      have empty : (text.map Text.inUnits).any Text.isEmpty = text.any Text.isEmpty := by
        rw [Option.any_map]
        exact congrArg (text.any ·) (funext Text.isEmpty_inUnits)
      rw [inUnits, plan, plan, empty]
      split
      · rfl
      · exact quoted .symbol text
  | clob bytes => rfl
  | longClob bytes => rfl
  | jsonClob bytes => rfl
  | body text form => exact text.batched_inUnits form escapesUnicode
  | codePoint cp form => rfl
  | chars cs form => exact (Text.chars cs).oneByOne_inUnits form escapesUnicode
  | units us form => rfl

/-- **No sink can tell characters from their units.** Every rendering of a text asks every sink for
the same operations one by one, whether the text is given as characters or as their code units,
leaves the same in the sink and ends alike. Both are the same symbol, too. -/
theorem observe_inUnits (rendering : Rendering) (text : Text) :
    (∀ (σ : Type) (s : Sink σ) (kept : σ),
      s.observe rendering.inUnits kept = s.observe rendering kept ∧
        rendering.inUnits.write s kept = rendering.write s kept) ∧
      Symbol.isKeyword text.inUnits = Symbol.isKeyword text ∧
      Symbol.kind text.inUnits = Symbol.kind text ∧
      ∀ quoteOperators,
        Symbol.needsQuotes text.inUnits quoteOperators = Symbol.needsQuotes text quoteOperators := by
  refine ⟨fun σ s kept => ⟨?_, ?_⟩, rfl, rfl, fun _ => rfl⟩
  · exact observe_congr (plan_inUnits s.escapesUnicode rendering) kept
  · rw [write_eq_run_plan, write_eq_run_plan, plan_inUnits]

end Rendering

end IonLiteral
