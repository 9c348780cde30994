import IonLiteral.Proofs.Encodings
import IonLiteral.Proofs.Plan

/-! # Batches and single characters

There are two ways to write the body of a text: in runs by the escape tables, and one character at a
time by the rule for single characters. They end alike, at the same unmatched surrogate if there is
one, and ask a sink for the same operations up to how ASCII is cut. What the sinks keep that come
with the writers is the same.
-/

namespace IonLiteral

namespace Rendering

/-- The plan of a body comes of the plan for single characters, by joining ASCII. -/
theorem joinsTo_plan_body (escapesUnicode : Bool) (form : Form) (text : Text) :
    Call.JoinsTo ((oneByOne form text).plan escapesUnicode).calls
      ((body text form).plan escapesUnicode).calls := by
  cases text with
  | chars cs => exact (Text.chars cs).joinsTo_batched form escapesUnicode
  | units us => exact (Text.units us).joinsTo_batched form escapesUnicode

/-- One character at a time, a text ends as its units say. -/
theorem ending_plan_oneByOne (escapesUnicode : Bool) (form : Form) (text : Text) :
    ((oneByOne form text).plan escapesUnicode).ending = text.ending := by
  cases text <;> rfl

/-- An additive sink cannot tell both ways of writing apart, whether or not its operations fail. -/
theorem write_body_of_additive {σ : Type} {s : Sink σ} (additive : s.Additive) (form : Form)
    (text : Text) : (body text form).write s = (oneByOne form text).write s := by
  rw [write_eq_run_plan, write_eq_run_plan]
  exact additive.run_eq (joinsTo_plan_body s.escapesUnicode form text)
    (ending_plan_oneByOne s.escapesUnicode form text).symm

/-- **Batching changes nothing but the cuts.** On every sink that takes all it can be asked for, a
body written in runs and a body written one character at a time end alike, with a fault at the first
unmatched surrogate if there is one, and ask for the same operations once neighbouring ASCII is
joined. Strings, byte writers and code units are left with the same contents. -/
theorem body_agrees_with_oneByOne (form : Form) (text : Text) :
    (∀ (σ : Type) (s : Sink σ), s.TakesAll → ∀ kept : σ,
      (s.observe (body text form) kept).result = text.ending ∧
        (s.observe (oneByOne form text) kept).result = text.ending ∧
        Call.merged (s.observe (body text form) kept).calls =
          Call.merged (s.observe (oneByOne form text) kept).calls) ∧
      (∀ escapesUnicode, (body text form).write (.characters escapesUnicode none) =
        (oneByOne form text).write (.characters escapesUnicode none)) ∧
      (∀ charset w, (body text form).write (.bytes charset w) =
        (oneByOne form text).write (.bytes charset w)) ∧
      (∀ escapesUnicode, (body text form).write (.units escapesUnicode) =
        (oneByOne form text).write (.units escapesUnicode)) := by
  refine ⟨?_, ?_, ?_, ?_⟩
  · intro σ s takes kept
    obtain ⟨left, batched⟩ := Sink.observe_eq_plan takes (body text form) kept
    obtain ⟨other, single⟩ := Sink.observe_eq_plan takes (oneByOne form text) kept
    rw [batched, single]
    exact ⟨rfl, ending_plan_oneByOne s.escapesUnicode form text,
      (joinsTo_plan_body s.escapesUnicode form text).merged_eq⟩
  · intro escapesUnicode
    exact write_body_of_additive (Sink.additive_characters escapesUnicode) form text
  · intro charset w
    exact write_body_of_additive (Sink.additive_bytes charset w) form text
  · intro escapesUnicode
    exact write_body_of_additive (Sink.additive_units escapesUnicode) form text

/-- Three runs, an escape and half a surrogate pair. -/
theorem body_agrees_with_oneByOne_at_half :
    let text := Text.units [0x61, 0x62, 0x0A, 0x63, 0xD83D, 0x64]
    ((Sink.units false).observe (body text .json) #[]).result =
        .error (.unmatchedSurrogate ⟨.high, 0xD83D, 4⟩) ∧
      Call.merged ((Sink.units false).observe (body text .json) #[]).calls =
        [.ascii ['a', 'b', '\\', 'n', 'c']] := by
  intro text
  have agrees := (body_agrees_with_oneByOne .json text).1 _ (Sink.units false)
    (Sink.takesAll_units false) #[]
  exact ⟨agrees.1.trans rfl, agrees.2.2.trans rfl⟩

end Rendering

end IonLiteral
