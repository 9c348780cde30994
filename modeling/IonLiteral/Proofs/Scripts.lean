import IonLiteral.Proofs.Plan

/-! # Scripts of renderings

The script that a recorder keeps of a rendering tells what the rendering does to any sink. It is
known before the sink is: it depends on what is to be written and on whether the sink escapes. A
sink that fails sees a beginning of it, and the fault of the sink goes before any fault that the text
would have shown later.
-/

namespace IonLiteral

/-! ## Endings -/

/-- The ends of a script: well, or with a fault that lies in what was to be written. -/
inductive IsInputEnding : Except Fault Unit → Prop
  | ok : IsInputEnding (.ok ())
  | emptySymbol : IsInputEnding (.error .emptySymbol)
  | unmatchedSurrogate (found : Unmatched) : IsInputEnding (.error (.unmatchedSurrogate found))
  | notScalar (cp : CodePoint) : IsInputEnding (.error (.notScalar cp))

/-- What lies in the input has a kind of its own. -/
theorem IsInputEnding.isCustom_eq_false {fault : Fault} (ends : IsInputEnding (.error fault)) :
    fault.isCustom = false := by
  cases ends <;> rfl

/-- A text ends well or by what it holds. -/
theorem Text.isInputEnding_ending (text : Text) : IsInputEnding text.ending := by
  unfold Text.ending
  cases text.unmatched with
  | none => exact .ok
  | some found => exact .unmatchedSurrogate found

/-- A quoted script ends as its body does. -/
theorem Script.ending_quoted (quoting : Quoting) (body : Script) :
    (Script.quoted quoting (some body)).ending = body.ending := by
  obtain ⟨calls, ending⟩ := body
  cases ending <;> rfl

/-- A quoted script ends well or by what its body holds. -/
theorem Script.isInputEnding_quoted (quoting : Quoting) {body : Option Script}
    (inside : ∀ script ∈ body, IsInputEnding script.ending) :
    IsInputEnding (Script.quoted quoting body).ending := by
  cases body with
  | none => exact .ok
  | some body =>
      rw [ending_quoted]
      exact inside body rfl

/-- Units that are not empty have a kind. -/
theorem Symbol.exists_kindOfUnits (u : CodeUnit) (rest : List CodeUnit) :
    ∃ found, kindOfUnits (u :: rest) = .ok found := by
  rw [kindOfUnits]
  repeat' split
  all_goals exact ⟨_, rfl⟩

/-- Only an empty text is no symbol. -/
theorem Symbol.eq_emptySymbol_of_needsQuotes {text : Text} {quoteOperators : Bool} {fault : Fault}
    (refused : needsQuotes text quoteOperators = .error fault) : fault = .emptySymbol := by
  unfold needsQuotes kind at refused
  generalize text.codeUnits = us at refused
  cases us with
  | nil => exact (Except.error.inj refused).symm
  | cons u rest =>
      obtain ⟨found, known⟩ := exists_kindOfUnits u rest
      rw [known] at refused
      cases found <;> cases refused

/-- **Plans end well or by their input.** -/
theorem Rendering.isInputEnding_plan (escapesUnicode : Bool) (rendering : Rendering) :
    IsInputEnding (rendering.plan escapesUnicode).ending := by
  have texts (quoting : Quoting) (text : Option Text) :
      IsInputEnding (Script.quoted quoting
        (text.map (·.batched quoting.form escapesUnicode))).ending := by
    refine Script.isInputEnding_quoted quoting fun script member => ?_
    obtain ⟨text, _, rfl⟩ := Option.map_eq_some_iff.mp member
    exact text.isInputEnding_ending
  have clobs (quoting : Quoting) (bytes : Option (List UInt8)) :
      IsInputEnding (Script.quoted quoting (bytes.map quoting.form.byteScript)).ending := by
    refine Script.isInputEnding_quoted quoting fun script member => ?_
    obtain ⟨bytes, _, rfl⟩ := Option.map_eq_some_iff.mp member
    exact .ok
  cases rendering with
  | string text => exact texts .string text
  | longString text => exact texts .longString text
  | jsonString text => exact texts .json text
  | symbol text quoteOperators =>
      cases text with
      | none => exact .ok
      | some text =>
          rw [plan, Text.symbolScript]
          split
          · rename_i refused
            cases Symbol.eq_emptySymbol_of_needsQuotes refused
            exact .emptySymbol
          · exact texts .symbol (some text)
          · exact text.isInputEnding_ending
  | quotedSymbol text =>
      rw [plan]
      split
      · exact .emptySymbol
      · exact texts .symbol text
  | clob bytes => exact clobs .clob bytes
  | longClob bytes => exact clobs .longClob bytes
  | jsonClob bytes => exact clobs .jsonClob bytes
  | body text form => exact text.isInputEnding_ending
  | codePoint cp form =>
      rw [plan, Form.codePointScript]
      split
      · exact .ok
      · exact .notScalar cp
  | chars cs form => exact (Text.chars cs).isInputEnding_ending
  | units us form => exact (Text.units us).isInputEnding_ending

/-! ## What a recorder keeps -/

/-- A recorder without a limit takes any operations and keeps them. -/
theorem Sink.takes_recorder (escapesUnicode : Bool) (kept : Array Call) (calls : List Call) :
    (recorder escapesUnicode true none).Takes kept calls (kept ++ calls) := by
  induction calls generalizing kept with
  | nil =>
      rw [Array.appendList_nil]
      exact .nil kept
  | cons call calls ih =>
      have first : (recorder escapesUnicode true none).perform call kept =
          .ok () (kept.push call) := by
        cases call <;> rfl
      rw [Array.appendList_cons]
      exact .cons first (ih _)

/-- The script of a writer is what a recorder keeps of it and how it ends there. -/
theorem scriptOf_eq (escapesUnicode : Bool)
    (write : Sink (Array Call) → SinkM (Array Call) Unit) :
    let recorded := Outcome.ofResult (write (.recorder escapesUnicode true none) #[])
    scriptOf escapesUnicode write = ⟨recorded.kept.toList, recorded.result⟩ := by
  unfold scriptOf
  cases write (.recorder escapesUnicode true none) #[] <;> rfl

/-- **A recorder keeps the plan.** -/
theorem Rendering.script_eq_plan (rendering : Rendering) (escapesUnicode : Bool) :
    rendering.script escapesUnicode = rendering.plan escapesUnicode := by
  have taken := Sink.takes_recorder escapesUnicode #[] (rendering.plan escapesUnicode).calls
  have recorded : Outcome.ofResult (rendering.write (.recorder escapesUnicode true none) #[]) =
      ⟨(rendering.plan escapesUnicode).ending,
        (#[] : Array Call) ++ (rendering.plan escapesUnicode).calls⟩ := by
    rw [write_eq_run_plan]
    exact (Sink.Follows.whole taken).outcome_eq
  refine (scriptOf_eq escapesUnicode rendering.write).trans ?_
  rw [recorded]
  exact congrArg (Script.mk · _) Array.toList_appendList

/-! ## Cut scripts -/

namespace Rendering

/-- **A rendering is a script cut at the first failure of its sink.** The script depends on what is
written and on whether the sink escapes, and ends well or with a fault of the input. Every sink that
escapes alike, whatever it keeps and whenever it fails, is asked for the operations of the script in
their order. If one fails the rendering ends there with its fault; if none fails all were asked for
and the rendering ends as the script does. So what a sink was asked for is a beginning of what a
recorder keeps. -/
theorem follows_script {σ : Type} (rendering : Rendering) (s : Sink σ) (kept : σ) :
    let script := rendering.script s.escapesUnicode
    let seen := s.observe rendering kept
    IsInputEnding script.ending ∧ s.Follows script kept seen ∧
      Session.step s kept (.render rendering) = seen.outcome ∧ seen.calls <+: script.calls := by
  intro script seen
  have planned : script = rendering.plan s.escapesUnicode := rendering.script_eq_plan _
  rw [planned]
  have follows := s.follows_plan rendering kept
  exact ⟨isInputEnding_plan s.escapesUnicode rendering, follows,
    Session.step_eq_outcome s rendering kept, follows.calls_prefix⟩

end Rendering

end IonLiteral
