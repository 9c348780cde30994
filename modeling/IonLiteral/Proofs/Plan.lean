import IonLiteral.Proofs.Pieces

/-! # Plans

Every rendering has a plan: the operations it asks a sink for and how it ends, worked out from the
text and from whether the sink escapes. Carrying out a rendering is running its plan, on any sink,
so a sink that takes all it can be asked for is seen to be given exactly the plan.
-/

namespace IonLiteral

/-! ## Scripts that ask for allowed operations -/

namespace Script

/-- All operations of a script are proper. -/
def IsProper (escapesUnicode : Bool) (script : Script) : Prop :=
  ∀ call ∈ script.calls, call.IsProper escapesUnicode

/-- All operations of a script are allowed in a form. -/
def IsAllowed (form : Form) (escapesUnicode : Bool) (script : Script) : Prop :=
  ∀ call ∈ script.calls, call.IsAllowed form escapesUnicode

/-- Scripts one after the other are allowed if both are. -/
theorem IsAllowed.andThen {form : Form} {escapesUnicode : Bool} {first second : Script}
    (before : first.IsAllowed form escapesUnicode) (after : second.IsAllowed form escapesUnicode) :
    (first.andThen second).IsAllowed form escapesUnicode := by
  unfold Script.andThen
  cases first.ending with
  | ok _ => exact List.forall_mem_append.mpr ⟨before, after⟩
  | error fault => exact before

/-- Nothing but a fault. -/
def fault (fault : Fault) : Script := ⟨[], .error fault⟩

/-- A body between delimiters, or the null where there is no body. -/
def quoted (quoting : Quoting) : Option Script → Script
  | none => ofCalls [.ascii quoting.absent]
  | some body =>
    (ofCalls [.ascii quoting.delimiter]).andThen
      (body.andThen (ofCalls [.ascii quoting.delimiter]))

end Script

/-- A quoted script that ends well puts the delimiter on both sides of its body. -/
theorem Script.chars_quoted (quoting : Quoting) {body : Script} (ok : body.ending = .ok ()) :
    (Script.quoted quoting (some body)).ending = .ok () ∧
      (Script.quoted quoting (some body)).chars =
        quoting.delimiter ++ (body.chars ++ quoting.delimiter) := by
  obtain ⟨calls, ending⟩ := body
  cases ok
  refine ⟨rfl, ?_⟩
  change quoting.delimiter ++ (calls ++ [Call.ascii quoting.delimiter]).flatMap Call.chars = _
  rw [List.flatMap_append]
  change _ ++ (_ ++ (quoting.delimiter ++ [])) = _
  rw [List.append_nil]
  rfl

/-- Whether a value has some printable characters on both sides of its body, and as its null. -/
def Quoting.isPrintable (quoting : Quoting) : Bool :=
  [quoting.delimiter, quoting.absent].all fun text =>
    !text.isEmpty && text.all fun c => decide (IsPrintable c)

/-- Delimiters and nulls may be put if they are printable. -/
theorem Quoting.isAllowed_of_isPrintable {quoting : Quoting}
    (printable : quoting.isPrintable = true) (escapesUnicode : Bool) {text : List Char}
    (around : text ∈ [quoting.delimiter, quoting.absent]) :
    (Script.ofCalls [.ascii text]).IsAllowed quoting.form escapesUnicode := by
  have here := List.all_eq_true.mp printable text around
  rw [Bool.and_eq_true, Bool.not_eq_true', List.isEmpty_eq_false_iff] at here
  refine List.forall_mem_singleton.mpr (.of_printable here.1 fun c member => ?_)
  exact of_decide_eq_true (List.all_eq_true.mp here.2 c member)

/-- A quoted script is allowed if its body is. -/
theorem Script.IsAllowed.quoted {escapesUnicode : Bool} {quoting : Quoting} {body : Option Script}
    (printable : quoting.isPrintable = true)
    (allowed : ∀ script ∈ body, script.IsAllowed quoting.form escapesUnicode) :
    (Script.quoted quoting body).IsAllowed quoting.form escapesUnicode := by
  cases body with
  | none =>
      have absent : quoting.absent ∈ [quoting.delimiter, quoting.absent] :=
        List.mem_cons_of_mem _ List.mem_cons_self
      exact quoting.isAllowed_of_isPrintable printable escapesUnicode absent
  | some body =>
      have delimiter :=
        quoting.isAllowed_of_isPrintable printable escapesUnicode List.mem_cons_self
      exact delimiter.andThen ((allowed body rfl).andThen delimiter)

/-! ## Bodies -/

namespace Text

/-- How the writing of a text ends, if the sink does not fail before. -/
def ending (text : Text) : Except Fault Unit :=
  match text.unmatched with
  | none => .ok ()
  | some found => .error (.unmatchedSurrogate found)

/-- The plan for the body of a text, with its plain characters in runs. -/
def batched (text : Text) (form : Form) (escapesUnicode : Bool) : Script :=
  ⟨form.bodyCalls escapesUnicode text.characters, text.ending⟩

/-- The plan for the body of a text, one character at a time. -/
def oneByOne (text : Text) (form : Form) (escapesUnicode : Bool) : Script :=
  ⟨text.characters.flatMap (form.charCalls escapesUnicode), text.ending⟩

theorem isAllowed_oneByOne (text : Text) (form : Form) (escapesUnicode : Bool) :
    (text.oneByOne form escapesUnicode).IsAllowed form escapesUnicode := by
  intro call member
  obtain ⟨c, _, among⟩ := List.mem_flatMap.mp member
  exact form.isAllowed_charCalls escapesUnicode c call among

theorem isAllowed_batched (text : Text) (form : Form) (escapesUnicode : Bool) :
    (text.batched form escapesUnicode).IsAllowed form escapesUnicode :=
  form.isAllowed_bodyCalls escapesUnicode text.characters

/-- The plan for a body comes of the one for single characters, by joining ASCII. -/
theorem joinsTo_batched (text : Text) (form : Form) (escapesUnicode : Bool) :
    Call.JoinsTo (text.oneByOne form escapesUnicode).calls
      (text.batched form escapesUnicode).calls :=
  form.joinsTo_bodyCalls escapesUnicode text.characters

/-- However it is cut, the body of a text is what its characters are written as. -/
theorem chars_batched (text : Text) (form : Form) (escapesUnicode : Bool) :
    (text.batched form escapesUnicode).chars =
      text.characters.flatMap (form.charText escapesUnicode) := by
  rw [Script.chars, (text.joinsTo_batched form escapesUnicode).flatMap_chars_eq]
  exact form.flatMap_chars_flatMap_charCalls escapesUnicode text.characters

/-- Well-formed text is written to the end. -/
theorem WellFormed.ending {text : Text} (wellFormed : text.WellFormed) : text.ending = .ok () := by
  unfold Text.ending
  rw [wellFormed.spelled_out.1]

end Text

namespace Form

/-- The plan for the bytes of a clob. It is the same for every sink. -/
def byteScript (form : Form) (bytes : List UInt8) : Script :=
  .ofCalls (form.byteCalls bytes)

theorem isAllowed_byteScript (form : Form) (bytes : List UInt8) (escapesUnicode : Bool) :
    (form.byteScript bytes).IsAllowed form escapesUnicode :=
  form.isAllowed_byteCalls bytes escapesUnicode

/-- The text of bytes is that of their characters, escaped. -/
theorem chars_byteScript (form : Form) (bytes : List UInt8) :
    (form.byteScript bytes).chars = (bytes.map Char.ofUInt8).flatMap (form.charText true) := by
  change (form.byteCalls bytes).flatMap Call.chars = _
  rw [(form.joinsTo_byteCalls bytes).flatMap_chars_eq]
  exact form.flatMap_chars_flatMap_charCalls true (bytes.map Char.ofUInt8)

end Form

namespace Sink

variable {σ : Type}

/-- Writing stops at an unmatched surrogate as the text ends. -/
theorem stopAt_eq (text : Text) :
    stopAt (σ := σ) text.unmatched =
      match text.ending with
      | .ok _ => pure ()
      | .error fault => throw fault := by
  unfold Text.ending
  cases text.unmatched <;> rfl

/-- Writing a body is running its plan. -/
theorem writeBody_eq (s : Sink σ) (form : Form) (text : Text) :
    s.writeBody form text = (text.batched form s.escapesUnicode).run s := by
  cases text with
  | chars cs =>
      rw [writeBody, putPieces_scanChars]
      exact (Script.run_ofCalls s _).symm
  | units us =>
      have scan : scanUnits form us =
          ⟨scanChars form (Text.units us).characters, (Text.units us).unmatched⟩ :=
        scanUnitsFrom_eq form 0 us
      rw [writeBody, scan, putPieces_scanChars, stopAt_eq]
      rfl

/-- Writing single characters is carrying out their operations. -/
theorem writeChars_eq (s : Sink σ) (form : Form) (cs : List Char) :
    s.writeChars form cs = s.performAll (cs.flatMap (form.charCalls s.escapesUnicode)) := by
  unfold writeChars
  rw [performAll_flatMap]
  exact congrArg cs.forM (funext fun c => s.writeChar_eq form c)

theorem writeUnits_eq (s : Sink σ) (form : Form) (us : List CodeUnit) :
    s.writeUnits form us = ((Text.units us).oneByOne form s.escapesUnicode).run s := by
  have each (cs : List Char) :
      (cs.map Char.val).forM (s.writeCodePoint form) = s.writeChars form cs := by
    induction cs with
    | nil => rfl
    | cons c cs ih =>
        rw [List.map_cons]
        change (do s.writeCodePoint form c.val; (cs.map Char.val).forM (s.writeCodePoint form)) =
          (do s.writeChar form c; s.writeChars form cs)
        rw [ih, writeCodePoint, CodePoint.toChar?_val]
  unfold writeUnits Utf16.decode
  rw [Utf16.codePoints_decodeFrom, each, writeChars_eq]
  exact congrArg (_ >>= ·) (funext fun _ => stopAt_eq (.units us))

theorem writeByteBody_eq (s : Sink σ) (form : Form) (bytes : List UInt8) :
    s.writeByteBody form bytes = (form.byteScript bytes).run s := by
  unfold writeByteBody Form.byteScript Form.byteCalls
  rw [Script.run_ofCalls, performAll_flatMap]
  refine congrArg (scanBytes form bytes).forM (funext fun piece => ?_)
  cases piece with
  | run text => exact (s.performAll_singleton (.ascii text)).symm
  | special escape => exact (s.performAll_singleton (.ascii escape.text)).symm

/-- Writing a body between delimiters is running its quoted plan. -/
theorem writeQuoted_eq (s : Sink σ) (quoting : Quoting) (body : Option Script) :
    s.writeQuoted quoting (body.map fun script => script.run s) =
      (Script.quoted quoting body).run s := by
  cases body with
  | none =>
      unfold Script.quoted
      rw [Script.run_ofCalls, performAll_singleton]
      rfl
  | some body =>
      unfold Script.quoted
      rw [Script.run_andThen, Script.run_andThen, Script.run_ofCalls, performAll_singleton]
      rfl

end Sink

/-! ## Renderings -/

/-- The plan for a symbol, which stands bare if it can. -/
def Text.symbolScript (text : Text) (quoteOperators escapesUnicode : Bool) : Script :=
  match Symbol.needsQuotes text quoteOperators with
  | .error fault => .fault fault
  | .ok true => .quoted .symbol (some (text.batched .symbol escapesUnicode))
  | .ok false => text.batched .symbol escapesUnicode

/-- The plan for a character given by its number. -/
def Form.codePointScript (form : Form) (escapesUnicode : Bool) (cp : CodePoint) : Script :=
  match cp.toChar? with
  | some c => .ofCalls (form.charCalls escapesUnicode c)
  | none => .fault (.notScalar cp)

namespace Rendering

/-- The body of a text, written one character at a time. -/
def oneByOne (form : Form) : Text → Rendering
  | .chars cs => chars cs form
  | .units us => units us form

/-- The plan of a rendering, for a sink that escapes or does not. -/
def plan (escapesUnicode : Bool) : Rendering → Script
  | string text => .quoted .string (text.map (·.batched .shortString escapesUnicode))
  | longString text => .quoted .longString (text.map (·.batched .longString escapesUnicode))
  | jsonString text => .quoted .json (text.map (·.batched .json escapesUnicode))
  | symbol none _ => .quoted .symbol none
  | symbol (some text) quoteOperators => text.symbolScript quoteOperators escapesUnicode
  | quotedSymbol text =>
    if text.any Text.isEmpty then .fault .emptySymbol
    else .quoted .symbol (text.map (·.batched .symbol escapesUnicode))
  | clob bytes => .quoted .clob (bytes.map Form.clob.byteScript)
  | longClob bytes => .quoted .longClob (bytes.map Form.longString.byteScript)
  | jsonClob bytes => .quoted .jsonClob (bytes.map Form.json.byteScript)
  | body text form => text.batched form escapesUnicode
  | codePoint cp form => form.codePointScript escapesUnicode cp
  | chars cs form => (Text.chars cs).oneByOne form escapesUnicode
  | units us form => (Text.units us).oneByOne form escapesUnicode

end Rendering

namespace Sink

variable {σ : Type}

theorem writeText_eq (s : Sink σ) (quoting : Quoting) (text : Option Text) :
    s.writeText quoting text =
      (Script.quoted quoting (text.map (·.batched quoting.form s.escapesUnicode))).run s := by
  unfold writeText
  rw [← writeQuoted_eq, Option.map_map]
  exact congrArg (fun body => s.writeQuoted quoting (text.map body))
    (funext fun text => s.writeBody_eq quoting.form text)

theorem writeBytes_eq (s : Sink σ) (quoting : Quoting) (bytes : Option (List UInt8)) :
    s.writeBytes quoting bytes =
      (Script.quoted quoting (bytes.map quoting.form.byteScript)).run s := by
  unfold writeBytes
  rw [← writeQuoted_eq, Option.map_map]
  exact congrArg (fun body => s.writeQuoted quoting (bytes.map body))
    (funext fun bytes => s.writeByteBody_eq quoting.form bytes)

theorem writeSymbol_eq (s : Sink σ) (text : Text) (quoteOperators : Bool) :
    s.writeSymbol quoteOperators (some text) =
      (text.symbolScript quoteOperators s.escapesUnicode).run s := by
  unfold Text.symbolScript
  rw [writeSymbol]
  cases Symbol.needsQuotes text quoteOperators with
  | error fault => rfl
  | ok quotes =>
      cases quotes with
      | true => exact s.writeText_eq .symbol (some text)
      | false => exact s.writeBody_eq .symbol text

theorem writeCodePoint_eq (s : Sink σ) (form : Form) (cp : CodePoint) :
    s.writeCodePoint form cp = (form.codePointScript s.escapesUnicode cp).run s := by
  unfold writeCodePoint Form.codePointScript
  cases cp.toChar? with
  | none => rfl
  | some c => exact (s.writeChar_eq form c).trans (Script.run_ofCalls s _).symm

end Sink

/-- **A rendering runs its plan.** This is so on every sink, whatever its operations do. -/
theorem Rendering.write_eq_run_plan {σ : Type} (s : Sink σ) (rendering : Rendering) :
    rendering.write s = (rendering.plan s.escapesUnicode).run s := by
  cases rendering with
  | string text => exact s.writeText_eq .string text
  | longString text => exact s.writeText_eq .longString text
  | jsonString text => exact s.writeText_eq .json text
  | symbol text quoteOperators =>
      cases text with
      | none => exact s.writeText_eq .symbol none
      | some text => exact s.writeSymbol_eq text quoteOperators
  | quotedSymbol text =>
      rw [write, plan, Sink.writeQuotedSymbol]
      split
      · rfl
      · exact s.writeText_eq .symbol text
  | clob bytes => exact s.writeBytes_eq .clob bytes
  | longClob bytes => exact s.writeBytes_eq .longClob bytes
  | jsonClob bytes => exact s.writeBytes_eq .jsonClob bytes
  | body text form => exact s.writeBody_eq form text
  | codePoint cp form => exact s.writeCodePoint_eq form cp
  | chars cs form => exact (s.writeChars_eq form cs).trans (Script.run_ofCalls s _).symm
  | units us form => exact s.writeUnits_eq form us

/-- No sink can tell renderings with the same plan apart. -/
theorem Rendering.observe_congr {σ : Type} {s : Sink σ} {rendering other : Rendering}
    (same : rendering.plan s.escapesUnicode = other.plan s.escapesUnicode) (kept : σ) :
    s.observe rendering kept = s.observe other kept := by
  have writes : rendering.write s.traced = other.write s.traced := by
    rw [write_eq_run_plan, write_eq_run_plan]
    exact congrArg (Script.run s.traced) same
  rw [Sink.observe, Sink.observe, writes]

/-- The form that a rendering writes in. -/
def Rendering.form : Rendering → Form
  | string _ => .shortString
  | longString _ | longClob _ => .longString
  | jsonString _ | jsonClob _ => .json
  | symbol _ _ | quotedSymbol _ => .symbol
  | clob _ => .clob
  | body _ form | codePoint _ form | chars _ form | units _ form => form

/-- **Only allowed operations are planned.** -/
theorem Rendering.isAllowed_plan (escapesUnicode : Bool) (rendering : Rendering) :
    (rendering.plan escapesUnicode).IsAllowed rendering.form escapesUnicode := by
  have noCalls (form : Form) (fault : Fault) :
      (Script.fault fault).IsAllowed form escapesUnicode := fun _ member => nomatch member
  have texts (quoting : Quoting) (text : Option Text) (printable : quoting.isPrintable = true) :
      (Script.quoted quoting (text.map (·.batched quoting.form escapesUnicode))).IsAllowed
        quoting.form escapesUnicode := by
    refine .quoted printable fun script member => ?_
    obtain ⟨text, _, rfl⟩ := Option.map_eq_some_iff.mp member
    exact text.isAllowed_batched quoting.form escapesUnicode
  have clobs (quoting : Quoting) (bytes : Option (List UInt8))
      (printable : quoting.isPrintable = true) :
      (Script.quoted quoting (bytes.map quoting.form.byteScript)).IsAllowed
        quoting.form escapesUnicode := by
    refine .quoted printable fun script member => ?_
    obtain ⟨bytes, _, rfl⟩ := Option.map_eq_some_iff.mp member
    exact quoting.form.isAllowed_byteScript bytes escapesUnicode
  cases rendering with
  | string text => exact texts .string text rfl
  | longString text => exact texts .longString text rfl
  | jsonString text => exact texts .json text rfl
  | symbol text quoteOperators =>
      cases text with
      | none => exact texts .symbol none rfl
      | some text =>
          rw [plan, Text.symbolScript]
          split
          · exact noCalls _ _
          · exact texts .symbol (some text) rfl
          · exact text.isAllowed_batched .symbol escapesUnicode
  | quotedSymbol text =>
      rw [plan]
      split
      · exact noCalls _ _
      · exact texts .symbol text rfl
  | clob bytes => exact clobs .clob bytes rfl
  | longClob bytes => exact clobs .longClob bytes rfl
  | jsonClob bytes => exact clobs .jsonClob bytes rfl
  | body text form => exact text.isAllowed_batched form escapesUnicode
  | codePoint cp form =>
      rw [plan, Form.codePointScript]
      split
      · exact form.isAllowed_charCalls escapesUnicode _
      · exact noCalls _ _
  | chars cs form => exact (Text.chars cs).isAllowed_oneByOne form escapesUnicode
  | units us form => exact (Text.units us).isAllowed_oneByOne form escapesUnicode

/-- **Nothing improper is planned.** -/
theorem Rendering.isProper_plan (escapesUnicode : Bool) (rendering : Rendering) :
    (rendering.plan escapesUnicode).IsProper escapesUnicode :=
  fun call member => (rendering.isAllowed_plan escapesUnicode call member).isProper

/-- **A plan is followed.** Every sink is seen to be asked for the operations of the plan, up to the
first that fails. -/
theorem Sink.follows_plan {σ : Type} (s : Sink σ) (rendering : Rendering) (kept : σ) :
    s.Follows (rendering.plan s.escapesUnicode) kept (s.observe rendering kept) :=
  s.observe_follows (rendering.write_eq_run_plan s.traced) kept

/-- A rendering ends as planned, or with the fault of an operation that the sink has to be ready
for. -/
theorem Sink.result_observe_cases {σ : Type} (s : Sink σ) (rendering : Rendering) (kept : σ) :
    (s.observe rendering kept).result = (rendering.plan s.escapesUnicode).ending ∨
      ∃ call between fault left, call.IsProper s.escapesUnicode ∧
        s.perform call between = .error fault left ∧
        (s.observe rendering kept).result = .error fault := by
  have follows := s.follows_plan rendering kept
  generalize s.observe rendering kept = seen at follows
  cases follows with
  | whole taken => exact .inl rfl
  | @cut before after call between left fault split taken failed =>
      have planned : call ∈ (rendering.plan s.escapesUnicode).calls := by
        rw [split]
        exact List.mem_append_cons_self
      have proper := rendering.isProper_plan s.escapesUnicode call planned
      exact .inr ⟨call, between, fault, left, proper, failed, rfl⟩

/-- Watching a sink does not change how a step ends or what it leaves. -/
theorem Session.step_eq_outcome {σ : Type} (s : Sink σ) (rendering : Rendering) (kept : σ) :
    step s kept (.render rendering) = (s.observe rendering kept).outcome := by
  rw [step_eq, ← (s.follows_plan rendering kept).outcome_eq, ← rendering.write_eq_run_plan]
  rfl

/-- A plan whose operations are taken is seen as it is. -/
theorem Sink.Takes.observe_eq_plan {σ : Type} {s : Sink σ} {rendering : Rendering} {kept left : σ}
    (taken : s.Takes kept (rendering.plan s.escapesUnicode).calls left) :
    s.observe rendering kept =
      ⟨(rendering.plan s.escapesUnicode).ending, (rendering.plan s.escapesUnicode).calls, left⟩ :=
  taken.observe_eq (rendering.write_eq_run_plan s.traced)

/-- **Sinks are given the plan.** A sink that takes all it can be asked for is given every operation
of the plan, and the rendering ends as planned. -/
theorem Sink.observe_eq_plan {σ : Type} {s : Sink σ} (takes : s.TakesAll) (rendering : Rendering)
    (kept : σ) :
    ∃ left, s.observe rendering kept =
      ⟨(rendering.plan s.escapesUnicode).ending, (rendering.plan s.escapesUnicode).calls, left⟩ :=
  observe_of_script takes (rendering.write_eq_run_plan s.traced)
    (rendering.isProper_plan s.escapesUnicode) kept

/-- What is seen of a quoted value on a sink that takes all: its text between its delimiters. -/
theorem Sink.observe_quoted {σ : Type} {s : Sink σ} (takes : s.TakesAll) {rendering : Rendering}
    {quoting : Quoting} {body : Script}
    (planned : rendering.plan s.escapesUnicode = .quoted quoting (some body))
    (ok : body.ending = .ok ()) (kept : σ) :
    (s.observe rendering kept).result = .ok () ∧
      (s.observe rendering kept).chars =
        quoting.delimiter ++ (body.chars ++ quoting.delimiter) := by
  obtain ⟨left, seen⟩ := observe_eq_plan takes rendering kept
  obtain ⟨ending, chars⟩ := Script.chars_quoted quoting ok
  rw [seen, planned]
  exact ⟨ending, chars⟩

end IonLiteral
