import IonLiteral.Print
import IonLiteral.Proofs.Encodings
import IonLiteral.Proofs.Scripts

/-! # One text in every sink

The sinks that come with the writers keep one and the same text, each in its own encoding, and see
every rendering end alike. This holds after each rendering of a session, also after renderings that
failed. So a sink of code units never holds anything but UTF-16, and what is written to bytes is what
is printed.
-/

namespace IonLiteral

/-- The same ending with another view of what was kept. -/
def Outcome.map {σ τ : Type} (view : σ → τ) (outcome : Outcome σ) : Outcome τ :=
  ⟨outcome.result, view outcome.kept⟩

namespace Sink

variable {σ τ : Type} {first : Sink σ} {second : Sink τ} {add : σ → List Char → σ}
  {addOther : τ → List Char → τ}

/-- **Sinks that collect text agree through a session.** If one sink keeps a view of what the other
keeps, it does so after every rendering, and all renderings end alike on both. -/
theorem Collects.run_eq_map (collects : first.Collects add) (other : second.Collects addOther)
    (flags : second.escapesUnicode = first.escapesUnicode) (view : σ → τ)
    (same : ∀ kept cs, addOther (view kept) cs = view (add kept cs)) (renderings : List Rendering)
    (kept : σ) :
    Session.run second (view kept) (renderings.map .render) =
      (Session.run first kept (renderings.map .render)).map (.map view) := by
  -- Both add the text of one plan, so the view still holds before the next rendering.
  induction renderings generalizing kept with
  | nil => rfl
  | cons rendering renderings ih =>
      have here := other.write rendering (view kept)
      rw [same, flags] at here
      rw [Session.run_renderings_cons, Session.run_renderings_cons, List.map_cons, collects.write,
        here, ih]
      rfl

/-- What holds of the start and stays true as text is added holds throughout a session. -/
theorem Collects.forall_mem_run (collects : first.Collects add) (valid : σ → Prop)
    (grows : ∀ kept (rendering : Rendering), valid kept →
      valid (add kept (rendering.plan first.escapesUnicode).chars))
    (renderings : List Rendering) {kept : σ} (start : valid kept) :
    ∀ outcome ∈ Session.run first kept (renderings.map .render), valid outcome.kept := by
  induction renderings generalizing kept with
  | nil => exact fun _ member => nomatch member
  | cons rendering renderings ih =>
      have next := grows kept rendering start
      rw [Session.run_renderings_cons, List.forall_mem_cons, collects.write]
      exact ⟨next, ih next⟩

end Sink

/-- A sink that escapes is given ASCII only. -/
theorem Rendering.ascii_of_mem_plan (rendering : Rendering) {c : Char}
    (member : c ∈ (rendering.plan true).chars) : c.val < 0x80 := by
  obtain ⟨call, planned, among⟩ := List.mem_flatMap.mp member
  have proper := rendering.isProper_plan true call planned
  cases call with
  | ascii text => exact proper c among
  | char c => cases proper
  | pair lead trail => cases proper.1

/-- The bytes of a string grow as the string does. -/
theorem Charset.encode_grown (charset : Charset) (kept : String) (cs : List Char) :
    (charset.encode kept.toList).toArray ++ charset.encode cs =
      (charset.encode (kept ++ String.ofList cs).toList).toArray := by
  rw [List.toArray_appendList, ← charset.encode_append, String.toList_append, String.toList_ofList]

theorem Charset.encode_empty (charset : Charset) : (charset.encode "".toList).toArray = #[] :=
  congrArg List.toArray charset.encode_nil

namespace Session

/-- A session on a byte writer is one on a string, in the bytes of the charset. -/
theorem run_bytes (charset : Charset) {w : ByteWriter} (unbounded : w.limit = none)
    (takes : w.chunk ≠ some 0) (renderings : List Rendering) :
    run (.bytes charset w) #[] (renderings.map .render) =
      (run (.characters charset.escapesUnicode none) "" (renderings.map .render)).map
        (.map fun kept => (charset.encode kept.toList).toArray) := by
  rw [← charset.encode_empty]
  exact (Sink.collects_characters charset.escapesUnicode).run_eq_map
    (Sink.collects_bytes charset unbounded takes) rfl _ charset.encode_grown renderings ""

/-- A session on a list of units is one on a string, in its units. -/
theorem run_units (escapesUnicode : Bool) (renderings : List Rendering) :
    run (.units escapesUnicode) #[] (renderings.map .render) =
      (run (.characters escapesUnicode none) "" (renderings.map .render)).map
        (.map fun kept => (Utf16.encode kept.toList).toArray) := by
  refine (Sink.collects_characters escapesUnicode).run_eq_map (Sink.collects_units escapesUnicode)
    rfl (fun kept => (Utf16.encode kept.toList).toArray) (fun kept cs => ?_) renderings ""
  rw [List.toArray_appendList, ← Utf16.encode_append, String.toList_append, String.toList_ofList]

/-- A session on a sink that escapes leaves ASCII after every step. -/
theorem ascii_of_mem_run (renderings : List Rendering) :
    ∀ outcome ∈ run (.characters true none) "" (renderings.map .render),
      ∀ c ∈ outcome.kept.toList, c.val < 0x80 := by
  refine (Sink.collects_characters true).forall_mem_run
    (fun kept => ∀ c ∈ kept.toList, c.val < 0x80) (fun kept rendering ascii c member => ?_)
    renderings fun _ member => nomatch member
  rw [String.toList_append, String.toList_ofList] at member
  rcases List.mem_append.mp member with earlier | added
  · exact ascii c earlier
  · exact rendering.ascii_of_mem_plan added

end Session

/-! ## Printing and writing -/

namespace Rendering

/-- Values given as characters can be written to their end, but for the empty symbol. -/
theorem plan_ofChars (cs : List Char) (quoteOperators escapesUnicode : Bool) (form : Form) :
    ((ofChars cs quoteOperators form).plan escapesUnicode).ending = .ok () ∨
      (ofChars cs quoteOperators form).plan escapesUnicode = .fault .emptySymbol := by
  cases form with
  | shortString => exact .inl rfl
  | longString => exact .inl rfl
  | symbol =>
      change (Text.symbolScript (.chars cs) quoteOperators escapesUnicode).ending = .ok () ∨
        Text.symbolScript (.chars cs) quoteOperators escapesUnicode = .fault .emptySymbol
      unfold Text.symbolScript
      split
      · rename_i refused
        rw [Symbol.eq_emptySymbol_of_needsQuotes refused]
        exact .inr rfl
      · exact .inl rfl
      · exact .inl rfl
  | clob => exact .inl rfl
  | json => exact .inl rfl

end Rendering

/-- What is collected is what a string is left with, if the writer comes to its end. -/
theorem collect_eq (escapesUnicode : Bool) (write : Sink String → SinkM String Unit) :
    let collected := Outcome.ofResult (write (.characters escapesUnicode none) "")
    collect escapesUnicode write = collected.result.map fun _ => collected.kept := by
  unfold collect
  cases write (.characters escapesUnicode none) "" <;> rfl

/-- **Printing makes a string of the plan.** -/
theorem printWith_eq (options : Options) (form : Form) (value : String) :
    printWith options form value =
      ((Rendering.ofChars value.toList options.quoteOperators form).plan
        options.charset.escapesUnicode).ending.map fun _ =>
          String.ofList ((Rendering.ofChars value.toList options.quoteOperators form).plan
            options.charset.escapesUnicode).chars := by
  have collected := (Sink.collects_characters options.charset.escapesUnicode).write
    (.ofChars value.toList options.quoteOperators form) ""
  rw [String.empty_append] at collected
  refine (collect_eq options.charset.escapesUnicode _).trans ?_
  rw [collected]
  rfl

/-- **What is written is what is printed**, in the charset of the options. -/
theorem writeTo_eq_printWith {w : ByteWriter} (unbounded : w.limit = none)
    (takes : w.chunk ≠ some 0) (options : Options) (form : Form) (value : String) :
    Outcome.ofResult (writeTo w options form value #[]) =
      match printWith options form value with
      | .ok printed => ⟨.ok (), (options.charset.encode printed.toList).toArray⟩
      | .error fault => ⟨.error fault, #[]⟩ := by
  let rendering := Rendering.ofChars value.toList options.quoteOperators form
  have written : Outcome.ofResult (writeTo w options form value #[]) =
      ⟨(rendering.plan options.charset.escapesUnicode).ending,
        #[] ++ options.charset.encode (rendering.plan options.charset.escapesUnicode).chars⟩ :=
    (Sink.collects_bytes options.charset unbounded takes).write rendering #[]
  rw [written, printWith_eq]
  rcases Rendering.plan_ofChars value.toList options.quoteOperators options.charset.escapesUnicode
    form with ok | empty
  · rw [ok, ← options.charset.encode_empty, options.charset.encode_grown, String.empty_append]
    rfl
  · have nothing : (Script.fault .emptySymbol).chars = [] := rfl
    change Outcome.mk (Script.ending _) (#[] ++ options.charset.encode (Script.chars _)) = _
    rw [empty, nothing, options.charset.encode_nil, Array.appendList_nil]
    rfl

/-! ## Sessions -/

namespace Session

/-- **All sinks keep one text.** A session on a string, on byte writers that never fail and on code
units has the same results everywhere, rendering by rendering. After each of them, whether it failed
or not, the byte writers hold the UTF-8 and the UTF-16 of the string and the code units are its
units. Where the sinks escape, the string is ASCII, and bytes and units hold its characters one by
one. So code units are always well-formed, and a single value is written as it is printed. -/
theorem sinks_keep_one_text {w : ByteWriter} (unbounded : w.limit = none)
    (takes : w.chunk ≠ some 0) (renderings : List Rendering) :
    let steps := renderings.map Step.render
    let text := run (.characters false none) "" steps
    let ascii := run (.characters true none) "" steps
    run (.bytes .utf8 w) #[] steps =
        text.map (.map fun kept => (Utf8.encode kept.toList).toArray) ∧
      run (.bytes .utf16 w) #[] steps =
        text.map (.map fun kept => ((Utf16.encode kept.toList).flatMap CodeUnit.bytes).toArray) ∧
      run (.units false) #[] steps =
        text.map (.map fun kept => (Utf16.encode kept.toList).toArray) ∧
      (∀ outcome ∈ ascii, ∀ c ∈ outcome.kept.toList, c.val < 0x80) ∧
      run (.bytes .ascii w) #[] steps =
        ascii.map (.map fun kept => (kept.toList.map Char.toUInt8).toArray) ∧
      run (.units true) #[] steps =
        ascii.map (.map fun kept => (kept.toList.map fun c => c.val.toUInt16).toArray) ∧
      (∀ escapesUnicode, ∀ outcome ∈ run (.units escapesUnicode) #[] steps,
        Utf16.WellFormed outcome.kept.toList) ∧
      ∀ options form value, Outcome.ofResult (writeTo w options form value #[]) =
        match printWith options form value with
        | .ok printed => ⟨.ok (), (options.charset.encode printed.toList).toArray⟩
        | .error fault => ⟨.error fault, #[]⟩ := by
  intro steps text ascii
  have isAscii : ∀ outcome ∈ ascii, ∀ c ∈ outcome.kept.toList, c.val < 0x80 :=
    ascii_of_mem_run renderings
  refine ⟨run_bytes .utf8 unbounded takes renderings, run_bytes .utf16 unbounded takes renderings,
    run_units false renderings, isAscii, ?_, ?_, ?_, writeTo_eq_printWith unbounded takes⟩
  -- In ASCII every character is one byte and one unit.
  · refine (run_bytes .ascii unbounded takes renderings).trans
      (List.map_congr_left fun outcome member => ?_)
    have one := Utf8.encode_of_ascii (isAscii outcome member)
    exact congrArg (Outcome.mk outcome.result ∘ List.toArray) one
  · refine (run_units true renderings).trans (List.map_congr_left fun outcome member => ?_)
    have one := Utf16.encode_of_ascii (isAscii outcome member)
    exact congrArg (Outcome.mk outcome.result ∘ List.toArray) one
  · intro escapesUnicode outcome member
    obtain ⟨before, _, rfl⟩ := List.mem_map.mp (run_units escapesUnicode renderings ▸ member)
    exact Utf16.wellFormed_encode before.kept.toList

/-- A body that breaks off at half a pair, a symbol without text and a string, one byte at a time. -/
theorem sinks_keep_one_text_after_faults :
    let w : ByteWriter := ⟨none, some 1, true⟩
    let renderings : List Rendering :=
      [.body (.units [0x20AC, 0xD83D]) .json, .symbol (some (.chars [])) true,
        .string (some (.chars ['😀']))]
    w.limit = none ∧ w.chunk ≠ some 0 ∧
      run (.bytes .utf16 w) #[] (renderings.map .render) =
        [⟨.error (.unmatchedSurrogate ⟨.high, 0xD83D, 1⟩), #[0x20, 0xAC]⟩,
          ⟨.error .emptySymbol, #[0x20, 0xAC]⟩,
          ⟨.ok (), #[0x20, 0xAC, 0x00, 0x22, 0xD8, 0x3D, 0xDE, 0x00, 0x00, 0x22]⟩] := by
  intro w renderings
  have unbounded : w.limit = none := rfl
  have takes : w.chunk ≠ some 0 := by decide
  exact ⟨unbounded, takes, (sinks_keep_one_text unbounded takes renderings).2.1.trans rfl⟩

end Session

end IonLiteral
