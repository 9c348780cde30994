import IonLiteral.Print
import IonLiteral.Proofs.Encodings
import IonLiteral.Proofs.Plan

/-! # Writers that are full

A byte writer with a limit keeps a beginning of what a writer without one would keep. Where a
rendering breaks off does not matter, nor how many bytes the writer takes at a time, nor whether it
fails or keeps silent once it is full. A rendering ends as it would without the limit if all its
bytes had room or if it has none, and else with the fault of the writer.
-/

namespace IonLiteral

/-! ## Beginnings of arrays -/

section Arrays

variable {α : Type}

theorem toList_take (held : Array α) (count : Nat) :
    (held.take count).toList = held.toList.take count := by
  simp only [Array.take_eq_extract, Array.toList_extract, List.extract_eq_take_drop, Nat.sub_zero,
    List.drop_zero]

theorem take_appendList (held : Array α) (more : List α) (count : Nat) :
    (held ++ more).take count = held.take count ++ more.take (count - held.size) := by
  apply Array.ext'
  simp only [toList_take, Array.toList_appendList, List.take_append, Array.length_toList]

end Arrays

/-! ## Byte writers -/

namespace ByteWriter

/-- The fault of a writer that is full. -/
def fullFault (w : ByteWriter) : Fault :=
  .byteTarget (if w.silentWhenFull then "failed to write whole buffer" else "closed")

/-- What an outcome without a limit becomes on a writer of `limit` bytes, if `before` bytes were
written without a limit earlier. -/
def curtail (w : ByteWriter) (limit before : Nat) (whole : Outcome (Array UInt8)) :
    Outcome (Array UInt8) where
  result :=
    if whole.kept.size ≤ limit ∨ whole.kept.size = before then whole.result
    else .error w.fullFault
  kept := whole.kept.take limit

section Bounded

variable {w : ByteWriter} {limit : Nat} (bounded : w.limit = some limit) (takes : w.chunk ≠ some 0)

include bounded

/-- A writer that has reached its limit refuses because it is full. -/
theorem refusal_of_reached {held : Nat} (reached : limit ≤ held) :
    w.refusal held = w.fullFault := by
  have full : w.isFull held = true := by
    unfold isFull
    rw [bounded]
    exact decide_eq_true reached
  unfold refusal fullFault
  rw [full]
  cases w.silentWhenFull <;> rfl

include takes

/-- A bounded writer takes what is wanted up to its limit, however it takes it. -/
theorem taken_of_bounded (held wanted : Nat) : w.taken held wanted = min wanted (limit - held) := by
  unfold taken
  rw [if_neg takes, bounded]

/-- **Bytes that have room, and bytes that have none.** -/
theorem writeAll_take (bytes : List UInt8) (held : Array UInt8) :
    w.writeAll bytes (held.take limit) =
      if held.size + bytes.length ≤ limit ∨ bytes.length = 0 then
        .ok () ((held ++ bytes).take limit)
      else .error w.fullFault ((held ++ bytes).take limit) := by
  have size : (held.take limit).size = min limit held.size := by
    rw [Array.take_eq_extract, Array.size_extract, Nat.sub_zero]
  have room : limit - min limit held.size = limit - held.size := by omega
  rw [writeAll_eq, take_appendList]
  unfold outcome
  rw [taken_of_bounded bounded takes, size, room]
  by_cases fits : held.size + bytes.length ≤ limit ∨ bytes.length = 0
  · have all : min bytes.length (limit - held.size) = bytes.length := by omega
    rw [if_pos fits, if_pos all, List.take_of_length_le (by omega)]
  · have notAll : min bytes.length (limit - held.size) ≠ bytes.length := by omega
    have first : min bytes.length (limit - held.size) = limit - held.size := by omega
    rw [if_neg fits, if_neg notAll, first, refusal_of_reached bounded (by omega)]

end Bounded

end ByteWriter

/-! ## Renderings -/

/-- **A rendering writes the bytes of its text**, and ends as planned if there was room for them. -/
theorem Rendering.write_bytes (rendering : Rendering) (charset : Charset) (w : ByteWriter) :
    rendering.write (.bytes charset w) = (do
      w.writeAll (charset.encode (rendering.plan charset.escapesUnicode).chars)
      match (rendering.plan charset.escapesUnicode).ending with
      | .ok _ => pure ()
      | .error fault => throw fault) := by
  rw [rendering.write_eq_run_plan, Script.run]
  exact congrArg (· >>= _)
    (Sink.performAll_bytes (rendering.isProper_plan charset.escapesUnicode) w)

/-- A writer without bounds takes all bytes of the text, and the rendering ends as planned. -/
theorem Rendering.write_unlimited (rendering : Rendering) (charset : Charset)
    (held : Array UInt8) :
    Outcome.ofResult (rendering.write (.bytes charset .unlimited) held) =
      ⟨(rendering.plan charset.escapesUnicode).ending,
        held ++ charset.encode (rendering.plan charset.escapesUnicode).chars⟩ :=
  (Sink.collects_bytes charset rfl (by decide)).write rendering held

/-- **One rendering.** -/
theorem Rendering.write_take {w : ByteWriter} {limit : Nat} (bounded : w.limit = some limit)
    (takes : w.chunk ≠ some 0) (rendering : Rendering) (charset : Charset) (held : Array UInt8) :
    Outcome.ofResult (rendering.write (.bytes charset w) (held.take limit)) =
      w.curtail limit held.size
        (Outcome.ofResult (rendering.write (.bytes charset .unlimited) held)) := by
  rw [write_unlimited, write_bytes]
  generalize charset.encode (rendering.plan charset.escapesUnicode).chars = bytes
  have written := ByteWriter.writeAll_take bounded takes bytes held
  unfold ByteWriter.curtail
  rw [size_appendList]
  by_cases fits : held.size + bytes.length ≤ limit ∨ bytes.length = 0
  · have same : held.size + bytes.length ≤ limit ∨ held.size + bytes.length = held.size := by omega
    rw [if_pos fits] at written
    rw [SinkM.bind_of_ok written, if_pos same]
    cases (rendering.plan charset.escapesUnicode).ending <;> rfl
  · have cut : ¬ (held.size + bytes.length ≤ limit ∨ held.size + bytes.length = held.size) := by
      omega
    rw [if_neg fits] at written
    rw [SinkM.bind_of_error written, if_neg cut]
    rfl

/-! ## Sessions -/

namespace Session

/-- The steps behind the first one go on from what it kept. -/
theorem final_cons {σ : Type} (kept : σ) (first : Outcome σ) (rest : List (Outcome σ)) :
    final kept (first :: rest) = final first.kept rest := by
  unfold final
  rw [List.getLast?_cons]
  cases rest.getLast? <;> rfl

section Bounded

variable {w : ByteWriter} {limit : Nat} (bounded : w.limit = some limit) (takes : w.chunk ≠ some 0)
  (charset : Charset) (renderings : List Rendering)

include bounded takes

/-- **A session, rendering by rendering.** -/
theorem run_take (held : Array UInt8) (k : Nat) :
    (run (.bytes charset w) (held.take limit) (renderings.map .render))[k]? =
      let whole := run (.bytes charset .unlimited) held (renderings.map .render)
      whole[k]?.map (w.curtail limit (final held (whole.take k)).size) := by
  -- On the renderings, for whatever was written before. The bytes held stay a beginning of those of
  -- the unlimited writer, also after a rendering that was cut short.
  induction renderings generalizing held k with
  | nil => rfl
  | cons rendering renderings ih =>
      have first := rendering.write_take bounded takes charset held
      rw [run_renderings_cons, run_renderings_cons, first]
      cases k with
      | zero => rfl
      | succ k =>
          simp only [List.getElem?_cons_succ, List.take_succ_cons, final_cons]
          exact ih _ k

/-- **A session, at its end.** -/
theorem final_take (held : Array UInt8) :
    final (held.take limit) (run (.bytes charset w) (held.take limit) (renderings.map .render)) =
      (final held (run (.bytes charset .unlimited) held (renderings.map .render))).take limit := by
  induction renderings generalizing held with
  | nil => rfl
  | cons rendering renderings ih =>
      have first := rendering.write_take bounded takes charset held
      rw [run_renderings_cons, run_renderings_cons, final_cons, final_cons, first]
      exact ih _

end Bounded

/-- **A full writer keeps a beginning.** Of the bytes of a whole session a writer of `limit` bytes
keeps the first `limit`, however many it takes at a time and whatever it does once it is full. Each
rendering ends as it does without a limit if all bytes up to its end have room or if it writes none,
and else with the fault of the writer. The same holds of a single value written to bytes. -/
theorem bounded_keeps_beginning {w : ByteWriter} {limit : Nat} (bounded : w.limit = some limit)
    (takes : w.chunk ≠ some 0) (charset : Charset) (renderings : List Rendering) :
    let steps := renderings.map Step.render
    let whole := run (.bytes charset .unlimited) #[] steps
    let cut := run (.bytes charset w) #[] steps
    final #[] cut = (final #[] whole).take limit ∧
      (∀ k, cut[k]? = whole[k]?.map (w.curtail limit (final #[] (whole.take k)).size)) ∧
      ∀ options form value,
        Outcome.ofResult (writeTo w options form value #[]) =
          w.curtail limit 0 (Outcome.ofResult (writeTo .unlimited options form value #[])) := by
  have nothing : (#[] : Array UInt8).take limit = #[] :=
    Array.ext' ((toList_take #[] limit).trans List.take_nil)
  intro steps whole cut
  refine ⟨?_, fun k => ?_, fun options form value => ?_⟩
  · have last := final_take bounded takes charset renderings #[]
    rwa [nothing] at last
  · have each := run_take bounded takes charset renderings #[] k
    rwa [nothing] at each
  · have written := (Rendering.ofChars value.toList options.quoteOperators form).write_take bounded
      takes options.charset #[]
    rwa [nothing] at written

/-- Seven bytes of room, in three at a time, for a string, a symbol without text, a body that breaks
off behind the limit, and one that has nothing to write. -/
theorem bounded_keeps_beginning_at_seven :
    let w : ByteWriter := ⟨some 7, some 3, true⟩
    let renderings : List Rendering :=
      [.string (some (.chars ['é'])), .symbol (some (.chars [])) true,
        .body (.units [0x61, 0xD800]) .json, .body (.units [0xDC00]) .json]
    let cut := run (.bytes .utf16 w) #[] (renderings.map .render)
    w.limit = some 7 ∧ w.chunk ≠ some 0 ∧
      final #[] cut = #[0x00, 0x22, 0x00, 0xE9, 0x00, 0x22, 0x00] ∧
      cut[1]?.map Outcome.result = some (.error .emptySymbol) ∧
      cut[2]?.map Outcome.result = some (.error (.byteTarget "failed to write whole buffer")) ∧
      cut[3]?.map Outcome.result = some (.error (.unmatchedSurrogate ⟨.low, 0xDC00, 0⟩)) := by
  intro w renderings cut
  have bounded : w.limit = some 7 := rfl
  have takes : w.chunk ≠ some 0 := by decide
  obtain ⟨last, each, _⟩ := bounded_keeps_beginning bounded takes .utf16 renderings
  have whole : run (.bytes .utf16 .unlimited) #[] (renderings.map .render) =
      [⟨.ok (), #[0x00, 0x22, 0x00, 0xE9, 0x00, 0x22]⟩,
        ⟨.error .emptySymbol, #[0x00, 0x22, 0x00, 0xE9, 0x00, 0x22]⟩,
        ⟨.error (.unmatchedSurrogate ⟨.high, 0xD800, 1⟩),
          #[0x00, 0x22, 0x00, 0xE9, 0x00, 0x22, 0x00, 0x61]⟩,
        ⟨.error (.unmatchedSurrogate ⟨.low, 0xDC00, 0⟩),
          #[0x00, 0x22, 0x00, 0xE9, 0x00, 0x22, 0x00, 0x61]⟩] := by
    simp only [renderings, run_renderings_cons, Rendering.write_unlimited]
    rfl
  rw [whole] at last each
  refine ⟨bounded, takes, last, ?_, ?_, ?_⟩
  · rw [each 1]
    rfl
  · rw [each 2]
    rfl
  · rw [each 3]
    rfl

end Session

end IonLiteral
