import IonLiteral.Proofs.Adapters
import IonLiteral.Proofs.Plan

/-! # What the sinks make of text

Asked for what a sink has to be ready for, each of the sinks that come with the writers adds the
characters of the operation at its end: as they are, as code units, or as their bytes in a charset.
So a rendering adds the text of its plan, and bytes go to a writer as if they were written all at
once.
-/

namespace IonLiteral

/-! ## Text in a charset -/

/-- The bytes of a text in a charset. Whatever ASCII holds, UTF-8 has the same bytes for. -/
def Charset.encode : Charset → List Char → List UInt8
  | ascii, cs | utf8, cs => Utf8.encode cs
  | utf16, cs => (Utf16.encode cs).flatMap CodeUnit.bytes

theorem Charset.encode_nil (charset : Charset) : charset.encode [] = [] := by
  cases charset <;> rfl

theorem Charset.encode_append (charset : Charset) (cs ds : List Char) :
    charset.encode (cs ++ ds) = charset.encode cs ++ charset.encode ds := by
  cases charset with
  | ascii => exact Utf8.encode_append cs ds
  | utf8 => exact Utf8.encode_append cs ds
  | utf16 =>
      change (Utf16.encode (cs ++ ds)).flatMap CodeUnit.bytes = _
      rw [Utf16.encode_append, List.flatMap_append]
      rfl

/-- The UTF-8 of ASCII characters is one byte for each. -/
theorem Utf8.encode_of_ascii {cs : List Char} (ascii : ∀ c ∈ cs, c.val < 0x80) :
    Utf8.encode cs = cs.map Char.toUInt8 := by
  induction cs with
  | nil => rfl
  | cons c cs ih =>
      have small : c.val.toNat < 0x80 := UInt32.lt_iff_toNat_lt.mp (ascii c List.mem_cons_self)
      have one : c.utf8Size = 1 :=
        Char.utf8Size_eq_one_iff.mpr (UInt32.le_iff_toNat_le.mpr (Nat.le_of_lt_succ small))
      rw [encode_cons, String.utf8EncodeChar_eq_singleton one,
        ih fun d member => ascii d (List.mem_cons_of_mem _ member)]
      rfl

/-- The UTF-16 of ASCII characters is one unit for each. -/
theorem Utf16.encode_of_ascii {cs : List Char} (ascii : ∀ c ∈ cs, c.val < 0x80) :
    Utf16.encode cs = cs.map fun c => c.val.toUInt16 := by
  induction cs with
  | nil => rfl
  | cons c cs ih =>
      have small : c.val < 0x10000 :=
        UInt32.lt_trans (ascii c List.mem_cons_self) (by decide)
      rw [encode_cons, encodeChar_small small,
        ih fun d member => ascii d (List.mem_cons_of_mem _ member)]
      rfl

/-- The units for ASCII are those of UTF-16. -/
theorem asciiUnits_eq_encode {text : List Char} (ascii : ∀ c ∈ text, c.val < 0x80) :
    asciiUnits text = Utf16.encode text := by
  unfold asciiUnits
  rw [Utf8.encode_of_ascii ascii, Utf16.encode_of_ascii ascii, List.map_map]
  refine List.map_congr_left fun c member => ?_
  have small : c.val.toNat < 0x80 := UInt32.lt_iff_toNat_lt.mp (ascii c member)
  apply UInt16.toNat_inj.mp
  change c.val.toUInt8.toUInt16.toNat = c.val.toUInt16.toNat
  rw [UInt8.toNat_toUInt16, UInt32.toNat_toUInt8, UInt32.toNat_toUInt16]
  omega

/-! ## Sinks that collect text -/

namespace Sink

variable {σ : Type}

/-- A sink collects text. Asked for what it has to be ready for, it adds the characters of the
operation to what it keeps, and it does not matter in how many parts they come. -/
structure Collects (s : Sink σ) (add : σ → List Char → σ) : Prop where
  add_nil : ∀ kept, add kept [] = kept
  add_append : ∀ kept cs ds, add kept (cs ++ ds) = add (add kept cs) ds
  perform : ∀ {call : Call}, call.IsProper s.escapesUnicode →
    ∀ kept, s.perform call kept = .ok () (add kept call.chars)

namespace Collects

variable {s : Sink σ} {add : σ → List Char → σ}

/-- A sink that collects text takes all it can be asked for. -/
theorem takesAll (collects : s.Collects add) : s.TakesAll :=
  fun _ proper kept => ⟨_, collects.perform proper kept⟩

/-- A sink that collects text is left with the text of its operations. -/
theorem takes (collects : s.Collects add) {calls : List Call}
    (proper : ∀ call ∈ calls, call.IsProper s.escapesUnicode) (kept : σ) :
    s.Takes kept calls (add kept (calls.flatMap Call.chars)) := by
  induction calls generalizing kept with
  | nil =>
      rw [List.flatMap_nil, collects.add_nil]
      exact .nil kept
  | cons call calls ih =>
      have first := collects.perform (proper call List.mem_cons_self) kept
      rw [List.flatMap_cons, collects.add_append]
      exact .cons first (ih (fun other member => proper other (List.mem_cons_of_mem _ member)) _)

/-- **A rendering adds its text**, and ends as planned. -/
theorem write (collects : s.Collects add) (rendering : Rendering) (kept : σ) :
    Outcome.ofResult (rendering.write s kept) =
      ⟨(rendering.plan s.escapesUnicode).ending,
        add kept (rendering.plan s.escapesUnicode).chars⟩ := by
  have taken := collects.takes (rendering.isProper_plan s.escapesUnicode) kept
  rw [rendering.write_eq_run_plan, (Follows.whole taken).outcome_eq]
  rfl

end Collects

end Sink

/-! ## The adapters -/

/-- The character that a surrogate pair stands for has that pair as its units. -/
theorem exists_char_of_proper_pair {lead trail : CodeUnit} (high : lead.isHighSurrogate = true)
    (low : trail.isLowSurrogate = true) :
    ∃ c, (Call.pair lead trail).chars = [c] ∧ Utf16.encodeChar c = [lead, trail] ∧
      ∀ {σ : Type} (putChar : Char → SinkM σ Unit), putCombined putChar lead trail = putChar c := by
  obtain ⟨c, value, large, halves⟩ := CodePoint.exists_char_of_pair high low
  refine ⟨c, ?_, ?_, fun putChar => ?_⟩
  · rw [Call.chars, ← value, CodePoint.toChar?_val]
    rfl
  · rw [Utf16.encodeChar_large large, halves]
  · simp only [putCombined, ← value, CodePoint.toChar?_val]

namespace Sink

/-- A string is asked for the characters of an operation, all at once. -/
theorem perform_characters {escapesUnicode : Bool} {call : Call}
    (proper : call.IsProper escapesUnicode) (limit : Option Nat) :
    (characters escapesUnicode limit).perform call =
      extendString limit (String.ofList call.chars) := by
  cases call with
  | ascii text => rfl
  | char c => rfl
  | pair lead trail =>
      obtain ⟨c, chars, _, combined⟩ := exists_char_of_proper_pair proper.2.1 proper.2.2
      rw [chars]
      exact combined (characters escapesUnicode limit).putChar

/-- **A string grows by the characters.** -/
theorem collects_characters (escapesUnicode : Bool) :
    (characters escapesUnicode none).Collects fun kept cs => kept ++ String.ofList cs where
  add_nil kept := String.append_empty
  add_append kept cs ds := by rw [String.ofList_append, String.append_assoc]
  perform {call} proper kept := by
    have known : call.IsProper escapesUnicode := proper
    exact congrFun (perform_characters known none) kept

/-- **Units grow by the units of the characters.** -/
theorem collects_units (escapesUnicode : Bool) :
    (units escapesUnicode).Collects fun kept cs => kept ++ Utf16.encode cs where
  add_nil kept := Array.appendList_nil
  add_append kept cs ds := by rw [Utf16.encode_append, appendList_append]
  perform {call} proper kept := by
    cases call with
    | ascii text =>
        change EStateM.Result.ok () (kept ++ asciiUnits text) = _
        rw [asciiUnits_eq_encode proper]
        rfl
    | char c =>
        change EStateM.Result.ok () (kept ++ Utf16.encodeChar c) =
          .ok () (kept ++ Utf16.encode [c])
        rw [Utf16.encode_cons, Utf16.encode_nil, List.append_nil]
    | pair lead trail =>
        obtain ⟨c, chars, pair, _⟩ := exists_char_of_proper_pair proper.2.1 proper.2.2
        change EStateM.Result.ok () (kept ++ [lead, trail]) = _
        rw [chars, Utf16.encode_cons, Utf16.encode_nil, List.append_nil, pair]

/-- A string without a limit takes all it can be asked for. -/
theorem takesAll_characters (escapesUnicode : Bool) :
    (characters escapesUnicode none).TakesAll :=
  (collects_characters escapesUnicode).takesAll

/-- A list of units takes all it can be asked for. -/
theorem takesAll_units (escapesUnicode : Bool) : (units escapesUnicode).TakesAll :=
  (collects_units escapesUnicode).takesAll

end Sink

/-- Units written one by one are their bytes written at once. -/
theorem ByteWriter.writeUnits_eq (w : ByteWriter) (us : List CodeUnit) :
    w.writeUnits us = w.writeAll (us.flatMap CodeUnit.bytes) := by
  induction us with
  | nil => rw [List.flatMap_nil, writeAll]; rfl
  | cons u us ih =>
      rw [List.flatMap_cons, writeAll_append, ← ih]
      rfl

namespace Sink

/-- **A byte writer is given the bytes of the characters.** -/
theorem perform_bytes {charset : Charset} {call : Call}
    (proper : call.IsProper charset.escapesUnicode) (w : ByteWriter) :
    (bytes charset w).perform call = w.writeAll (charset.encode call.chars) := by
  have single (c : Char) : Utf8.encode [c] = String.utf8EncodeChar c := List.append_nil _
  cases charset with
  | ascii =>
      cases call with
      | ascii text => rfl
      | char c => cases proper
      | pair lead trail => cases proper.1
  | utf8 =>
      cases call with
      | ascii text => rfl
      | char c => exact congrArg w.writeAll (single c).symm
      | pair lead trail =>
          obtain ⟨c, chars, _, combined⟩ := exists_char_of_proper_pair proper.2.1 proper.2.2
          rw [chars]
          exact (combined _).trans (congrArg w.writeAll (single c).symm)
  | utf16 =>
      cases call with
      | ascii text =>
          rw [Call.chars, Charset.encode, ← asciiUnits_eq_encode proper, ← w.writeUnits_eq]
          rfl
      | char c =>
          rw [Call.chars, Charset.encode, Utf16.encode_cons, Utf16.encode_nil, List.append_nil,
            ← w.writeUnits_eq]
          rfl
      | pair lead trail =>
          obtain ⟨c, chars, pair, _⟩ := exists_char_of_proper_pair proper.2.1 proper.2.2
          rw [chars, Charset.encode, Utf16.encode_cons, Utf16.encode_nil, List.append_nil, pair,
            ← w.writeUnits_eq]
          rfl

/-- **Bytes go out as if they were written all at once.** -/
theorem performAll_bytes {charset : Charset} {calls : List Call}
    (proper : ∀ call ∈ calls, call.IsProper charset.escapesUnicode) (w : ByteWriter) :
    (bytes charset w).performAll calls =
      w.writeAll (charset.encode (calls.flatMap Call.chars)) := by
  induction calls with
  | nil =>
      rw [List.flatMap_nil, charset.encode_nil, ByteWriter.writeAll]
      rfl
  | cons call calls ih =>
      rw [performAll_cons, perform_bytes (proper call List.mem_cons_self), List.flatMap_cons,
        charset.encode_append, ByteWriter.writeAll_append,
        ih fun other member => proper other (List.mem_cons_of_mem _ member)]

/-- **Bytes grow by the bytes of the characters**, on a writer without a limit. -/
theorem collects_bytes (charset : Charset) {w : ByteWriter} (unbounded : w.limit = none)
    (takes : w.chunk ≠ some 0) :
    (bytes charset w).Collects fun kept cs => kept ++ charset.encode cs where
  add_nil kept := by rw [charset.encode_nil, Array.appendList_nil]
  add_append kept cs ds := by rw [charset.encode_append, appendList_append]
  perform {call} proper kept := by
    rw [perform_bytes proper, ByteWriter.writeAll_of_unbounded unbounded takes]

end Sink

end IonLiteral
