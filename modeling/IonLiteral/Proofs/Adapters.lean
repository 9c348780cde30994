import IonLiteral.Proofs.Calls
import IonLiteral.Sink.Adapters

/-! # What is kept does not show the cuts

A sink is additive when it makes no difference to it whether ASCII comes in one piece or in two. It
cannot tell operations from others that pieces of them were joined to. Strings without a limit, code
units and all byte writers are additive, whatever number of bytes a writer takes at a time and
wherever it stops.
-/

namespace IonLiteral

namespace Sink

variable {σ : Type}

/-- Two pieces of ASCII are put like one. -/
def Additive (s : Sink σ) : Prop :=
  ∀ text more, s.putAscii (text ++ more) = (do s.putAscii text; s.putAscii more)

/-- A sink that does not mind how ASCII is cut into operations is left the same by operations and by
the same operations joined. -/
theorem Additive.performAll_eq {s : Sink σ} (additive : s.Additive) {fine coarse : List Call}
    (joins : Call.JoinsTo fine coarse) : s.performAll coarse = s.performAll fine := by
  induction joins with
  | nil => rfl
  | cons call rest ih => rw [performAll_cons, performAll_cons, ih]
  | @join text more fine coarse rest ih =>
      rw [performAll_cons s (.ascii text), ← ih, performAll_cons, performAll_cons, ← bind_assoc]
      exact congrArg (· >>= fun _ => s.performAll coarse) (additive text more)

/-- **Additive sinks do not see cuts.** -/
theorem Additive.run_eq {s : Sink σ} (additive : s.Additive) {fine coarse : Script}
    (joins : Call.JoinsTo fine.calls coarse.calls) (ending : coarse.ending = fine.ending) :
    coarse.run s = fine.run s := by
  rw [Script.run, Script.run, additive.performAll_eq joins, ending]

end Sink

/-! ## Lists at the end of arrays -/

section Arrays

variable {α : Type}

theorem appendList_append (held : Array α) (first second : List α) :
    held ++ (first ++ second) = held ++ first ++ second :=
  Array.ext' (by simp only [Array.toList_appendList, List.append_assoc])

theorem size_appendList (held : Array α) (more : List α) :
    (held ++ more).size = held.size + more.length := by
  rw [← Array.length_toList, Array.toList_appendList, List.length_append, Array.length_toList]

end Arrays

/-! ## Byte writers -/

namespace ByteWriter

/-- How many bytes a writer that holds `held` takes of `wanted`, offered until it takes no more. -/
def taken (w : ByteWriter) (held wanted : Nat) : Nat :=
  if w.chunk = some 0 then 0
  else
    match w.limit with
    | none => wanted
    | some limit => min wanted (limit - held)

/-- Why a writer that holds `held` takes no more. -/
def refusal (w : ByteWriter) (held : Nat) : Fault :=
  if w.isFull held && !w.silentWhenFull then .byteTarget "closed"
  else .byteTarget "failed to write whole buffer"

theorem taken_le (w : ByteWriter) (held wanted : Nat) : w.taken held wanted ≤ wanted := by
  unfold taken
  split
  · exact Nat.zero_le _
  · split
    · exact Nat.le_refl _
    · exact Nat.min_le_left ..

theorem taken_of_isFull {w : ByteWriter} {held : Nat} (full : w.isFull held = true)
    (wanted : Nat) : w.taken held wanted = 0 := by
  unfold isFull at full
  unfold taken
  split
  · rfl
  · cases limit : w.limit with
    | none =>
        rw [limit] at full
        cases full
    | some bound =>
        rw [limit] at full
        have reached : bound ≤ held := of_decide_eq_true full
        dsimp only
        omega

/-- What is wanted last is taken only after all that is wanted first. -/
theorem taken_add (w : ByteWriter) (held first second : Nat) :
    w.taken held (first + second) =
      if w.taken held first = first then first + w.taken (held + first) second
      else w.taken held first := by
  unfold taken
  by_cases stuck : w.chunk = some 0
  · simp only [if_pos stuck]
    split <;> omega
  · simp only [if_neg stuck]
    cases w.limit with
    | none => simp only [if_true]
    | some limit =>
        dsimp only
        split <;> omega

/-- How many bytes a writer that holds `held` takes of `wanted` at once. -/
def once (w : ByteWriter) (held wanted : Nat) : Nat :=
  min ((w.limit.map (· - held)).getD wanted) (min (w.chunk.getD wanted) wanted)

theorem firstOf_eq_take (bound : Option Nat) (bytes : List UInt8) :
    firstOf bound bytes = bytes.take (bound.getD bytes.length) := by
  cases bound with
  | none => exact List.take_length.symm
  | some bound => rfl

/-- What is taken at once is a beginning of what is offered. -/
theorem batch_eq_take (w : ByteWriter) (held : Nat) (bytes : List UInt8) :
    w.batch held bytes = bytes.take (w.once held bytes.length) := by
  unfold batch once
  rw [firstOf_eq_take w.chunk]
  cases w.limit with
  | none =>
      change bytes.take _ = bytes.take (min bytes.length _)
      rw [List.take_eq_take_iff]
      omega
  | some limit =>
      change (bytes.take _).take (limit - held) = bytes.take (min (limit - held) _)
      rw [List.take_take, List.take_eq_take_iff]
      omega

theorem once_le (w : ByteWriter) (held wanted : Nat) : w.once held wanted ≤ wanted := by
  unfold once
  omega

/-- What is taken at once is taken in the end. -/
theorem taken_once (w : ByteWriter) (held wanted : Nat) :
    w.taken held (w.once held wanted) = w.once held wanted := by
  unfold taken once
  by_cases stuck : w.chunk = some 0
  · simp only [stuck, if_true, Option.getD_some]
    omega
  · simp only [if_neg stuck]
    cases w.limit with
    | none => rfl
    | some limit =>
        dsimp only [Option.map_some, Option.getD_some]
        omega

/-- If nothing is taken at once then nothing is taken in the end. -/
theorem taken_of_once_eq_zero {w : ByteWriter} {held wanted : Nat}
    (nothing : w.once held wanted = 0) : w.taken held wanted = 0 := by
  unfold once at nothing
  unfold taken
  by_cases stuck : w.chunk = some 0
  · exact if_pos stuck
  · rw [if_neg stuck]
    have some_taken : w.chunk.getD wanted = 0 → wanted = 0 := by
      cases chunk : w.chunk with
      | none => exact id
      | some bound =>
          rintro rfl
          exact absurd chunk stuck
    cases limit : w.limit with
    | none =>
        rw [limit] at nothing
        dsimp only [Option.map_none, Option.getD_none] at nothing ⊢
        omega
    | some bound =>
        rw [limit] at nothing
        dsimp only [Option.map_some, Option.getD_some] at nothing ⊢
        omega

/-- One offer as an equation: a full writer that speaks up refuses, any other takes a batch. -/
theorem offer_eq (w : ByteWriter) (bytes : List UInt8) (held : Array UInt8) :
    w.offer bytes held =
      if w.isFull held.size && !w.silentWhenFull then .error (.byteTarget "closed") held
      else .ok (w.batch held.size bytes).length (held ++ w.batch held.size bytes) := by
  unfold offer
  change (if _ then _ else _ : SinkM (Array UInt8) Nat) held = _
  split <;> rfl

/-- What becomes of bytes that are offered until all are taken. -/
def outcome (w : ByteWriter) (bytes : List UInt8) (held : Array UInt8) :
    EStateM.Result Fault (Array UInt8) Unit :=
  let count := w.taken held.size bytes.length
  if count = bytes.length then .ok () (held ++ bytes)
  else .error (w.refusal (held.size + count)) (held ++ bytes.take count)

/-- If a writer takes none of some bytes, it is left as it was and refuses. -/
theorem outcome_of_nothing {w : ByteWriter} {held : Array UInt8} {byte : UInt8}
    {bytes : List UInt8} (nothing : w.taken held.size (byte :: bytes).length = 0) :
    w.outcome (byte :: bytes) held = .error (w.refusal held.size) held := by
  unfold outcome
  rw [nothing]
  exact congrArg _ Array.appendList_nil

/-- If the first bytes fit, the outcome for all is that for the others behind them. -/
theorem outcome_append {w : ByteWriter} {held : Array UInt8} {bytes : List UInt8}
    (fits : w.taken held.size bytes.length = bytes.length) (more : List UInt8) :
    w.outcome (bytes ++ more) held = w.outcome more (held ++ bytes) := by
  unfold outcome
  rw [List.length_append, taken_add, if_pos fits, size_appendList]
  simp only [Nat.add_right_inj, Nat.add_assoc, List.take_length_add_append, appendList_append]

/-- If the first bytes do not fit, whatever follows them changes nothing. -/
theorem outcome_append_of_short {w : ByteWriter} {held : Array UInt8} {bytes : List UInt8}
    (short : w.taken held.size bytes.length ≠ bytes.length) (more : List UInt8) :
    w.outcome (bytes ++ more) held = w.outcome bytes held := by
  have most := w.taken_le held.size bytes.length
  unfold outcome
  rw [List.length_append, taken_add, if_neg short]
  dsimp only
  rw [if_neg short, if_neg (by omega), List.take_append_of_le_length most]

/-- **Writing all bytes takes what there is room for.** How many bytes a writer takes at a time
makes no difference, unless it takes none at all. -/
theorem writeAll_eq (w : ByteWriter) (bytes : List UInt8) (held : Array UInt8) :
    w.writeAll bytes held = w.outcome bytes held := by
  -- On the number of bytes left. One offer takes a beginning of them, and what is left of the room
  -- for the beginning is the room for the rest.
  induction size : bytes.length using Nat.strongRecOn generalizing bytes held with
  | ind size ih =>
      subst size
      cases bytes with
      | nil =>
          have fits : w.taken held.size 0 = 0 := Nat.le_zero.mp (w.taken_le held.size 0)
          unfold outcome
          rw [writeAll, List.length_nil, fits]
          exact congrArg (EStateM.Result.ok ()) Array.appendList_nil.symm
      | cons byte rest =>
          have offered := w.offer_eq (byte :: rest) held
          rw [writeAll]
          by_cases closed : (w.isFull held.size && !w.silentWhenFull) = true
          · have full : w.isFull held.size = true := (Bool.and_eq_true_iff.mp closed).1
            rw [if_pos closed] at offered
            rw [SinkM.bind_of_error offered, outcome_of_nothing (taken_of_isFull full _)]
            unfold refusal
            rw [if_pos closed]
          · rw [if_neg closed, batch_eq_take, List.length_take_of_le (w.once_le ..)] at offered
            rw [SinkM.bind_of_ok offered]
            have fits := w.taken_once held.size (byte :: rest).length
            cases count : w.once held.size (byte :: rest).length with
            | zero =>
                rw [outcome_of_nothing (taken_of_once_eq_zero count)]
                unfold refusal
                rw [if_neg closed]
                exact congrArg _ Array.appendList_nil
            | succ more =>
                have some_left := w.once_le held.size (byte :: rest).length
                rw [count] at fits some_left
                have cut : byte :: rest = (byte :: rest).take (more + 1) ++ rest.drop more :=
                  (List.take_append_drop (more + 1) (byte :: rest)).symm
                have less : (rest.drop more).length < (byte :: rest).length := by
                  rw [List.length_drop, List.length_cons]
                  omega
                rw [← List.length_take_of_le some_left] at fits
                change w.writeAll (rest.drop more) _ = _
                rw [ih _ less _ _ rfl, ← outcome_append fits, ← cut]

/-- **All bytes at once or in two parts.** -/
theorem writeAll_append (w : ByteWriter) (bytes more : List UInt8) :
    w.writeAll (bytes ++ more) = (do w.writeAll bytes; w.writeAll more) := by
  funext held
  rw [writeAll_eq]
  by_cases fits : w.taken held.size bytes.length = bytes.length
  · have first : w.writeAll bytes held = .ok () (held ++ bytes) :=
      (w.writeAll_eq bytes held).trans (if_pos fits)
    rw [SinkM.bind_of_ok first, writeAll_eq, outcome_append fits]
  · have first := (w.writeAll_eq bytes held).trans (if_neg fits)
    rw [SinkM.bind_of_error first, outcome_append_of_short fits]
    exact if_neg fits

/-- A writer without a limit takes all. -/
theorem writeAll_of_unbounded {w : ByteWriter} (unbounded : w.limit = none)
    (takes : w.chunk ≠ some 0) (bytes : List UInt8) (held : Array UInt8) :
    w.writeAll bytes held = .ok () (held ++ bytes) := by
  have all : w.taken held.size bytes.length = bytes.length := by
    unfold taken
    rw [if_neg takes, unbounded]
  exact (w.writeAll_eq bytes held).trans (if_pos all)

end ByteWriter

/-! ## The adapters -/

namespace Sink

/-- A string without a limit does not mind how ASCII is cut into operations. -/
theorem additive_characters (escapesUnicode : Bool) :
    (characters escapesUnicode none).Additive := by
  intro text more
  funext held
  change EStateM.Result.ok () (held ++ String.ofList (text ++ more)) =
    EStateM.Result.ok () (held ++ String.ofList text ++ String.ofList more)
  rw [String.ofList_append, String.append_assoc]

theorem asciiUnits_append (text more : List Char) :
    asciiUnits (text ++ more) = asciiUnits text ++ asciiUnits more := by
  unfold asciiUnits
  rw [Utf8.encode_append, List.map_append]

/-- A list of units does not mind how ASCII is cut into operations. -/
theorem additive_units (escapesUnicode : Bool) : (units escapesUnicode).Additive := by
  intro text more
  funext held
  change EStateM.Result.ok () (held ++ asciiUnits (text ++ more)) =
    EStateM.Result.ok () (held ++ asciiUnits text ++ asciiUnits more)
  rw [asciiUnits_append, appendList_append]

/-- It does not matter whether the writer ever fails. -/
theorem additive_bytes (charset : Charset) (w : ByteWriter) : (bytes charset w).Additive := by
  have encoded (text more : List Char) : w.writeAll (Utf8.encode (text ++ more)) =
      (do w.writeAll (Utf8.encode text); w.writeAll (Utf8.encode more)) := by
    rw [Utf8.encode_append, ByteWriter.writeAll_append]
  intro text more
  cases charset with
  | ascii => exact encoded text more
  | utf8 => exact encoded text more
  | utf16 =>
      change w.writeUnits (asciiUnits (text ++ more)) = _
      rw [asciiUnits_append]
      exact List.forM_append

end Sink

end IonLiteral
