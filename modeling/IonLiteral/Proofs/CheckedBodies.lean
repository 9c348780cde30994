import IonLiteral.Proofs.Loops
import IonLiteral.Proofs.Runs

/-! # Bodies with their checks

The bodies of texts and of clobs, written by index with every check on the way: strings are cut at
byte positions, units and bytes are taken by index, and conversions may fail. Each turn of a loop
puts the run that starts at its index and the one thing behind the run. That is a step of the scan of
the rest, so the loops write what the scans write.
-/

namespace IonLiteral

/-- Escapes are put one by one. -/
theorem Sink.putEscapes_cons {σ : Type} (s : Sink σ) (escape : Escape) (escapes : List Escape) :
    s.putEscapes (escape :: escapes) = (do s.putEscape escape; s.putEscapes escapes) := rfl

theorem Sink.putEscapes_singleton {σ : Type} (s : Sink σ) (escape : Escape) :
    s.putEscapes [escape] = s.putEscape escape :=
  bind_pure (s.putEscape escape)

namespace Checked

variable {σ : Type}

/-! ## Single characters -/

/-- Put an escape by number. -/
def putNumber (s : Sink σ) (marker : Char) (value : CodePoint) (digits : Nat) :
    CheckedM σ Unit := do
  s.putAscii (← hexEscape marker.toUInt8 value digits)

/-- Put a unit as the character that it is. -/
def putThrough (s : Sink σ) (u : CodeUnit) : CheckedM σ Unit := do
  s.putChar (← character u.toUInt32)

/-- Put a unit that ends a run. -/
def putUnit (s : Sink σ) (form : Form) (u : CodeUnit) : CheckedM σ Unit :=
  if u < 0x100 then
    match form.escape? u.toUInt8 with
    | some escape =>
      if u < 0x80 || s.escapesUnicode then s.putEscape escape else putThrough s u
    | none => putThrough s u
  else if s.escapesUnicode then putNumber s 'u' u.toUInt32 4
  else putThrough s u

/-- Put a surrogate pair as it is. The sink may ask for its character. -/
def putPairThrough (s : Sink σ) (lead trail : CodeUnit) : CheckedM σ Unit := do
  let _ ← character (← combine lead trail)
  s.putPair lead trail

/-- Put a surrogate pair. -/
def putPair (s : Sink σ) (form : Form) (lead trail : CodeUnit) : CheckedM σ Unit := do
  if !s.escapesUnicode then putPairThrough s lead trail
  else if form.isJson then
    putNumber s 'u' lead.toUInt32 4
    putNumber s 'u' trail.toUInt32 4
  else putNumber s 'U' (← combine lead trail) 8

/-- Put a character that ends a run. -/
def putCharacter (s : Sink σ) (form : Form) (c : Char) : CheckedM σ Unit :=
  if c.val < 0x10000 then putUnit s form c.val.toUInt16
  else do
    let (lead, trail) ← split c.val
    putPair s form lead trail

/-- **Escapes by number break nothing.** Up to eight digits there is room for them. -/
theorem putNumber_eq (s : Sink σ) {marker : Char} (ascii : marker.val < 0x80) (value : CodePoint)
    {digits : Nat} (fits : digits ≤ 8) :
    putNumber s marker value digits =
      liftM (s.putEscapes [.numeric marker digits value.toNat]) := by
  rw [putNumber, hexEscape_eq ascii value fits, Sink.putEscapes_singleton]
  rfl

theorem putNumber_x (s : Sink σ) (value : CodePoint) :
    putNumber s 'x' value 2 = liftM (s.putEscapes [.x value.toNat]) :=
  putNumber_eq s (by decide) value (by decide)

theorem putNumber_u (s : Sink σ) (value : CodePoint) :
    putNumber s 'u' value 4 = liftM (s.putEscapes [.u value.toNat]) :=
  putNumber_eq s (by decide) value (by decide)

theorem putNumber_wide (s : Sink σ) (value : CodePoint) :
    putNumber s 'U' value 8 = liftM (s.putEscapes [.wide value.toNat]) :=
  putNumber_eq s (by decide) value (by decide)

/-- The two escapes of a surrogate pair. -/
theorem putNumber_pair (s : Sink σ) (lead trail : CodeUnit) :
    (do
      putNumber s 'u' lead.toUInt32 4
      putNumber s 'u' trail.toUInt32 4 : CheckedM σ Unit) =
      liftM (s.putEscapes [.u lead.toNat, .u trail.toNat]) := by
  rw [Sink.putEscapes_cons, ← Sink.putEscapes_singleton, liftM_bind, putNumber_u, putNumber_u]
  rfl

/-- A unit that is no half of a pair is a character, so it can be put as one. -/
theorem putThrough_eq (s : Sink σ) {u : CodeUnit} (noHalf : u.isSurrogate = false) :
    putThrough s u = liftM (s.putVerbatim (.unit u)) := by
  obtain ⟨c, value, -⟩ := CodePoint.exists_char_of_unit noHalf
  rw [putThrough, character, Sink.putVerbatim, ← value, CodePoint.toChar?_val]
  rfl

/-- **Units that end a run break nothing**, unless they are halves of a pair. -/
theorem putUnit_eq (s : Sink σ) (form : Form) {u : CodeUnit} (noHalf : u.isSurrogate = false) :
    putUnit s form u = liftM (s.putSpecial form (.unit u)) := by
  rw [putUnit, Sink.putSpecial, Special.spelling]
  by_cases latin : u < 0x100
  · rw [if_pos latin, if_pos latin]
    cases form.escape? u.toUInt8 with
    | none => exact putThrough_eq s noHalf
    | some escape =>
        by_cases escaped : (decide (u < 0x80) || s.escapesUnicode) = true
        · simp only [if_pos escaped, Sink.putEscapes_singleton]
        · simp only [if_neg escaped, putThrough_eq s noHalf]
  · rw [if_neg latin, if_neg latin]
    by_cases escapes : s.escapesUnicode = true
    · simp only [if_pos escapes]
      exact putNumber_u s u.toUInt32
    · simp only [if_neg escapes, putThrough_eq s noHalf]

/-- Whatever a sink makes of a pair, the pair has a character. -/
theorem putPairThrough_eq (s : Sink σ) {lead trail : CodeUnit}
    (high : lead.isHighSurrogate = true) (low : trail.isLowSurrogate = true) :
    putPairThrough s lead trail = liftM (s.putPair lead trail) := by
  obtain ⟨c, value, -⟩ := CodePoint.exists_char_of_pair high low
  rw [putPairThrough, combine_eq high low, CheckedM.liftM_ok, pure_bind, ← value, character,
    CodePoint.toChar?_val, CheckedM.liftM_ok, pure_bind]

/-- **Pairs break nothing** if they are pairs. -/
theorem putPair_eq (s : Sink σ) (form : Form) {lead trail : CodeUnit}
    (high : lead.isHighSurrogate = true) (low : trail.isLowSurrogate = true) :
    putPair s form lead trail = liftM (s.putSpecial form (.pair lead trail)) := by
  rw [putPair, Sink.putSpecial, Special.spelling]
  cases s.escapesUnicode with
  | false => exact putPairThrough_eq s high low
  | true =>
      by_cases json : form.isJson = true
      · simp only [Bool.not_true, Bool.false_eq_true, if_false, if_true, if_pos json]
        exact putNumber_pair s lead trail
      · simp only [Bool.not_true, Bool.false_eq_true, if_false, if_true, if_neg json]
        rw [combine_eq high low, CheckedM.liftM_ok, pure_bind]
        exact putNumber_wide s _

theorem putUnit_ofChar (s : Sink σ) (form : Form) (c : Char) (small : c.val < 0x10000) :
    putUnit s form c.val.toUInt16 = liftM (s.putSpecial form (.ofChar c)) := by
  rw [Special.ofChar, if_pos small]
  exact putUnit_eq s form (CodePoint.isSurrogate_toUInt16 small)

theorem putPair_ofChar (s : Sink σ) (form : Form) (c : Char) (large : ¬ c.val < 0x10000) :
    putPair s form (Surrogate.split c.val).1 (Surrogate.split c.val).2 =
      liftM (s.putSpecial form (.ofChar c)) := by
  obtain ⟨high, low, -⟩ := CodePoint.split_isPair large
  rw [Special.ofChar, if_neg large]
  exact putPair_eq s form high low

theorem putCharacter_eq (s : Sink σ) (form : Form) (c : Char) :
    putCharacter s form c = liftM (s.putSpecial form (.ofChar c)) := by
  rw [putCharacter]
  by_cases small : c.val < 0x10000
  · rw [if_pos small, putUnit_ofChar s form c small]
  · rw [if_neg small, split_val small]
    exact putPair_ofChar s form c small

/-- Put what lies between two indices, if anything does. -/
def putBetween (s : Sink σ) (start stop : Nat) (text : Except Breach (List Char)) :
    CheckedM σ Unit := do
  if start < stop then s.putAscii (← text) else pure ()

/-- Break off at an unmatched surrogate. -/
def refuse (half : Half) (u : CodeUnit) (index : Nat) : CheckedM σ (Option Nat) :=
  liftM (throw (.unmatchedSurrogate ⟨half, u, index⟩) : SinkM σ (Option Nat))

/-- Whether a byte of a string is a plain character. Bytes from `0x80` up are only parts of one. -/
def isPlainByte (form : Form) (byte : UInt8) : Bool :=
  byte < 0x80 && !form.needsEscape byte

/-- A turn at characters, by positions in their bytes. -/
def charsTurn (s : Sink σ) (form : Form) (cs : List Char) (i : Nat) : CheckedM σ (Option Nat) := do
  let stop := runEnd (isPlainByte form) (Utf8.encode cs) i
  putBetween s i stop (substring cs i stop)
  match (← cut cs stop).2 with
  | [] => return none
  | c :: _ =>
    putCharacter s form c
    return some (stop + c.utf8Size)

/-- What a turn makes of the unit at an index, and of the one behind it if both are a pair. -/
def unitTurn (us : List CodeUnit) (i : Nat) (putPair : CodeUnit → CodeUnit → CheckedM σ Unit)
    (putUnit : CodeUnit → CheckedM σ Unit) : CheckedM σ (Option Nat) := do
  let u ← item us i
  if u.isHighSurrogate then
    match us[i + 1]?.filter CodeUnit.isLowSurrogate with
    | some trail =>
      putPair u trail
      return some (i + 2)
    | none => refuse .high u i
  else if u.isLowSurrogate then refuse .low u i
  else
    putUnit u
    return some (i + 1)

/-- A turn at units. -/
def unitsTurn (s : Sink σ) (form : Form) (us : List CodeUnit) (i : Nat) :
    CheckedM σ (Option Nat) := do
  let stop := runEnd form.isPlainUnit us i
  putBetween s i stop (do (← slice us i stop).mapM plainChar)
  if stop = us.length then return none
  else unitTurn us stop (putPair s form) (putUnit s form)

/-- A turn at bytes. -/
def bytesTurn (s : Sink σ) (form : Form) (bytes : List UInt8) (i : Nat) :
    CheckedM σ (Option Nat) := do
  let stop := runEnd (fun byte => !form.needsEscape byte) bytes i
  putBetween s i stop (do ofUtf8 (← slice bytes i stop))
  match bytes[stop]?.bind form.escape? with
  | some escape => s.putEscape escape
  | none => pure ()
  return some (stop + 1)

/-- Between indices lies a run, if the indices are as far apart as the run is long. -/
theorem putBetween_eq (s : Sink σ) (start : Nat) {length : Nat} {text : List Char}
    (size : length = 0 ↔ text = []) :
    putBetween s start (start + length) (.ok text) = liftM (s.putRun text) := by
  cases text with
  | nil =>
      rw [size.mpr rfl, putBetween, Nat.add_zero, if_neg (Nat.lt_irrefl _)]
      rfl
  | cons c text =>
      have some : 0 < length :=
        Nat.pos_of_ne_zero fun none => absurd (size.mp none) (List.cons_ne_nil c text)
      rw [putBetween, if_pos (Nat.lt_add_of_pos_right some)]
      rfl

/-! ### Characters -/

/-- The bytes of a character are plain if the character is. -/
theorem isPlainByte_of_mem_encodeChar {form : Form} {c : Char} {byte : UInt8}
    (member : byte ∈ String.utf8EncodeChar c) : isPlainByte form byte = form.isPlainChar c := by
  by_cases ascii : c.val < 0x80
  · have alone := Utf8.encode_of_ascii (List.forall_mem_singleton.mpr ascii)
    rw [Utf8.encode_cons, Utf8.encode_nil, List.append_nil] at alone
    rw [alone] at member
    cases List.mem_singleton.mp member
    have small : c.toUInt8 < 0x80 := by
      rw [UInt8.lt_iff_toNat_lt, Char.toUInt8, UInt32.toNat_toUInt8]
      exact Nat.lt_of_le_of_lt (Nat.mod_le _ _) (UInt32.lt_iff_toNat_lt.mp ascii)
    rw [isPlainByte, Form.isPlainChar, decide_eq_true small, decide_eq_true ascii]
    rfl
  · have large : ¬ byte < 0x80 := Utf8.large_of_mem_encodeChar ascii member
    rw [isPlainByte, Form.isPlainChar, decide_eq_false ascii, decide_eq_false large]
    rfl

/-- A run of plain characters is a run of plain bytes. -/
theorem isRun_encode {form : Form} {run others : List Char}
    (found : IsRun form.isPlainChar run others) :
    IsRun (isPlainByte form) (Utf8.encode run) (Utf8.encode others) := by
  constructor
  · intro byte member
    obtain ⟨c, among, inside⟩ := List.mem_flatMap.mp member
    rw [isPlainByte_of_mem_encodeChar inside]
    exact found.plain c among
  · intro byte starts
    cases others with
    | nil => cases starts
    | cons c others =>
        have inside : byte ∈ String.utf8EncodeChar c := by
          rw [Utf8.encode_cons, List.head?_append_of_ne_nil _ String.utf8EncodeChar_ne_nil] at starts
          exact List.mem_of_mem_head? starts
        rw [isPlainByte_of_mem_encodeChar inside]
        exact found.ends c rfl

/-- **Turns at characters** start at boundaries. -/
theorem turns_chars (s : Sink σ) (form : Form) (cs : List Char) :
    Turns (charsTurn s form cs) (Utf8.size cs)
      (fun i rest => ∃ before, cs = before ++ rest ∧ i = Utf8.size before)
      fun _ rest => s.putPieces form (scanChars form rest) := by
  constructor
  · rintro i rest ⟨before, rfl, rfl⟩ outside
    cases rest with
    | nil => rfl
    | cons c rest =>
        have some := Utf8.size_pos (List.cons_ne_nil c rest)
        rw [Utf8.size_append] at outside
        omega
  · rintro i rest ⟨before, rfl, rfl⟩ inside
    -- Bytes are looked at, but the run ends where a run of characters does, so at a boundary.
    obtain ⟨run, others, rfl, found⟩ := exists_run form.isPlainChar rest
    have stop : runEnd (isPlainByte form) (Utf8.encode (before ++ (run ++ others)))
        (Utf8.size before) = Utf8.size before + Utf8.size run := by
      rw [Utf8.encode_append, Utf8.encode_append]
      exact runEnd_of_isRun (isRun_encode found) (Utf8.encode before)
    have behind : cut (before ++ (run ++ others)) (Utf8.size before + Utf8.size run) =
        .ok (before ++ run, others) := by
      rw [← List.append_assoc, ← Utf8.size_append]
      exact cut_append (before ++ run) others
    rw [charsTurn, stop, substring_append, putBetween_eq s _ Utf8.size_eq_zero_iff, behind,
      CheckedM.liftM_ok, pure_bind]
    refine Turn.Steps.exists_behind (Nat.le_add_right _ (Utf8.size run))
      (s.putPieces_scanChars_append found) ?_
    cases others with
    | nil => exact ⟨.final (pure ()), .final rfl rfl⟩
    | cons c others =>
        refine ⟨.onward (s.putSpecial form (.ofChar c)) _ others,
          .onward (putCharacter_eq s form c) ?_ (Nat.lt_add_of_pos_right c.utf8Size_pos)
            ⟨before ++ (run ++ [c]), ?_, ?_⟩⟩
        · rw [scanChars_cons, found.ends c rfl]
          rfl
        · simp only [List.append_assoc, List.singleton_append]
        · rw [Utf8.size_append, Utf8.size_append, Utf8.size_cons, Nat.add_assoc]
          rfl

/-! ### Units -/

section Units

variable {onPair : CodeUnit → CodeUnit → CheckedM σ Unit} {onUnit : CodeUnit → CheckedM σ Unit}

theorem getElem?_behind {α : Type} (before : List α) (a : α) (rest : List α) :
    (before ++ a :: rest)[before.length + 1]? = rest.head? := by
  rw [List.getElem?_append_right (Nat.le_add_right _ 1), Nat.add_sub_cancel_left,
    List.head?_eq_getElem?]
  rfl

/-- At a character of one unit, a turn puts the unit and goes on behind it. -/
theorem unitTurn_small (before : List CodeUnit) {c : Char} (small : c.val < 0x10000)
    (rest : List CodeUnit) :
    unitTurn (before ++ (Utf16.encodeChar c ++ rest)) before.length onPair onUnit = (do
      onUnit c.val.toUInt16
      return some (before.length + (Utf16.encodeChar c).length)) := by
  have noHalf := CodePoint.noHalf_toUInt16 small
  rw [Utf16.encodeChar_small small, List.singleton_append, unitTurn, item_append,
    CheckedM.liftM_ok, pure_bind, noHalf.1, noHalf.2]
  rfl

/-- At a character of two units, a turn puts the pair and goes on behind both. -/
theorem unitTurn_large (before : List CodeUnit) {c : Char} (large : ¬ c.val < 0x10000)
    (rest : List CodeUnit) :
    unitTurn (before ++ (Utf16.encodeChar c ++ rest)) before.length onPair onUnit = (do
      onPair (Surrogate.split c.val).1 (Surrogate.split c.val).2
      return some (before.length + (Utf16.encodeChar c).length)) := by
  obtain ⟨high, low, -⟩ := CodePoint.split_isPair large
  rw [Utf16.encodeChar_large large, List.cons_append, List.singleton_append, unitTurn, item_append,
    CheckedM.liftM_ok, pure_bind, high, getElem?_behind, List.head?_cons, Option.filter_some, low]
  rfl

/-- At a surrogate without its partner, a turn breaks off. -/
theorem unitTurn_unpaired (before : List CodeUnit) {half : Half} {u : CodeUnit}
    {rest : List CodeUnit} (unpaired : Utf16.Unpaired half u rest) :
    unitTurn (before ++ u :: rest) before.length onPair onUnit = refuse half u before.length := by
  rw [unitTurn, item_append, CheckedM.liftM_ok, pure_bind]
  cases unpaired with
  | high high alone =>
      have noTrail := (Utf16.Unpaired.high high alone).filter_head?
      rw [high, getElem?_behind, noTrail]
      rfl
  | low low =>
      have notHigh := CodeUnit.isHighSurrogate_of_isLowSurrogate low
      rw [notHigh, low]
      rfl

/-- **A turn at units takes one character**, or breaks off at a surrogate without its partner. -/
theorem exists_unitTurn (put : Char → SinkM σ Unit) (write : Nat → List CodeUnit → SinkM σ Unit)
    (small : ∀ c : Char, c.val < 0x10000 → onUnit c.val.toUInt16 = liftM (put c))
    (large : ∀ c : Char, ¬ c.val < 0x10000 →
      onPair (Surrogate.split c.val).1 (Surrogate.split c.val).2 = liftM (put c))
    {us rest : List CodeUnit} {i : Nat} (here : IsRest us i rest) (some : rest ≠ [])
    (char : ∀ c more, rest = Utf16.encodeChar c ++ more → write i rest = (do
      put c
      write (i + (Utf16.encodeChar c).length) more))
    (unpaired : ∀ half u more, rest = u :: more → Utf16.Unpaired half u more →
      write i rest = throw (.unmatchedSurrogate ⟨half, u, i⟩)) :
    ∃ t : Turn σ (List CodeUnit), t.Steps (unitTurn us i onPair onUnit) (IsRest us) write i rest := by
  obtain ⟨before, rfl, rfl⟩ := here
  induction rest using Utf16.induction_on_characters with
  | nil => exact absurd rfl some
  | char c more _ =>
      have further : before.length < before.length + (Utf16.encodeChar c).length :=
        Nat.lt_add_of_pos_right (List.length_pos_iff.mpr (Utf16.encodeChar_ne_nil c))
      have there : IsRest (before ++ (Utf16.encodeChar c ++ more))
          (before.length + (Utf16.encodeChar c).length) more :=
        ⟨before ++ Utf16.encodeChar c, (List.append_assoc ..).symm, List.length_append.symm⟩
      refine ⟨.onward (put c) (before.length + (Utf16.encodeChar c).length) more, ?_⟩
      by_cases fits : c.val < 0x10000
      · rw [unitTurn_small before fits]
        exact .onward (small c fits) (char c more rfl) further there
      · rw [unitTurn_large before fits]
        exact .onward (large c fits) (char c more rfl) further there
  | unpaired half u more alone =>
      rw [unitTurn_unpaired before alone]
      exact ⟨.final _, .final rfl (unpaired half u more rfl alone)⟩

end Units

/-- **Turns at units** write what is scanned. -/
theorem turns_units (s : Sink σ) (form : Form) (us : List CodeUnit) :
    Turns (unitsTurn s form us) us.length (IsRest us)
      fun i rest => s.putScan form (scanUnitsFrom form i rest) := by
  constructor
  · intro i rest here outside
    cases Classical.not_not.mp (here.lt_length_iff.not.mp outside)
    rfl
  · rintro i rest ⟨before, rfl, rfl⟩ inside
    obtain ⟨run, others, rfl, found⟩ := exists_run form.isPlainUnit rest
    have chars : run.mapM plainChar = .ok (run.map fun u => Char.ofUInt8 u.toUInt8) :=
      mapM_eq fun u member => plainChar_eq (Form.below_delete_of_isPlainUnit (found.plain u member))
    have behind : IsRest (before ++ (run ++ others)) (before.length + run.length) others :=
      ⟨before ++ run, (List.append_assoc ..).symm, List.length_append.symm⟩
    rw [unitsTurn, runEnd_of_isRun found, slice_append, ok_bind, chars,
      putBetween_eq s _ (List.length_eq_zero_iff.trans List.map_eq_nil_iff.symm)]
    refine Turn.Steps.exists_behind (Nat.le_add_right _ run.length)
      (s.putScan_append found before.length) ?_
    by_cases some : others = []
    · rw [some, List.append_nil, List.length_append, if_pos rfl]
      exact ⟨.final (pure ()), .final rfl rfl⟩
    · rw [if_neg (Nat.ne_of_lt (behind.lt_length_iff.mpr some))]
      refine exists_unitTurn (fun c => s.putSpecial form (.ofChar c)) _ (putUnit_ofChar s form)
        (putPair_ofChar s form) behind some (fun c more starts => ?_)
        (fun half u more starts alone => ?_)
      · have special : form.isPlainChar c = false := by
          cases others with
          | nil => exact absurd rfl some
          | cons u others => rw [← form.isPlainUnit_of_encodeChar starts, found.ends u rfl]
        rw [starts, scanUnitsFrom_encodeChar, special]
        exact bind_assoc ..
      · rw [starts, scanUnitsFrom_unpaired form _ alone]
        rfl

/-! ### Bytes -/

/-- **Turns at bytes** write what is scanned. -/
theorem turns_bytes (s : Sink σ) (form : Form) (bytes : List UInt8) :
    Turns (bytesTurn s form bytes) bytes.length (fun i rest => rest = bytes.drop i)
      fun _ rest => (scanBytes form rest).forM (s.putPiece s.putEscape) := by
  constructor
  · rintro i rest rfl outside
    rw [List.drop_of_length_le (Nat.le_of_not_lt outside)]
    rfl
  · rintro i rest rfl inside
    obtain ⟨run, others, rest, found⟩ :=
      exists_run (fun byte => !form.needsEscape byte) (bytes.drop i)
    have here := isRest_drop inside
    rw [rest] at here ⊢
    obtain ⟨before, rfl, rfl⟩ := here
    have text : ofUtf8 run = .ok (run.map Char.ofUInt8) :=
      ofUtf8_of_ascii fun byte member => UInt8.lt_trans
        (form.below_delete ((Bool.not_eq_true' _).mp (found.plain byte member))) (by decide)
    have there : (before ++ (run ++ others)).drop (before.length + run.length) = others := by
      rw [← List.append_assoc, ← List.length_append, List.drop_left]
    have next : (before ++ (run ++ others))[before.length + run.length]? = others.head? := by
      rw [← List.head?_drop, there]
    have further : others.tail =
        (before ++ (run ++ others)).drop (before.length + run.length + 1) := by
      rw [← List.tail_drop, there]
    rw [bytesTurn, runEnd_of_isRun found, slice_append, ok_bind, text,
      putBetween_eq s _ (List.length_eq_zero_iff.trans List.map_eq_nil_iff.symm), next]
    refine Turn.Steps.exists_behind (Nat.le_add_right _ run.length)
      (s.putPieces_scanBytes_append found) ?_
    cases others with
    | nil => exact ⟨.onward (pure ()) _ [], .onward rfl rfl (Nat.lt_succ_self _) further⟩
    | cons byte others =>
        obtain ⟨escape, entry⟩ := Option.isSome_iff_exists.mp
          ((Bool.not_eq_false' _).mp (found.ends byte rfl))
        rw [List.head?_cons, Option.bind_some, entry]
        refine ⟨.onward (s.putEscape escape) _ others,
          .onward rfl ?_ (Nat.lt_succ_self _) further⟩
        rw [scanBytes_eq_scan, Piece.scan_cons, entry, ← scanBytes_eq_scan]
        rfl

end Checked

end IonLiteral
