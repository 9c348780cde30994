import IonLiteral.Proofs.Encodings

/-! # Operations that check themselves

Arithmetic on machine words, cuts through strings and conversions between bytes, units and characters
have preconditions. Here each of them is an operation that looks at its own precondition and reports
a breach where it does not hold. Beside each stands what it gives where it holds.
-/

namespace IonLiteral

/-- What must never happen while text is written. -/
inductive Breach where
  /-- A sum or a difference leaves the range of its type. -/
  | overflow
  /-- An index, the end of a slice or the width of a shift is out of range. -/
  | outOfRange
  /-- A string is cut inside a character. -/
  | insideCharacter
  /-- A surrogate pair is combined that is none, or a code point is split that has none. -/
  | noPair
  /-- A unit is taken for a plain character that is none. -/
  | notPlain
  /-- Bytes are taken for text that are no UTF-8. -/
  | notUtf8
  /-- A number is taken for a character that is none. -/
  | noCharacter
  /-- A loop does not go forward. -/
  | endless
  deriving DecidableEq

/-! ## Shifts and masks -/

namespace CodePoint

theorem shiftLeft_ten (cp : CodePoint) : cp <<< 10 = cp * 0x400 := by
  apply UInt32.toNat_inj.mp
  simp only [UInt32.toNat_shiftLeft, UInt32.toNat_mul, UInt32.toNat_ofNat, Nat.shiftLeft_eq,
    Nat.reduceMod, Nat.reducePow]

theorem shiftRight_ten (cp : CodePoint) : cp >>> 10 = cp / 0x400 := by
  apply UInt32.toNat_inj.mp
  simp only [UInt32.toNat_shiftRight, UInt32.toNat_div, UInt32.toNat_ofNat,
    Nat.shiftRight_eq_div_pow, Nat.reduceMod, Nat.reducePow]

theorem and_ten_bits (cp : CodePoint) : cp &&& 0x3FF = cp % 0x400 := by
  apply UInt32.toNat_inj.mp
  rw [UInt32.toNat_and, UInt32.toNat_mod]
  exact Nat.and_two_pow_sub_one_eq_mod cp.toNat 10

theorem and_four_bits (cp : CodePoint) : (cp &&& 0xF).toNat = cp.toNat % 16 := by
  rw [UInt32.toNat_and]
  exact Nat.and_two_pow_sub_one_eq_mod cp.toNat 4

end CodePoint

namespace Checked

/-- Report a breach unless a condition holds. -/
def demand (holds : Bool) (breach : Breach) : Except Breach Unit :=
  if holds then .ok () else .error breach

@[simp]
theorem demand_true (breach : Breach) : demand true breach = .ok () := rfl

@[simp]
theorem ok_bind {α β : Type} (a : α) (next : α → Except Breach β) :
    (Except.ok a >>= next) = next a := rfl

/-- Whoever gets past a condition knows that it holds. -/
theorem holds_of_demand {α : Type} {holds : Bool} {breach : Breach} {next : Except Breach α} {a : α}
    (found : (do demand holds breach; next) = .ok a) : holds = true := by
  cases holds with
  | true => rfl
  | false => cases found

/-! ## Arithmetic -/

/-- The difference of two lengths. -/
def subtractLengths (m n : Nat) : Except Breach Nat := do
  demand (n ≤ m) .overflow
  return m - n

/-- The difference of two units. -/
def subtractUnits (u v : CodeUnit) : Except Breach CodeUnit := do
  demand (v ≤ u) .overflow
  return u - v

/-- The sum of two units. -/
def addUnits (u v : CodeUnit) : Except Breach CodeUnit := do
  demand (u.toNat + v.toNat < 0x10000) .overflow
  return u + v

/-- The difference of two code points. -/
def subtractCodePoints (a b : CodePoint) : Except Breach CodePoint := do
  demand (b ≤ a) .overflow
  return a - b

/-- The sum of two code points. -/
def addCodePoints (a b : CodePoint) : Except Breach CodePoint := do
  demand (a.toNat + b.toNat < 0x100000000) .overflow
  return a + b

/-- No more may be taken away than is there; then the difference is the plain one. -/
theorem subtractLengths_eq {m n : Nat} (enough : n ≤ m) : subtractLengths m n = .ok (m - n) := by
  rw [subtractLengths, decide_eq_true enough]
  rfl

/-- A difference of units does not wrap around if the first is no less than the second. -/
theorem subtractUnits_eq {u v : CodeUnit} (enough : v ≤ u) : subtractUnits u v = .ok (u - v) := by
  rw [subtractUnits, decide_eq_true enough]
  rfl

/-- A sum of units does not wrap around if it fits. -/
theorem addUnits_eq {u v : CodeUnit} (fits : u.toNat + v.toNat < 0x10000) :
    addUnits u v = .ok (u + v) := by
  rw [addUnits, decide_eq_true fits]
  rfl

/-- A difference of code points does not wrap around if the first is no less than the second. -/
theorem subtractCodePoints_eq {a b : CodePoint} (enough : b ≤ a) :
    subtractCodePoints a b = .ok (a - b) := by
  rw [subtractCodePoints, decide_eq_true enough]
  rfl

/-- A sum of code points does not wrap around if it fits. -/
theorem addCodePoints_eq {a b : CodePoint} (fits : a.toNat + b.toNat < 0x100000000) :
    addCodePoints a b = .ok (a + b) := by
  rw [addCodePoints, decide_eq_true fits]
  rfl

/-! ## Surrogate pairs -/

/-- The code point of a surrogate pair. -/
def combine (lead trail : CodeUnit) : Except Breach CodePoint := do
  demand (lead.isHighSurrogate && trail.isLowSurrogate) .noPair
  let first ← subtractUnits lead 0xD800
  let second ← subtractUnits trail 0xDC00
  let sum ← addCodePoints 0x10000 (first.toUInt32 <<< 10)
  addCodePoints sum second.toUInt32

/-- The surrogate pair of a code point. -/
def split (cp : CodePoint) : Except Breach (CodeUnit × CodeUnit) := do
  demand (0x10000 ≤ cp && cp ≤ 0x10FFFF) .noPair
  let distance ← subtractCodePoints cp 0x10000
  let lead ← addUnits 0xD800 (distance >>> 10).toUInt16
  let trail ← addUnits 0xDC00 (distance &&& 0x3FF).toUInt16
  return (lead, trail)

/-- The character with a number. -/
def character (cp : CodePoint) : Except Breach Char :=
  match cp.toChar? with
  | some c => .ok c
  | none => .error .noCharacter

/-- **Halves of a pair are combined without overflow.** -/
theorem combine_eq {lead trail : CodeUnit} (high : lead.isHighSurrogate = true)
    (low : trail.isLowSurrogate = true) :
    combine lead trail = .ok (Surrogate.combine lead trail) := by
  have leadBounds := CodeUnit.isHighSurrogate_iff.mp high
  have trailBounds := CodeUnit.isLowSurrogate_iff.mp low
  have first : subtractUnits lead 0xD800 = .ok (lead - 0xD800) :=
    subtractUnits_eq (UInt16.le_iff_toNat_le.mpr leadBounds.1)
  have second : subtractUnits trail 0xDC00 = .ok (trail - 0xDC00) :=
    subtractUnits_eq (UInt16.le_iff_toNat_le.mpr trailBounds.1)
  have firstBound : (lead - 0xD800).toNat < 0x400 := by
    simp only [UInt16.toNat_sub, UInt16.toNat_ofNat]
    omega
  have secondBound : (trail - 0xDC00).toNat < 0x400 := by
    simp only [UInt16.toNat_sub, UInt16.toNat_ofNat]
    omega
  have sum : addCodePoints 0x10000 ((lead - 0xD800).toUInt32 * 0x400) =
      .ok (0x10000 + (lead - 0xD800).toUInt32 * 0x400) := by
    apply addCodePoints_eq
    simp only [UInt32.toNat_mul, UInt16.toNat_toUInt32, UInt32.toNat_ofNat]
    omega
  simp only [combine, high, low, Bool.and_self, demand_true, ok_bind, first, second,
    CodePoint.shiftLeft_ten, sum]
  apply addCodePoints_eq
  simp only [UInt32.toNat_add, UInt32.toNat_mul, UInt16.toNat_toUInt32, UInt32.toNat_ofNat]
  omega

/-- **Code points that have a pair are split without overflow.** -/
theorem split_eq {cp : CodePoint} (above : 0x10000 ≤ cp.toNat) (below : cp.toNat < 0x110000) :
    split cp = .ok (Surrogate.split cp) := by
  have least : (0x10000 : CodePoint) ≤ cp := UInt32.le_iff_toNat_le.mpr above
  have greatest : cp ≤ 0x10FFFF := UInt32.le_iff_toNat_le.mpr (Nat.le_of_lt_succ below)
  have distance : (cp - 0x10000).toNat = cp.toNat - 0x10000 := by
    simp only [UInt32.toNat_sub, UInt32.toNat_ofNat]
    omega
  have lead : addUnits 0xD800 ((cp - 0x10000) / 0x400).toUInt16 =
      .ok (0xD800 + ((cp - 0x10000) / 0x400).toUInt16) := by
    apply addUnits_eq
    simp only [UInt32.toNat_toUInt16, UInt32.toNat_div, distance, UInt16.toNat_ofNat,
      UInt32.toNat_ofNat, Nat.reducePow, Nat.reduceMod]
    omega
  have trail : addUnits 0xDC00 ((cp - 0x10000) % 0x400).toUInt16 =
      .ok (0xDC00 + ((cp - 0x10000) % 0x400).toUInt16) := by
    apply addUnits_eq
    simp only [UInt32.toNat_toUInt16, UInt32.toNat_mod, distance, UInt16.toNat_ofNat,
      UInt32.toNat_ofNat, Nat.reducePow, Nat.reduceMod]
    omega
  simp only [split, least, greatest, decide_true, Bool.and_self, demand_true, ok_bind,
    subtractCodePoints_eq least, CodePoint.shiftRight_ten, CodePoint.and_ten_bits, lead, trail]
  rfl

/-- **Only halves of a pair are combined.** -/
theorem exists_combine_iff {lead trail : CodeUnit} :
    (∃ cp, combine lead trail = .ok cp) ↔
      lead.isHighSurrogate = true ∧ trail.isLowSurrogate = true := by
  constructor
  · rintro ⟨cp, found⟩
    exact Bool.and_eq_true_iff.mp (holds_of_demand found)
  · rintro ⟨high, low⟩
    exact ⟨_, combine_eq high low⟩

/-- **Only code points that have a pair are split.** -/
theorem exists_split_iff {cp : CodePoint} :
    (∃ pair, split cp = .ok pair) ↔ 0x10000 ≤ cp.toNat ∧ cp.toNat < 0x110000 := by
  constructor
  · rintro ⟨pair, found⟩
    obtain ⟨least, greatest⟩ := Bool.and_eq_true_iff.mp (holds_of_demand found)
    exact ⟨UInt32.le_iff_toNat_le.mp (of_decide_eq_true least),
      Nat.lt_succ_of_le (UInt32.le_iff_toNat_le.mp (of_decide_eq_true greatest))⟩
  · rintro ⟨above, below⟩
    exact ⟨_, split_eq above below⟩

theorem split_val {c : Char} (large : ¬ c.val < 0x10000) :
    split c.val = .ok (Surrogate.split c.val) :=
  split_eq (Nat.le_of_not_lt fun below => large (CodePoint.small_iff.mpr below))
    (CodePoint.toNat_lt c)

/-- A pair stands for a character. -/
theorem exists_character_combine {lead trail : CodeUnit} (high : lead.isHighSurrogate = true)
    (low : trail.isLowSurrogate = true) : ∃ c, (combine lead trail >>= character) = .ok c := by
  obtain ⟨c, value, _⟩ := CodePoint.exists_char_of_pair high low
  refine ⟨c, ?_⟩
  rw [combine_eq high low, ← value, ok_bind, character, CodePoint.toChar?_val]

/-! ## Items and slices -/

section Slices

variable {α : Type}

/-- The item at an index. -/
def item (as : List α) (i : Nat) : Except Breach α :=
  match as[i]? with
  | some a => .ok a
  | none => .error .outOfRange

/-- The items from one index up to another. -/
def slice (as : List α) (start stop : Nat) : Except Breach (List α) := do
  demand (start ≤ stop && stop ≤ as.length) .outOfRange
  return (as.drop start).take (stop - start)

/-- The item behind some others is where they end. -/
theorem item_append (before : List α) (a : α) (rest : List α) :
    item (before ++ a :: rest) before.length = .ok a := by
  rw [item, List.getElem?_append_right (Nat.le_refl _), Nat.sub_self]
  rfl

/-- What lies between two parts of a list is a slice of it. -/
theorem slice_append (before between rest : List α) :
    slice (before ++ (between ++ rest)) before.length (before.length + between.length) =
      .ok between := by
  have inside : before.length + between.length ≤ (before ++ (between ++ rest)).length := by
    simp only [List.length_append]
    omega
  rw [slice, decide_eq_true (Nat.le_add_right _ _), decide_eq_true inside, Bool.and_self,
    demand_true, ok_bind, List.drop_left, Nat.add_sub_cancel_left, List.take_left]
  rfl

end Slices

end Checked

/-! ## Cuts through strings -/

namespace Utf8

@[simp]
theorem size_nil : size [] = 0 := rfl

theorem size_cons (c : Char) (cs : List Char) : size (c :: cs) = c.utf8Size + size cs := by
  rw [size, encode_cons, List.length_append, String.length_utf8EncodeChar]
  rfl

theorem size_append (cs ds : List Char) : size (cs ++ ds) = size cs + size ds := by
  rw [size, encode_append, List.length_append]
  rfl

theorem size_pos {cs : List Char} (some : cs ≠ []) : 0 < size cs := by
  cases cs with
  | nil => exact absurd rfl some
  | cons c cs =>
      rw [size_cons]
      exact Nat.add_pos_left c.utf8Size_pos _

theorem size_eq_zero_iff {cs : List Char} : size cs = 0 ↔ cs = [] := by
  constructor
  · intro none
    refine Classical.byContradiction fun some => ?_
    exact Nat.ne_of_gt (size_pos some) none
  · rintro rfl
    exact size_nil

/-- A number of bytes after which no character is cut in two. -/
def IsBoundary (cs : List Char) (i : Nat) : Prop :=
  ∃ before rest, cs = before ++ rest ∧ i = size before

end Utf8

namespace Checked

/-- A string cut behind so many of its bytes. -/
def cut : List Char → Nat → Except Breach (List Char × List Char)
  | cs, 0 => .ok ([], cs)
  | [], _ + 1 => .error .outOfRange
  | c :: cs, bytes + 1 => do
    demand (c.utf8Size ≤ bytes + 1) .insideCharacter
    let (before, rest) ← cut cs (bytes + 1 - c.utf8Size)
    return (c :: before, rest)

/-- The part of a string between two of its bytes. -/
def substring (cs : List Char) (start stop : Nat) : Except Breach (List Char) := do
  let (_, rest) ← cut cs start
  let (between, _) ← cut rest (← subtractLengths stop start)
  return between

/-- A text can be cut between any two parts of it. -/
theorem cut_append (before rest : List Char) :
    cut (before ++ rest) (Utf8.size before) = .ok (before, rest) := by
  induction before with
  | nil => cases rest <;> rfl
  | cons c before ih =>
      obtain ⟨bytes, found⟩ := Nat.exists_eq_add_one.mpr (Utf8.size_pos (List.cons_ne_nil c before))
      have remaining : bytes + 1 - c.utf8Size = Utf8.size before := by
        rw [← found, Utf8.size_cons, Nat.add_sub_cancel_left]
      have fits : c.utf8Size ≤ bytes + 1 := by
        rw [← found, Utf8.size_cons]
        exact Nat.le_add_right _ _
      rw [found, List.cons_append, cut, decide_eq_true fits, remaining, ih]
      rfl

/-- A cut leaves two parts of the text, of which the first has so many bytes. -/
theorem eq_append_of_cut {cs : List Char} {i : Nat} {parts : List Char × List Char}
    (found : cut cs i = .ok parts) : cs = parts.1 ++ parts.2 ∧ i = Utf8.size parts.1 := by
  induction cs, i using cut.induct generalizing parts with
  | case1 cs =>
      rw [cut] at found
      cases found
      exact ⟨rfl, rfl⟩
  | case2 bytes => cases found
  | case3 c cs bytes ih =>
      by_cases fits : c.utf8Size ≤ bytes + 1
      · rw [cut, decide_eq_true fits] at found
        cases further : cut cs (bytes + 1 - c.utf8Size) with
        | error breach =>
            rw [further] at found
            cases found
        | ok behind =>
            rw [further] at found
            cases found
            obtain ⟨whole, length⟩ := ih further
            refine ⟨congrArg (c :: ·) whole, ?_⟩
            rw [Utf8.size_cons, ← length, Nat.add_sub_cancel' fits]
      · rw [cut, decide_eq_false fits] at found
        cases found

/-- **Strings can be cut at boundaries** and nowhere else. -/
theorem exists_cut_iff {cs : List Char} {i : Nat} :
    (∃ parts, cut cs i = .ok parts) ↔ Utf8.IsBoundary cs i := by
  constructor
  · rintro ⟨parts, found⟩
    exact ⟨parts.1, parts.2, eq_append_of_cut found⟩
  · rintro ⟨before, rest, rfl, rfl⟩
    exact ⟨_, cut_append before rest⟩

/-- What lies between two parts of a text is a substring of it. -/
theorem substring_append (before between rest : List Char) :
    substring (before ++ (between ++ rest)) (Utf8.size before)
        (Utf8.size before + Utf8.size between) = .ok between := by
  simp only [substring, cut_append, ok_bind, subtractLengths_eq (Nat.le_add_right _ _),
    Nat.add_sub_cancel_left]
  rfl

/-! ## Bytes and units as text -/

/-- The text of bytes in UTF-8. -/
def ofUtf8 (bytes : List UInt8) : Except Breach (List Char) :=
  match String.fromUTF8? bytes.toByteArray with
  | some text => .ok text.toList
  | none => .error .notUtf8

/-- The character of a unit that is plain. -/
def plainChar (u : CodeUnit) : Except Breach Char := do
  demand (u < 0x7F) .notPlain
  return Char.ofUInt8 u.toUInt8

/-- The bytes of a text are UTF-8. -/
theorem ofUtf8_encode (cs : List Char) : ofUtf8 (Utf8.encode cs) = .ok cs := by
  have valid : (Utf8.encode cs).toByteArray.IsValidUTF8 := .intro cs rfl
  have text : String.fromUTF8 _ valid = String.ofList cs :=
    String.toByteArray_inj.mp String.toByteArray_ofList.symm
  rw [ofUtf8, String.fromUTF8?, dif_pos valid, text]
  exact congrArg Except.ok String.toList_ofList

/-- Bytes below `0x80` are the text of the characters with their numbers. -/
theorem ofUtf8_of_ascii {bytes : List UInt8} (ascii : ∀ byte ∈ bytes, byte < 0x80) :
    ofUtf8 bytes = .ok (bytes.map Char.ofUInt8) := by
  have small : ∀ c ∈ bytes.map Char.ofUInt8, c.val < 0x80 := by
    refine List.forall_mem_map.mpr fun byte member => UInt32.lt_iff_toNat_lt.mpr ?_
    exact UInt8.lt_iff_toNat_lt.mp (ascii byte member)
  have same : Utf8.encode (bytes.map Char.ofUInt8) = bytes := by
    rw [Utf8.encode_of_ascii small, List.map_map]
    exact (List.map_congr_left fun byte _ => CodePoint.toUInt8_ofUInt8 byte).trans (List.map_id _)
  have text := ofUtf8_encode (bytes.map Char.ofUInt8)
  rwa [same] at text

/-- What gives a result for each item gives one for all of them. -/
theorem mapM_eq {α β : Type} {check : α → Except Breach β} {f : α → β} {as : List α}
    (each : ∀ a ∈ as, check a = .ok (f a)) : as.mapM check = .ok (as.map f) := by
  induction as with
  | nil => rfl
  | cons a as ih =>
      obtain ⟨here, others⟩ := List.forall_mem_cons.mp each
      rw [List.mapM_cons, here, ih others]
      rfl

/-- A unit below DEL is a character of one byte. -/
theorem plainChar_eq {u : CodeUnit} (plain : u < 0x7F) :
    plainChar u = .ok (Char.ofUInt8 u.toUInt8) := by
  rw [plainChar, decide_eq_true plain]
  rfl

/-- **Only units below DEL pass for plain.** -/
theorem exists_plainChar_iff {u : CodeUnit} : (∃ c, plainChar u = .ok c) ↔ u < 0x7F := by
  constructor
  · rintro ⟨c, found⟩
    exact of_decide_eq_true (holds_of_demand found)
  · intro plain
    exact ⟨_, plainChar_eq plain⟩

/-! ## Escapes by number -/

/-- The digits that escapes are made of, as bytes. -/
def hexDigits : List UInt8 :=
  Utf8.encode ['0', '1', '2', '3', '4', '5', '6', '7', '8', '9', 'a', 'b', 'c', 'd', 'e', 'f']

/-- The digit that begins at a bit of a number. -/
def hexDigit (value : CodePoint) (shift : Nat) : Except Breach UInt8 := do
  demand (shift < 32) .outOfRange
  item hexDigits (value >>> UInt32.ofNat shift &&& 0xF).toNat

/-- The text of an escape by number. There is room for ten bytes: the backslash, the marker and the
digits. -/
def hexEscape (marker : UInt8) (value : CodePoint) (digits : Nat) :
    Except Breach (List Char) := do
  demand (2 + digits ≤ 10) .outOfRange
  let written ← (List.range digits).mapM fun k => do
    hexDigit value (4 * (← subtractLengths (← subtractLengths digits 1) k))
  ofUtf8 (0x5C :: marker :: written)

/-- A digit is looked up inside the table of digits, since it is below sixteen. -/
theorem hexDigit_eq (value : CodePoint) {place : Nat} (inside : place < 8) :
    hexDigit value (4 * place) =
      .ok (Nat.digitChar (value.toNat >>> (4 * place) % 16)).toUInt8 := by
  have digits : ∀ n < 16, hexDigits[n]? = some (Nat.digitChar n).toUInt8 := by decide
  have shift : 4 * place < 32 := by omega
  have moved : (value >>> UInt32.ofNat (4 * place)).toNat = value.toNat >>> (4 * place) := by
    rw [UInt32.toNat_shiftRight, UInt32.toNat_ofNat',
      Nat.mod_eq_of_lt (Nat.lt_trans shift (by decide)), Nat.mod_eq_of_lt shift]
  rw [hexDigit, decide_eq_true shift, demand_true, ok_bind, item, CodePoint.and_four_bits, moved,
    digits _ (Nat.mod_lt _ (by decide))]

end Checked

/-- The digits of a numeral, from the first to the last. -/
theorem Hex.fixed_eq_map (width value : Nat) :
    fixed width value =
      (List.range width).map fun k =>
        Nat.digitChar (value >>> (4 * (width - 1 - k)) % 16) := by
  induction width generalizing value with
  | zero => rfl
  | succ width ih =>
      rw [fixed, ih, List.range_succ, List.map_append]
      congr 1
      · refine List.map_congr_left fun k member => ?_
        have before : k < width := List.mem_range.mp member
        have place : 4 * (width + 1 - 1 - k) = 4 + 4 * (width - 1 - k) := by omega
        rw [place, Nat.shiftRight_add, Nat.shiftRight_eq_div_pow value 4]
      · simp only [List.map_cons, List.map_nil, Nat.add_sub_cancel, Nat.sub_self, Nat.mul_zero,
          Nat.shiftRight_zero]

namespace Checked

/-- **Escapes by number** have room for eight digits. -/
theorem hexEscape_eq {marker : Char} (ascii : marker.val < 0x80) (value : CodePoint) {digits : Nat}
    (fits : digits ≤ 8) :
    hexEscape marker.toUInt8 value digits =
      .ok (Escape.numeric marker digits value.toNat).text := by
  have written : (List.range digits).mapM (fun k => do
      hexDigit value (4 * (← subtractLengths (← subtractLengths digits 1) k))) =
      .ok ((Hex.fixed digits value.toNat).map Char.toUInt8) := by
    rw [Hex.fixed_eq_map, List.map_map]
    refine mapM_eq fun k member => ?_
    have before : k < digits := List.mem_range.mp member
    rw [subtractLengths_eq (Nat.one_le_of_lt before), ok_bind,
      subtractLengths_eq (Nat.le_sub_one_of_lt before), ok_bind]
    exact hexDigit_eq value (by omega)
  have small : ∀ c ∈ (Escape.numeric marker digits value.toNat).text, c.val < 0x80 := by
    refine List.forall_mem_cons.mpr ⟨by decide, List.forall_mem_cons.mpr ⟨ascii, ?_⟩⟩
    intro c member
    obtain ⟨n, digit, rfl⟩ := Hex.exists_digit_of_mem_fixed member
    exact (by decide : ∀ n < 16, (Nat.digitChar n).val < 0x80) n digit
  rw [hexEscape, decide_eq_true (Nat.add_le_add_left fits 2), demand_true, ok_bind, written,
    ok_bind]
  change ofUtf8 ((Escape.numeric marker digits value.toNat).text.map Char.toUInt8) = _
  rw [← Utf8.encode_of_ascii small]
  exact ofUtf8_encode _

end Checked

end IonLiteral
