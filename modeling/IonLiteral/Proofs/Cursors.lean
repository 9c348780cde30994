import IonLiteral.Proofs.IllFormed
import IonLiteral.Proofs.Safety

/-! # Decoding step by step

A cursor stands before a unit of a text and reads one code point at a time, or a surrogate without
its partner, behind which it goes on. A step depends on the units from the cursor on, and takes a
character of them off or an unpaired surrogate. Up to the first such surrogate decoding yields what
a cursor reads, and writing units one character at a time writes what a cursor reads as it reads it.
What is read without a fault is encoded as what was there to read.
-/

namespace IonLiteral

namespace Utf16

/-! ## Encoding code points -/

/-- The one or two units of a code point. -/
def encodeCodePoint (cp : CodePoint) : List CodeUnit :=
  if cp < 0x10000 then [cp.toUInt16] else [(Surrogate.split cp).1, (Surrogate.split cp).2]

/-- The units of code points in a row. -/
def encodeCodePoints (cps : List CodePoint) : List CodeUnit :=
  cps.flatMap encodeCodePoint

/-- The units of characters are those of their numbers. -/
theorem encodeCodePoints_map_val (cs : List Char) :
    encodeCodePoints (cs.map Char.val) = encode cs :=
  List.flatMap_map ..

/-- Code points that all are numbers of characters are those of some text. -/
theorem forall_isValidChar_iff {cps : List CodePoint} :
    (∀ cp ∈ cps, cp.isValidChar) ↔ ∃ cs : List Char, cps = cs.map Char.val := by
  constructor
  · intro valid
    refine ⟨cps.attach.map fun cp => ⟨cp.1, valid cp.1 cp.2⟩, ?_⟩
    simp [List.map_map, Function.comp_def]
  · rintro ⟨cs, rfl⟩
    exact List.forall_mem_map.mpr fun c _ => c.valid

/-! ## Cursors -/

/-- What a cursor reads at once: a code point, or a surrogate without its partner. -/
abbrev Item := Except Unmatched CodePoint

/-- A place before a unit of a text, or at its end. -/
structure Cursor where
  units : List CodeUnit
  index : Nat

namespace Cursor

/-- The cursor before the first unit. -/
def start (us : List CodeUnit) : Cursor := ⟨us, 0⟩

/-- The cursor some units further on. -/
def advance (cursor : Cursor) (count : Nat) : Cursor :=
  { cursor with index := cursor.index + count }

/-- The units that are still to be read. -/
def rest (cursor : Cursor) : List CodeUnit :=
  cursor.units.drop cursor.index

/-- Read what the next unit begins. Only the unit behind it is looked at besides. -/
def next? (cursor : Cursor) : Option (Item × Cursor) :=
  cursor.units[cursor.index]?.map fun u =>
    if u.isHighSurrogate then
      match cursor.units[cursor.index + 1]?.filter CodeUnit.isLowSurrogate with
      | some trail => (.ok (Surrogate.combine u trail), cursor.advance 2)
      | none => (.error ⟨.high, u, cursor.index⟩, cursor.advance 1)
    else if u.isLowSurrogate then (.error ⟨.low, u, cursor.index⟩, cursor.advance 1)
    else (.ok u.toUInt32, cursor.advance 1)

@[simp]
theorem rest_start (us : List CodeUnit) : (start us).rest = us := rfl

theorem rest_advance (cursor : Cursor) (count : Nat) :
    (cursor.advance count).rest = cursor.rest.drop count :=
  (List.drop_drop ..).symm

theorem getElem?_index (cursor : Cursor) : cursor.units[cursor.index]? = cursor.rest.head? :=
  (List.head?_drop ..).symm

theorem getElem?_behind (cursor : Cursor) :
    cursor.units[cursor.index + 1]? = cursor.rest.tail.head? := by
  rw [rest, List.tail_drop, List.head?_drop]

/-- All that a step can come to. At the end nothing is read. Before that the rest begins with a
character, whose number is read, or with an unpaired surrogate, which is reported where it stands.
-/
inductive Step (cursor : Cursor) : Option (Item × Cursor) → Prop
  | done (atEnd : cursor.rest = []) : Step cursor none
  | char (c : Char) (more : List CodeUnit) (starts : cursor.rest = encodeChar c ++ more) :
      Step cursor (some (.ok c.val, cursor.advance (encodeChar c).length))
  | unpaired (half : Half) (u : CodeUnit) (more : List CodeUnit) (starts : cursor.rest = u :: more)
      (alone : Unpaired half u more) :
      Step cursor (some (.error ⟨half, u, cursor.index⟩, cursor.advance 1))

/-- Where a character begins its number is read, and the cursor goes behind it. -/
theorem next?_of_char {cursor : Cursor} {c : Char} {more : List CodeUnit}
    (starts : cursor.rest = encodeChar c ++ more) :
    cursor.next? = some (.ok c.val, cursor.advance (encodeChar c).length) := by
  rw [next?, getElem?_index, getElem?_behind, starts]
  by_cases small : c.val < 0x10000
  · have noHalf := CodePoint.noHalf_toUInt16 small
    simp [encodeChar_small small, noHalf, CodePoint.toUInt32_toUInt16 small]
  · obtain ⟨high, low, value⟩ := CodePoint.split_isPair small
    simp [encodeChar_large small, high, Option.filter_some, low, value]

/-- A surrogate without its partner is read as a fault, and the cursor goes behind it. -/
theorem next?_of_unpaired {cursor : Cursor} {half : Half} {u : CodeUnit} {more : List CodeUnit}
    (starts : cursor.rest = u :: more) (alone : Unpaired half u more) :
    cursor.next? = some (.error ⟨half, u, cursor.index⟩, cursor.advance 1) := by
  rw [next?, getElem?_index, getElem?_behind, starts]
  cases alone with
  | high high alone =>
      have noTrail := (Unpaired.high high alone).filter_head?
      simp [high, noTrail]
  | low low =>
      have notHigh := CodeUnit.isHighSurrogate_of_isLowSurrogate low
      simp [notHigh, low]

/-- **A step takes a character off the rest**, or an unpaired surrogate. -/
theorem step_next? (cursor : Cursor) : cursor.Step cursor.next? := by
  generalize remaining : cursor.rest = rest
  induction rest using induction_on_characters with
  | nil =>
      have nothing : cursor.next? = none := by rw [next?, getElem?_index, remaining]; rfl
      rw [nothing]
      exact .done remaining
  | char c more =>
      rw [next?_of_char remaining]
      exact .char c more remaining
  | unpaired half u more alone =>
      rw [next?_of_unpaired remaining alone]
      exact .unpaired half u more remaining alone

/-- Reading leaves less to be read. -/
theorem length_rest_lt {cursor further : Cursor} {item : Item}
    (read : cursor.next? = some (item, further)) : further.rest.length < cursor.rest.length := by
  have step := cursor.step_next?
  rw [read] at step
  cases step with
  | char c more starts =>
      have some := List.length_pos_iff.mpr (encodeChar_ne_nil c)
      rw [rest_advance, starts]
      simp [some]
  | unpaired half u more starts alone =>
      rw [rest_advance, starts]
      simp

/-- All that is read from a cursor on. -/
def items (cursor : Cursor) : List Item :=
  match _ : cursor.next? with
  | none => []
  | some (item, further) => item :: further.items
termination_by cursor.rest.length
decreasing_by exact length_rest_lt ‹_›

theorem items_of_done {cursor : Cursor} (nothing : cursor.next? = none) : cursor.items = [] := by
  rw [items]
  split
  · rfl
  · simp_all

theorem items_of_read {cursor further : Cursor} {item : Item}
    (read : cursor.next? = some (item, further)) : cursor.items = item :: further.items := by
  rw [items]
  split
  · simp_all
  · simp_all

/-- **Whatever is read is the number of a character**, or reported as none. -/
theorem isValidChar_of_mem_items {cursor : Cursor} {cp : CodePoint}
    (member : .ok cp ∈ cursor.items) : cp.isValidChar := by
  induction cursor using items.induct with
  | case1 cursor nothing =>
      rw [items_of_done nothing] at member
      cases member
  | case2 cursor item further read ih =>
      have step := cursor.step_next?
      rw [items_of_read read] at member
      rw [read] at step
      rcases List.mem_cons.mp member with same | behind
      · subst same
        cases step with
        | char c more starts => exact c.valid
      · exact ih behind

end Cursor

/-! ## What decoding yields -/

/-- What items come to, up to the first surrogate without its partner. -/
def Decoded.ofItems : List Item → Decoded
  | [] => ⟨[], none⟩
  | .ok cp :: items => (ofItems items).cons cp
  | .error found :: _ => ⟨[], some found⟩

/-- Decoding comes to code points alone exactly if no item is a fault. -/
theorem Decoded.ofItems_eq_iff {items : List Item} {cps : List CodePoint} :
    ofItems items = ⟨cps, none⟩ ↔ items = cps.map .ok := by
  induction items generalizing cps with
  | nil => simp [ofItems, eq_comm]
  | cons item items ih =>
      cases item with
      | error found => cases cps <;> simp [ofItems]
      | ok cp =>
          cases cps with
          | nil => simp [ofItems, cons]
          | cons other cps =>
              rw [List.map_cons, List.cons.injEq, Except.ok.injEq, ← ih, ofItems]
              cases ofItems items
              simp [cons, and_assoc]

/-- **Decoding yields what a cursor reads**, up to the first surrogate without its partner. -/
theorem decodeFrom_rest (cursor : Cursor) :
    decodeFrom cursor.index cursor.rest = .ofItems cursor.items := by
  induction cursor using Cursor.items.induct with
  | case1 cursor nothing =>
      have step := cursor.step_next?
      rw [nothing] at step
      cases step with
      | done atEnd =>
          rw [Cursor.items_of_done nothing, atEnd]
          rfl
  | case2 cursor item further read ih =>
      have step := cursor.step_next?
      rw [Cursor.items_of_read read]
      rw [read] at step
      cases step with
      | char c more starts =>
          have behind : (cursor.advance (encodeChar c).length).rest = more := by
            rw [Cursor.rest_advance, starts, List.drop_left]
          rw [behind] at ih
          rw [starts, decodeFrom_encodeChar]
          exact congrArg (Decoded.cons c.val) ih
      | unpaired half u more starts alone =>
          rw [starts, decodeFrom_unpaired cursor.index alone]
          rfl

/-- Decoding comes to code points alone exactly for the units of characters with these numbers. -/
theorem decode_eq_iff {us : List CodeUnit} {cps : List CodePoint} :
    decode us = ⟨cps, none⟩ ↔ ∃ cs : List Char, cps = cs.map Char.val ∧ us = encode cs := by
  constructor
  · intro decoded
    have whole := unmatched_eq_none_iff.mp (congrArg Decoded.unmatched decoded)
    obtain ⟨cs, rfl⟩ := whole.exists_encode
    rw [decode, decodeFrom_encode] at decoded
    exact ⟨cs, (congrArg Decoded.codePoints decoded).symm, rfl⟩
  · rintro ⟨cs, rfl, rfl⟩
    exact decodeFrom_encode 0 cs

/-- **What is read without a fault is what was encoded.** -/
theorem Cursor.items_start_eq_iff {us : List CodeUnit} {cps : List CodePoint} :
    (Cursor.start us).items = cps.map .ok ↔
      (∀ cp ∈ cps, cp.isValidChar) ∧ us = encodeCodePoints cps := by
  rw [← Decoded.ofItems_eq_iff, ← decodeFrom_rest, forall_isValidChar_iff]
  -- Valid code points are the numbers of characters, and these are encoded as their units.
  refine decode_eq_iff.trans ⟨?_, ?_⟩
  · rintro ⟨cs, rfl, rfl⟩
    exact ⟨⟨cs, rfl⟩, (encodeCodePoints_map_val cs).symm⟩
  · rintro ⟨⟨cs, rfl⟩, rfl⟩
    exact ⟨cs, rfl, encodeCodePoints_map_val cs⟩

/-- Items without a fault are code points. -/
theorem exists_map_ok {items : List Item} (noFault : ∀ found, .error found ∉ items) :
    ∃ cps : List CodePoint, items = cps.map .ok := by
  induction items with
  | nil => exact ⟨[], rfl⟩
  | cons item items ih =>
      obtain ⟨cps, rfl⟩ := ih fun found member => noFault found (List.mem_cons_of_mem _ member)
      cases item with
      | error found => exact absurd List.mem_cons_self (noFault found)
      | ok cp => exact ⟨cp :: cps, rfl⟩

end Utf16

/-! ## Writing what is read -/

namespace Sink

variable {σ : Type}

/-- Write a code point, or stop at a surrogate without its partner. -/
def writeItem (s : Sink σ) (form : Form) : Utf16.Item → SinkM σ Unit
  | .ok cp => s.writeCodePoint form cp
  | .error found => throw (.unmatchedSurrogate found)

/-- Writing what was decoded is writing item by item. -/
theorem writeDecoded_ofItems (s : Sink σ) (form : Form) (items : List Utf16.Item) :
    s.writeDecoded form (.ofItems items) = items.forM (s.writeItem form) := by
  induction items with
  | nil => rfl
  | cons item items ih =>
      cases item with
      | error found => rfl
      | ok cp =>
          change _ = (do s.writeCodePoint form cp; items.forM (s.writeItem form))
          rw [← ih]
          exact bind_assoc ..

/-- **Units are written as they are read.** -/
theorem writeUnits_eq_forM_items (s : Sink σ) (form : Form) (us : List CodeUnit) :
    s.writeUnits form us = (Utf16.Cursor.start us).items.forM (s.writeItem form) := by
  rw [← writeDecoded_ofItems, ← Utf16.decodeFrom_rest]
  rfl

/-! ## Numbers without a character -/

/-- No operation that the sink has to be ready for fails because a number has no character. -/
def KnowsCharacters (s : Sink σ) : Prop :=
  ∀ call : Call, call.IsProper s.escapesUnicode →
    ∀ kept left cp, s.perform call kept ≠ .error (.notScalar cp) left

/-- A string fails for want of room and for nothing else. -/
theorem fault_of_extendString {limit : Option Nat} {text held left : String} {fault : Fault}
    (failed : extendString limit text held = .error fault left) : fault = .characterTarget := by
  change (if _ = true then throw .characterTarget else set (held ++ text) : SinkM String Unit)
    held = _ at failed
  split at failed
  · cases failed
    rfl
  · cases failed

/-- A recorder fails when it is full and for nothing else. -/
theorem fault_of_record {limit : Option Nat} {call : Call} {kept left : Array Call} {fault : Fault}
    (failed : record limit call kept = .error fault left) : fault = .custom "record is full" := by
  change (if _ = true then throw (.custom "record is full") else set (kept.push call) :
    SinkM (Array Call) Unit) kept = _ at failed
  split at failed
  · cases failed
    rfl
  · cases failed

/-- A string finds a character for each pair it is given. -/
theorem knowsCharacters_characters (escapesUnicode : Bool) (limit : Option Nat) :
    (characters escapesUnicode limit).KnowsCharacters := by
  intro call proper kept left cp failed
  have known : call.IsProper escapesUnicode := proper
  rw [perform_characters known] at failed
  cases fault_of_extendString failed

/-- A list of units needs no characters for pairs. -/
theorem knowsCharacters_units (escapesUnicode : Bool) : (units escapesUnicode).KnowsCharacters := by
  intro call proper kept left cp failed
  rw [(collects_units escapesUnicode).perform proper] at failed
  cases failed

/-- A byte writer finds a character for each pair it is given. -/
theorem knowsCharacters_bytes (charset : Charset) (w : ByteWriter) :
    (bytes charset w).KnowsCharacters := by
  intro call proper kept left cp failed
  have known : call.IsProper charset.escapesUnicode := proper
  rw [perform_bytes known] at failed
  obtain ⟨reason, same⟩ := w.exists_reason failed
  cases same

/-- A recorder keeps pairs, or finds a character for each. -/
theorem knowsCharacters_recorder (escapesUnicode keepsPairs : Bool) (limit : Option Nat) :
    (recorder escapesUnicode keepsPairs limit).KnowsCharacters := by
  intro call proper kept left cp failed
  cases call with
  | ascii text => cases fault_of_record failed
  | char c => cases fault_of_record failed
  | pair lead trail =>
      obtain ⟨c, _, _, combined⟩ := exists_char_of_proper_pair proper.2.1 proper.2.2
      cases keepsPairs with
      | true => cases fault_of_record failed
      | false =>
          change putCombined (fun c => record limit (.char c)) lead trail kept = _ at failed
          rw [combined] at failed
          cases fault_of_record failed

end Sink

/-- **Writing units never lacks a character.** Only a sink could report that it does. -/
theorem Rendering.result_observe_units_ne {σ : Type} {s : Sink σ} (knows : s.KnowsCharacters)
    (us : List CodeUnit) (form : Form) (kept : σ) (cp : CodePoint) :
    (s.observe (units us form) kept).result ≠ .error (.notScalar cp) := by
  intro ended
  rcases s.result_observe_cases (units us form) kept with
    planned | ⟨call, between, fault, left, proper, failed, ends⟩
  · rw [ended] at planned
    change _ = (Text.units us).ending at planned
    rw [Text.ending] at planned
    split at planned
    · cases planned
    · cases planned
  · rw [ended] at ends
    cases ends
    exact knows call proper between left cp failed

/-! ## Both ways -/

namespace Utf16

/-- **Decoding and encoding undo each other.** Numbers of characters, encoded and decoded, are read
as they were and without a fault. Units that are read without a fault are read as numbers of
characters, and encoding what was read gives the units back. Whatever is read from any units is the
number of a character or a surrogate without its partner. Decoding yields it up to the first such
surrogate, and writing units one character at a time writes it as it is read. So that never ends for
want of a character, on any sink that does not itself report one for an operation that it has to be
ready for. None of the sinks that come with the writers does. Of single code points: splitting what
a pair stands for gives the pair, and a code point beyond `0xFFFF` is what its two halves, a high
and a low one, stand for. No sum or difference leaves its type there. -/
theorem decoding_undoes_encoding :
    (∀ cps : List CodePoint, (∀ cp ∈ cps, cp.isValidChar) →
      (Cursor.start (encodeCodePoints cps)).items = cps.map .ok) ∧
      (∀ us : List CodeUnit, (∀ found, .error found ∉ (Cursor.start us).items) →
        ∃ cps : List CodePoint, (Cursor.start us).items = cps.map .ok ∧
          encodeCodePoints cps = us ∧ ∀ cp ∈ cps, cp.isValidChar) ∧
      (∀ us : List CodeUnit, decode us = .ofItems (Cursor.start us).items ∧
        ∀ cp, .ok cp ∈ (Cursor.start us).items → cp.isValidChar) ∧
      (∀ {σ : Type} (s : Sink σ) (form : Form) (us : List CodeUnit),
        s.writeUnits form us = (Cursor.start us).items.forM (s.writeItem form) ∧
          (s.KnowsCharacters → ∀ kept cp,
            (s.observe (.units us form) kept).result ≠ .error (.notScalar cp))) ∧
      ((∀ escapesUnicode limit, (Sink.characters escapesUnicode limit).KnowsCharacters) ∧
        (∀ charset w, (Sink.bytes charset w).KnowsCharacters) ∧
        (∀ escapesUnicode, (Sink.units escapesUnicode).KnowsCharacters) ∧
        ∀ escapesUnicode keepsPairs limit,
          (Sink.recorder escapesUnicode keepsPairs limit).KnowsCharacters) ∧
      (∀ lead trail : CodeUnit, lead.isHighSurrogate = true → trail.isLowSurrogate = true →
        Surrogate.split (Surrogate.combine lead trail) = (lead, trail) ∧
          (Checked.combine lead trail >>= Checked.split) = .ok (lead, trail)) ∧
      ∀ cp : CodePoint, 0x10000 ≤ cp → cp ≤ 0x10FFFF →
        (Surrogate.split cp).1.isHighSurrogate = true ∧
          (Surrogate.split cp).2.isLowSurrogate = true ∧
          Surrogate.combine (Surrogate.split cp).1 (Surrogate.split cp).2 = cp ∧
          (Checked.split cp >>= fun halves => Checked.combine halves.1 halves.2) = .ok cp := by
  refine ⟨?_, ?_, ?_, ?_, ?_, ?_, ?_⟩
  · intro cps valid
    exact Cursor.items_start_eq_iff.mpr ⟨valid, rfl⟩
  · intro us noFault
    obtain ⟨cps, read⟩ := exists_map_ok noFault
    obtain ⟨valid, same⟩ := Cursor.items_start_eq_iff.mp read
    exact ⟨cps, read, same.symm, valid⟩
  · intro us
    exact ⟨decodeFrom_rest (Cursor.start us), fun cp => Cursor.isValidChar_of_mem_items⟩
  · intro σ s form us
    exact ⟨s.writeUnits_eq_forM_items form us, fun knows kept cp =>
      Rendering.result_observe_units_ne knows us form kept cp⟩
  · exact ⟨Sink.knowsCharacters_characters, Sink.knowsCharacters_bytes,
      Sink.knowsCharacters_units, Sink.knowsCharacters_recorder⟩
  · intro lead trail high low
    obtain ⟨c, value, large, halves⟩ := CodePoint.exists_char_of_pair high low
    refine ⟨Surrogate.split_combine high low, ?_⟩
    rw [Checked.combine_eq high low, Checked.ok_bind, ← value, Checked.split_val large, halves]
  · intro cp least greatest
    have above : 0x10000 ≤ cp.toNat := UInt32.le_iff_toNat_le.mp least
    have below : cp.toNat < 0x110000 := Nat.lt_succ_of_le (UInt32.le_iff_toNat_le.mp greatest)
    have high := Surrogate.isHighSurrogate_split above below
    have low := Surrogate.isLowSurrogate_split above below
    have whole := Surrogate.combine_split above below
    refine ⟨high, low, whole, ?_⟩
    rw [Checked.split_eq above below, Checked.ok_bind, Checked.combine_eq high low, whole]

/-- The last code point of one unit and the first and the last of two. -/
theorem decoding_undoes_encoding_at_ends :
    let us : List CodeUnit := [0xFFFF, 0xD800, 0xDC00, 0xDBFF, 0xDFFF]
    (Cursor.start us).items = [.ok 0xFFFF, .ok 0x10000, .ok 0x10FFFF] ∧
      (∃ cps : List CodePoint, (Cursor.start us).items = cps.map .ok ∧
        encodeCodePoints cps = us ∧ ∀ cp ∈ cps, cp.isValidChar) ∧
      (((Sink.characters false (some 4)).observe (.units us .json) "").result ≠
        .error (.notScalar 0x10FFFF)) ∧
      Surrogate.split (Surrogate.combine 0xDBFF 0xDFFF) = (0xDBFF, 0xDFFF) ∧
      (Checked.split 0x10FFFF >>= fun halves => Checked.combine halves.1 halves.2) =
        .ok 0x10FFFF := by
  intro us
  obtain ⟨read, written, _, units, knows, pairs, codePoints⟩ := decoding_undoes_encoding
  have valid : ∀ cp ∈ ([0xFFFF, 0x10000, 0x10FFFF] : List CodePoint), cp.isValidChar :=
    forall_isValidChar_iff.mpr ⟨[.ofNat 0xFFFF, .ofNat 0x10000, .ofNat 0x10FFFF], rfl⟩
  have items := read [0xFFFF, 0x10000, 0x10FFFF] valid
  have encoded : encodeCodePoints [0xFFFF, 0x10000, 0x10FFFF] = us := rfl
  rw [encoded] at items
  refine ⟨items, written us ?_, ?_, (pairs 0xDBFF 0xDFFF rfl rfl).1, ?_⟩
  · rw [items]
    simp
  · exact (units _ .json us).2 (knows.1 false (some 4)) "" 0x10FFFF
  · exact (codePoints 0x10FFFF (by decide) (by decide)).2.2.2

end Utf16

end IonLiteral
