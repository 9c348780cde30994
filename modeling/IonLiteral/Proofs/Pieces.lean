import IonLiteral.Proofs.Spelling

/-! # Pieces and single characters

A scan of code units finds the pieces of the characters that the units decode to, up to the first
unmatched surrogate. Once neighbouring ASCII is joined, the operations for the pieces of a text are
the operations for its characters, one after the other.
-/

namespace IonLiteral

/-! ## Runs -/

namespace Piece

variable {α β : Type}

/-- The operations for a piece. -/
def calls (callsOf : β → List Call) : Piece β → List Call
  | run text => [.ascii text]
  | special found => callsOf found

/-- The pieces of things of which some are special and the others stand for one character each. -/
def scan (toChar : α → Char) (special? : α → Option β) (as : List α) : List (Piece β) :=
  as.foldr (fun a pieces =>
    match special? a with
    | none => consPlain (toChar a) pieces
    | some found => .special found :: pieces) []

theorem scan_cons (toChar : α → Char) (special? : α → Option β) (a : α) (as : List α) :
    scan toChar special? (a :: as) =
      match special? a with
      | none => consPlain (toChar a) (scan toChar special? as)
      | some found => .special found :: scan toChar special? as := rfl

/-- The operations for such a thing by itself. -/
def single (toChar : α → Char) (special? : α → Option β) (callsOf : β → List Call) (a : α) :
    List Call :=
  match special? a with
  | none => [.ascii [toChar a]]
  | some found => callsOf found

/-- A plain character starts a run of its own or is joined to the run behind it. -/
theorem joinsTo_consPlain {callsOf : β → List Call} {fine : List Call} {pieces : List (Piece β)}
    (joins : Call.JoinsTo fine (pieces.flatMap (calls callsOf))) (c : Char) :
    Call.JoinsTo (.ascii [c] :: fine) ((consPlain c pieces).flatMap (calls callsOf)) := by
  cases pieces with
  | nil => exact .cons (.ascii [c]) joins
  | cons piece pieces =>
      cases piece with
      | special found => exact .cons (.ascii [c]) joins
      | run text => exact .join [c] joins

/-- **Batches are single ones joined.** -/
theorem joinsTo_scan (toChar : α → Char) (special? : α → Option β) (callsOf : β → List Call)
    (as : List α) :
    Call.JoinsTo (as.flatMap (single toChar special? callsOf))
      ((scan toChar special? as).flatMap (calls callsOf)) := by
  induction as with
  | nil => exact .nil
  | cons a as ih =>
      rw [List.flatMap_cons, scan_cons, single]
      cases special? a with
      | none => exact joinsTo_consPlain ih (toChar a)
      | some found => exact ih.append_left (callsOf found)

/-- A plain character in front adds nothing special. -/
theorem special_mem_consPlain {c : Char} {found : β} {pieces : List (Piece β)}
    (member : special found ∈ consPlain c pieces) : special found ∈ pieces := by
  cases pieces with
  | nil => cases List.mem_singleton.mp member
  | cons piece pieces =>
      cases piece with
      | special other =>
          rcases List.mem_cons.mp member with same | member
          · cases same
          · exact member
      | run text =>
          rcases List.mem_cons.mp member with same | member
          · cases same
          · exact List.mem_cons_of_mem _ member

/-- What is special in a scan comes from what was scanned. -/
theorem special_mem_scan {toChar : α → Char} {special? : α → Option β} {found : β} {as : List α}
    (member : special found ∈ scan toChar special? as) : ∃ a ∈ as, special? a = some found := by
  induction as with
  | nil => cases member
  | cons a as ih =>
      have further (behind : special found ∈ scan toChar special? as) :
          ∃ b ∈ a :: as, special? b = some found := by
        obtain ⟨b, among, same⟩ := ih behind
        exact ⟨b, List.mem_cons_of_mem a among, same⟩
      rw [scan_cons] at member
      cases here : special? a with
      | none =>
          rw [here] at member
          exact further (special_mem_consPlain member)
      | some other =>
          rw [here] at member
          rcases List.mem_cons.mp member with same | behind
          · cases same
            exact ⟨a, List.mem_cons_self, here⟩
          · exact further behind

end Piece

/-! ## Characters -/

namespace Form

/-- Bytes beyond ASCII are never plain. -/
theorem needsEscape_of_large (form : Form) {c : Char} (latin : c.val < 0x100)
    (large : ¬ c.val < 0x80) : form.needsEscape c.val.toUInt8 = true := by
  obtain ⟨escape, number⟩ := Spelling.byNumber_of_latin form latin
  have above : 0x80 ≤ c.val := UInt32.not_lt.mp large
  unfold needsEscape
  rw [Spelling.tabled_of_latin latin]
  unfold Spelling.tabled
  rw [Spelling.letter?_eq_none above]
  simp only [above, number, decide_true, Bool.or_true, ↓reduceIte, List.head?_cons,
    Option.isSome_some]

/-- Plain is every number below `0x100` without an escape: from `0x80` up all have one. -/
theorem isPlainChar_eq (form : Form) (c : Char) :
    form.isPlainChar c = (c.val < 0x100 && !form.needsEscape c.val.toUInt8) := by
  rw [isPlainChar]
  by_cases latin : c.val < 0x100
  · by_cases ascii : c.val < 0x80
    · rw [decide_eq_true latin, decide_eq_true ascii]
    · rw [needsEscape_of_large form latin ascii, Bool.not_true, Bool.and_false, Bool.and_false]
  · have large : ¬ c.val < 0x80 := fun ascii => latin (UInt32.lt_trans ascii (by decide))
    rw [decide_eq_false latin, decide_eq_false large]

/-- A character and its unit are plain alike. -/
theorem isPlainUnit_toUInt16 (form : Form) {c : Char} (small : c.val < 0x10000) :
    form.isPlainUnit c.val.toUInt16 = form.isPlainChar c := by
  have latinUnit : c.val.toUInt16 < 0x100 ↔ c.val < 0x100 :=
    CodePoint.toUInt16_lt_iff small (by decide)
  rw [isPlainUnit, isPlainChar_eq, UInt32.toUInt8_toUInt16, decide_eq_decide.mpr latinUnit]

/-- Surrogates are never plain. -/
theorem isPlainUnit_of_isSurrogate (form : Form) {u : CodeUnit} (surrogate : u.isSurrogate = true) :
    form.isPlainUnit u = false := by
  have within := CodeUnit.isSurrogate_iff.mp surrogate
  have large : ¬ u < 0x100 := fun latin => by
    have bound : u.toNat < 0x100 := UInt16.lt_iff_toNat_lt.mp latin
    omega
  unfold isPlainUnit
  rw [decide_eq_false large, Bool.false_and]

theorem isPlainChar_of_large (form : Form) {c : Char} (large : ¬ c.val < 0x10000) :
    form.isPlainChar c = false := by
  have beyond : ¬ c.val < 0x80 := fun ascii => large (UInt32.lt_trans ascii (by decide))
  unfold isPlainChar
  rw [decide_eq_false beyond, Bool.false_and]

end Form

theorem scanChars_cons (form : Form) (c : Char) (cs : List Char) :
    scanChars form (c :: cs) =
      if form.isPlainChar c then Piece.consPlain c (scanChars form cs)
      else .special (.ofChar c) :: scanChars form cs := rfl

/-- What a character is to a scan unless it is plain. -/
def Form.special? (form : Form) (c : Char) : Option Special :=
  if form.isPlainChar c then none else some (.ofChar c)

theorem scanChars_eq_scan (form : Form) (cs : List Char) :
    scanChars form cs = Piece.scan id form.special? cs := by
  induction cs with
  | nil => rfl
  | cons c cs ih =>
      rw [scanChars_cons, Piece.scan_cons, ih, Form.special?]
      by_cases plain : form.isPlainChar c = true
      · rw [if_pos plain, if_pos plain]
        rfl
      · rw [if_neg plain, if_neg plain]

/-- A character is special exactly if it is not plain. -/
theorem Form.special?_eq_some_iff {form : Form} {c : Char} {special : Special} :
    form.special? c = some special ↔ form.isPlainChar c = false ∧ special = .ofChar c := by
  rw [special?, ← Bool.not_eq_true]
  split
  · rename_i plain
    exact iff_of_false nofun fun both => both.1 plain
  · rename_i notPlain
    exact Option.some_inj.trans ⟨fun same => ⟨notPlain, same.symm⟩, fun both => both.2.symm⟩

/-- The operations for a character that is not plain. -/
def Special.calls (form : Form) (escapesUnicode : Bool) (special : Special) : List Call :=
  match special.spelling form escapesUnicode with
  | .escaped escapes => escapes.map fun escape => .ascii escape.text
  | .itself => special.verbatim

/-- A character that ends a run is given its own operations. -/
theorem Special.calls_ofChar {form : Form} {c : Char} (special : form.isPlainChar c = false)
    (escapesUnicode : Bool) :
    (ofChar c).calls form escapesUnicode = form.charCalls escapesUnicode c := by
  unfold calls Form.charCalls
  rw [spelling_ofChar]
  cases spelling : Spelling.ofChar form escapesUnicode c with
  | escaped escapes => rfl
  | itself =>
      have large := Spelling.large_of_itself special spelling
      exact verbatim_ofChar large

/-- The operations for the pieces of characters. -/
def Form.bodyCalls (form : Form) (escapesUnicode : Bool) (cs : List Char) : List Call :=
  (scanChars form cs).flatMap (Piece.calls (Special.calls form escapesUnicode))

/-- A character is given the same operations in a scan as by itself. -/
theorem Form.single_special? (form : Form) (escapesUnicode : Bool) (c : Char) :
    Piece.single id form.special? (Special.calls form escapesUnicode) c =
      form.charCalls escapesUnicode c := by
  rw [Piece.single]
  cases found : form.special? c with
  | some special =>
      obtain ⟨notPlain, rfl⟩ := special?_eq_some_iff.mp found
      exact Special.calls_ofChar notPlain escapesUnicode
  | none =>
      have plain : form.isPlainChar c = true := by
        rw [special?] at found
        split at found
        · assumption
        · cases found
      exact (charCalls_of_plain plain escapesUnicode).symm

/-- **Batches are characters joined.** The operations for the pieces of a text differ from those for
its characters only in how ASCII is cut. -/
theorem Form.joinsTo_bodyCalls (form : Form) (escapesUnicode : Bool) (cs : List Char) :
    Call.JoinsTo (cs.flatMap (form.charCalls escapesUnicode))
      (form.bodyCalls escapesUnicode cs) := by
  have joins := Piece.joinsTo_scan id form.special? (Special.calls form escapesUnicode) cs
  rw [funext (form.single_special? escapesUnicode), ← scanChars_eq_scan] at joins
  exact joins

/-- The operations of a body are allowed. -/
theorem Form.isAllowed_bodyCalls (form : Form) (escapesUnicode : Bool) (cs : List Char) :
    ∀ call ∈ form.bodyCalls escapesUnicode cs, call.IsAllowed form escapesUnicode := by
  apply (form.joinsTo_bodyCalls escapesUnicode cs).forall_mem fun _ _ => Call.IsAllowed.append
  intro call member
  obtain ⟨c, _, among⟩ := List.mem_flatMap.mp member
  exact form.isAllowed_charCalls escapesUnicode c call among

/-- Putting the pieces of characters is carrying out their operations. -/
theorem Sink.putPieces_scanChars {σ : Type} (s : Sink σ) (form : Form) (cs : List Char) :
    s.putPieces form (scanChars form cs) = s.performAll (form.bodyCalls s.escapesUnicode cs) := by
  have specials : ∀ special, .special special ∈ scanChars form cs →
      s.putSpecial form special = s.performAll (special.calls form s.escapesUnicode) := by
    intro special member
    rw [scanChars_eq_scan] at member
    obtain ⟨c, _, found⟩ := Piece.special_mem_scan member
    obtain ⟨notPlain, rfl⟩ := Form.special?_eq_some_iff.mp found
    rw [s.putSpecial_ofChar notPlain, Special.calls_ofChar notPlain]
  unfold Form.bodyCalls putPieces
  generalize scanChars form cs = pieces at specials
  induction pieces with
  | nil => rfl
  | cons piece pieces ih =>
      have rest := ih fun special member => specials special (List.mem_cons_of_mem _ member)
      rw [List.flatMap_cons, performAll_append, ← rest]
      change (do s.putPiece (s.putSpecial form) piece; _) = _
      cases piece with
      | run text => rw [Piece.calls, performAll_singleton]; rfl
      | special special => rw [Piece.calls, ← specials special List.mem_cons_self]; rfl

/-! ## Bytes -/

/-- A byte is given the same operations in a scan as its character by itself. -/
theorem Form.single_escape? (form : Form) (byte : UInt8) :
    Piece.single Char.ofUInt8 form.escape? (fun escape => [.ascii escape.text]) byte =
      form.charCalls true (Char.ofUInt8 byte) := by
  have latin := CodePoint.ofUInt8_latin byte
  rw [Piece.single, charCalls, Spelling.ofChar_of_latin latin, ← Spelling.escape?_eq_tabled]
  cases entry : form.escape? byte with
  | some escape =>
      rw [Bool.or_true]
      rfl
  | none =>
      have ascii : (Char.ofUInt8 byte).val < 0x80 := by
        refine Classical.byContradiction fun large => ?_
        have needed := form.needsEscape_of_large latin large
        unfold needsEscape at needed
        rw [Spelling.tabled_of_latin latin, ← Spelling.escape?_eq_tabled, entry] at needed
        cases needed
      change _ = [Call.ofChar _]
      rw [Call.ofChar, if_pos ascii]

theorem scanBytes_eq_scan (form : Form) (bytes : List UInt8) :
    scanBytes form bytes = Piece.scan Char.ofUInt8 form.escape? bytes := by
  induction bytes with
  | nil => rfl
  | cons byte bytes ih =>
      rw [Piece.scan_cons, ← ih]
      cases entry : form.escape? byte <;> simp only [scanBytes, List.foldr_cons, entry]

/-- The operations for the pieces of bytes. -/
def Form.byteCalls (form : Form) (bytes : List UInt8) : List Call :=
  (scanBytes form bytes).flatMap (Piece.calls fun escape => [.ascii escape.text])

/-- **Bytes are written as characters that a sink cannot hold.** Batching aside, a clob is written
as the characters with the numbers of its bytes are written for a sink that escapes. -/
theorem Form.joinsTo_byteCalls (form : Form) (bytes : List UInt8) :
    Call.JoinsTo ((bytes.map Char.ofUInt8).flatMap (form.charCalls true))
      (form.byteCalls bytes) := by
  have joins :=
    Piece.joinsTo_scan Char.ofUInt8 form.escape? (fun escape => [.ascii escape.text]) bytes
  rw [funext form.single_escape?, ← List.flatMap_map, ← scanBytes_eq_scan] at joins
  exact joins

theorem Form.isAllowed_byteCalls (form : Form) (bytes : List UInt8) (escapesUnicode : Bool) :
    ∀ call ∈ form.byteCalls bytes, call.IsAllowed form escapesUnicode := by
  apply (form.joinsTo_byteCalls bytes).forall_mem fun _ _ => Call.IsAllowed.append
  intro call member
  obtain ⟨c, _, among⟩ := List.mem_flatMap.mp member
  exact (form.isAllowed_charCalls true c call among).of_escaping

/-! ## Code units -/

/-- The scan of units looks at one character after the other. -/
theorem scanUnitsFrom_encodeChar (form : Form) (index : Nat) (c : Char) (us : List CodeUnit) :
    scanUnitsFrom form index (Utf16.encodeChar c ++ us) =
      let rest := scanUnitsFrom form (index + (Utf16.encodeChar c).length) us
      if form.isPlainChar c then rest.consPlain c else rest.consSpecial (.ofChar c) := by
  unfold Special.ofChar
  by_cases small : c.val < 0x10000
  · have noHalf := CodePoint.noHalf_toUInt16 small
    rw [Utf16.encodeChar_small small, List.singleton_append, scanUnitsFrom.eq_def]
    simp only [form.isPlainUnit_toUInt16 small, noHalf.1, noHalf.2, Bool.false_eq_true, if_false,
      if_pos small, UInt32.toUInt8_toUInt16]
    split
    · rename_i plain
      have ascii : c.val < 0x80 := of_decide_eq_true (Bool.and_eq_true_iff.mp plain).1
      rw [CodePoint.ofUInt8_toUInt8 (UInt32.lt_trans ascii (by decide))]
      rfl
    · rfl
  · obtain ⟨high, low, _⟩ := CodePoint.split_isPair small
    have half : CodeUnit.isSurrogate (Surrogate.split c.val).1 = true := by
      rw [CodeUnit.isSurrogate_eq, high, Bool.true_or]
    rw [Utf16.encodeChar_large small, List.cons_append, List.singleton_append,
      scanUnitsFrom.eq_def]
    simp only [form.isPlainUnit_of_isSurrogate half, form.isPlainChar_of_large small, high, low,
      Bool.false_eq_true, if_false, if_true, if_neg small]
    rfl

/-- The scan of units stops at a surrogate without its partner. -/
theorem scanUnitsFrom_unpaired (form : Form) (index : Nat) {half : Half} {u : CodeUnit}
    {rest : List CodeUnit} (unpaired : Utf16.Unpaired half u rest) :
    scanUnitsFrom form index (u :: rest) = .stopped half u index := by
  rw [scanUnitsFrom.eq_def]
  simp only [form.isPlainUnit_of_isSurrogate unpaired.isSurrogate, Bool.false_eq_true, if_false]
  cases unpaired with
  | high high alone =>
      simp only [high, if_true]
      cases rest with
      | nil => rfl
      | cons trail rest => simp only [alone trail rfl, Bool.false_eq_true, if_false]
  | low low =>
      have notHigh := CodeUnit.isHighSurrogate_of_isLowSurrogate low
      simp only [notHigh, low, Bool.false_eq_true, if_false, if_true]

/-- **Units are scanned as their characters.** The pieces of code units are those of the characters
before the first unmatched surrogate, at which both the scan and the decoding stop. -/
theorem scanUnitsFrom_eq (form : Form) (index : Nat) (us : List CodeUnit) :
    scanUnitsFrom form index us =
      ⟨scanChars form (Utf16.decodeFrom index us).chars,
        (Utf16.decodeFrom index us).unmatched⟩ := by
  induction us using Utf16.induction_on_characters generalizing index with
  | nil => rfl
  | char c rest ih =>
      rw [scanUnitsFrom_encodeChar, Utf16.decodeFrom_encodeChar, Utf16.Decoded.chars_cons,
        scanChars_cons, ih]
      split <;> rfl
  | unpaired half u rest unpaired =>
      rw [scanUnitsFrom_unpaired form index unpaired, Utf16.decodeFrom_unpaired index unpaired]
      rfl

end IonLiteral
