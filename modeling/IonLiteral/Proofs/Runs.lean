import IonLiteral.Proofs.Blocks

/-! # Runs by index

A run of plain items starts at an index and ends where something stands that is not plain, or where
the text ends. Scans start with the run that the text starts with, so what a scan writes is the run
and then what a scan of the others writes. What a run consists of lies below DEL.
-/

namespace IonLiteral

/-! ## The end of a run -/

namespace Checked

variable {α : Type} {isPlain : α → Bool} {run others : List α}

/-- Where a run of plain items ends that starts at an index. -/
def runEnd {α : Type} (isPlain : α → Bool) (as : List α) (i : Nat) : Nat :=
  if inside : i < as.length then
    if isPlain as[i] then runEnd isPlain as (i + 1) else i
  else i
termination_by as.length - i

/-- A run of plain items that what follows does not lengthen. -/
structure IsRun (isPlain : α → Bool) (run others : List α) : Prop where
  plain : ∀ a ∈ run, isPlain a = true
  ends : ∀ a ∈ others.head?, isPlain a = false

/-- Every list begins with a run, which may be empty. -/
theorem exists_run (isPlain : α → Bool) (as : List α) :
    ∃ run others, as = run ++ others ∧ IsRun isPlain run others := by
  refine ⟨as.takeWhile isPlain, as.dropWhile isPlain, List.takeWhile_append_dropWhile.symm,
    List.all_eq_true.mp List.all_takeWhile, fun a member => ?_⟩
  have ends := List.head?_dropWhile_not isPlain as
  rwa [Option.mem_def.mp member] at ends

/-- **A run is walked to its end.** -/
theorem runEnd_of_isRun (found : IsRun isPlain run others) (before : List α) :
    runEnd isPlain (before ++ (run ++ others)) before.length = before.length + run.length := by
  induction run generalizing before with
  | nil =>
      rw [runEnd]
      cases others with
      | nil =>
          rw [List.append_nil, List.append_nil, dif_neg (Nat.lt_irrefl _)]
          rfl
      | cons a others =>
          have inside : before.length < (before ++ ([] ++ a :: others)).length := by
            simp only [List.nil_append, List.length_append, List.length_cons]
            omega
          have here : (before ++ ([] ++ a :: others))[before.length] = a :=
            List.getElem_of_append rfl rfl
          rw [dif_pos inside, here, found.ends a rfl, if_neg Bool.false_ne_true]
          rfl
  | cons a run ih =>
      obtain ⟨plain, further⟩ := List.forall_mem_cons.mp found.plain
      have inside : before.length < (before ++ (a :: run ++ others)).length := by
        simp only [List.cons_append, List.length_append, List.length_cons]
        omega
      have here : (before ++ (a :: run ++ others))[before.length] = a :=
        List.getElem_of_append rfl rfl
      have walked := ih ⟨further, found.ends⟩ (before ++ [a])
      rw [List.append_assoc, List.length_append] at walked
      rw [runEnd, dif_pos inside, here, if_pos plain]
      exact walked.trans (Nat.add_right_comm before.length 1 run.length)

end Checked

/-! ## What is plain -/

/-- Every character has units. -/
theorem Utf16.encodeChar_ne_nil (c : Char) : encodeChar c ≠ [] := by
  by_cases small : c.val < 0x10000
  · rw [encodeChar_small small]
    exact List.cons_ne_nil _ _
  · rw [encodeChar_large small]
    exact List.cons_ne_nil _ _

/-- A character is plain if its first unit is. -/
theorem Form.isPlainUnit_of_encodeChar (form : Form) {c : Char} {u : CodeUnit}
    {others more : List CodeUnit} (starts : u :: others = Utf16.encodeChar c ++ more) :
    form.isPlainUnit u = form.isPlainChar c := by
  by_cases small : c.val < 0x10000
  · rw [Utf16.encodeChar_small small] at starts
    cases starts
    exact form.isPlainUnit_toUInt16 small
  · obtain ⟨high, -⟩ := CodePoint.split_isPair small
    rw [Utf16.encodeChar_large small] at starts
    cases starts
    have half : CodeUnit.isSurrogate (Surrogate.split c.val).1 = true := by
      rw [CodeUnit.isSurrogate_eq, high, Bool.true_or]
    rw [form.isPlainUnit_of_isSurrogate half, form.isPlainChar_of_large small]

/-- The bytes of a character beyond ASCII all lie beyond ASCII. -/
theorem Utf8.large_of_mem_encodeChar {c : Char} (large : ¬ c.val < 0x80) {byte : UInt8}
    (member : byte ∈ String.utf8EncodeChar c) : ¬ byte < 0x80 := by
  have bound := CodePoint.toNat_lt c
  have above : ¬ c.val.toNat ≤ 0x7F := fun below =>
    large (UInt32.lt_iff_toNat_lt.mpr (Nat.lt_succ_of_le below))
  have beyond {n : Nat} (least : 0x80 ≤ n) (greatest : n < 0x100) : ¬ UInt8.ofNat n < 0x80 := by
    rw [UInt8.lt_iff_toNat_lt, UInt8.toNat_ofNat', Nat.mod_eq_of_lt greatest]
    exact Nat.not_lt.mpr least
  simp only [String.utf8EncodeChar, if_neg above] at member
  split at member
  · simp only [List.mem_cons, List.not_mem_nil, or_false] at member
    rcases member with rfl | rfl <;> exact beyond (by omega) (by omega)
  · split at member
    · simp only [List.mem_cons, List.not_mem_nil, or_false] at member
      rcases member with rfl | rfl | rfl <;> exact beyond (by omega) (by omega)
    · simp only [List.mem_cons, List.not_mem_nil, or_false] at member
      rcases member with rfl | rfl | rfl | rfl <;> exact beyond (by omega) (by omega)

namespace Form

/-- Numbers from DEL on all have an escape. -/
theorem below_delete (form : Form) {value : UInt8} (plain : form.needsEscape value = false) :
    value < 0x7F := by
  refine Classical.byContradiction fun large => ?_
  by_cases delete : value = 0x7F
  · rw [delete] at plain
    cases form <;> cases plain
  · have beyond : ¬ (Char.ofUInt8 value).val < 0x80 := by
      have other : value.toNat ≠ 0x7F := fun same => delete (UInt8.toNat_inj.mp same)
      have least : 0x7F ≤ value.toNat :=
        Nat.not_lt.mp fun below => large (UInt8.lt_iff_toNat_lt.mpr below)
      exact UInt32.lt_iff_toNat_lt.not.mpr (Nat.not_lt.mpr (Nat.lt_of_le_of_ne least other.symm))
    have needed := form.needsEscape_of_large (CodePoint.ofUInt8_latin value) beyond
    rw [CodePoint.toUInt8_ofUInt8, plain] at needed
    cases needed

/-- Plain units lie below DEL. -/
theorem below_delete_of_isPlainUnit {form : Form} {u : CodeUnit}
    (plain : form.isPlainUnit u = true) : u < 0x7F := by
  obtain ⟨latin, unescaped⟩ := Bool.and_eq_true_iff.mp plain
  have small : u.toNat < 0x100 := UInt16.lt_iff_toNat_lt.mp (of_decide_eq_true latin)
  have below := UInt8.lt_iff_toNat_lt.mp (form.below_delete ((Bool.not_eq_true' _).mp unescaped))
  rw [UInt16.toNat_toUInt8, Nat.mod_eq_of_lt small] at below
  exact UInt16.lt_iff_toNat_lt.mpr below

end Form

/-! ## Scans -/

namespace Piece

variable {α β : Type}

/-- A plain character lengthens a run, and the run that it starts if there is none behind it. -/
theorem consPlain_ofRun (c : Char) (text : List Char) {pieces : List (Piece β)}
    (ends : ∀ more, pieces.head? ≠ some (.run more)) :
    consPlain c (ofRun text ++ pieces) = ofRun (c :: text) ++ pieces := by
  cases text with
  | cons d text => rfl
  | nil =>
      cases pieces with
      | nil => rfl
      | cons piece pieces =>
          cases piece with
          | run more => exact absurd rfl (ends more)
          | special found => rfl

/-- **A scan starts with the run** that the list starts with. -/
theorem scan_append {toChar : α → Char} {special? : α → Option β} {run others : List α}
    (found : Checked.IsRun (fun a => (special? a).isNone) run others) :
    scan toChar special? (run ++ others) =
      ofRun (run.map toChar) ++ scan toChar special? others := by
  have ends (more : List Char) : (scan toChar special? others).head? ≠ some (.run more) := by
    intro starts
    cases others with
    | nil => cases starts
    | cons a others =>
        obtain ⟨found, special⟩ := Option.isSome_iff_exists.mp
          (Option.isNone_eq_false_iff.mp (found.ends a rfl))
        rw [scan_cons, special] at starts
        cases starts
  obtain ⟨plain, -⟩ := found
  induction run with
  | nil => rfl
  | cons a run ih =>
      obtain ⟨here, further⟩ := List.forall_mem_cons.mp plain
      rw [List.cons_append, scan_cons, Option.isNone_iff_eq_none.mp here, ih further]
      exact consPlain_ofRun (toChar a) _ ends

end Piece

/-- **A scan of units starts with the run** that the units start with. -/
theorem scanUnitsFrom_append {form : Form} {run others : List CodeUnit}
    (found : Checked.IsRun form.isPlainUnit run others) (index : Nat) :
    scanUnitsFrom form index (run ++ others) =
      { scanUnitsFrom form (index + run.length) others with
        pieces := Piece.ofRun (run.map fun u => Char.ofUInt8 u.toUInt8) ++
          (scanUnitsFrom form (index + run.length) others).pieces } := by
  -- Behind the run comes a special piece or a refusal, so the scan there does not start with a run
  -- that would have to be joined.
  have ends (index : Nat) (more : List Char) :
      (scanUnitsFrom form index others).pieces.head? ≠ some (.run more) := by
    intro starts
    cases others with
    | nil => cases starts
    | cons u others =>
        rw [scanUnitsFrom.eq_def] at starts
        simp only [found.ends u rfl, Bool.false_eq_true, if_false] at starts
        split at starts
        · split at starts
          · cases starts
          · split at starts <;> cases starts
        · split at starts <;> cases starts
  obtain ⟨plain, -⟩ := found
  induction run generalizing index with
  | nil => rfl
  | cons u run ih =>
      obtain ⟨here, further⟩ := List.forall_mem_cons.mp plain
      rw [List.cons_append, scanUnitsFrom.eq_def]
      simp only [here, if_true, ih (index + 1) further, Scan.consPlain]
      rw [Piece.consPlain_ofRun _ _ (ends _), List.length_cons, Nat.add_assoc, Nat.add_comm 1]
      rfl

namespace Sink

variable {σ α : Type}

/-- Put a run, unless it is empty. -/
def putRun (s : Sink σ) (text : List Char) : SinkM σ Unit :=
  if text.isEmpty then pure () else s.putAscii text

/-- A run in front of other pieces is put first. -/
theorem putPiece_append (s : Sink σ) (putFound : α → SinkM σ Unit) (text : List Char)
    (pieces : List (Piece α)) :
    (Piece.ofRun text ++ pieces).forM (s.putPiece putFound) = (do
      s.putRun text
      pieces.forM (s.putPiece putFound)) := by
  cases text <;> rfl

/-- A run of characters is put in one operation, and the scan goes on behind it. -/
theorem putPieces_scanChars_append (s : Sink σ) {form : Form} {run others : List Char}
    (found : Checked.IsRun form.isPlainChar run others) :
    s.putPieces form (scanChars form (run ++ others)) = (do
      s.putRun run
      s.putPieces form (scanChars form others)) := by
  have agrees : (fun c => (form.special? c).isNone) = form.isPlainChar :=
    funext fun c => (form.isNone_special? c).trans (form.isUnescaped_eq c)
  rw [← agrees] at found
  rw [scanChars_eq_scan, Piece.scan_append found, ← scanChars_eq_scan, List.map_id]
  exact s.putPiece_append (s.putSpecial form) run (scanChars form others)

/-- Put the pieces of a scan, and break off where it does. -/
def putScan (s : Sink σ) (form : Form) (scan : Scan) : SinkM σ Unit := do
  s.putPieces form scan.pieces
  stopAt scan.unmatched

/-- A run of units is put in one operation, and the scan goes on behind it. -/
theorem putScan_append (s : Sink σ) {form : Form} {run others : List CodeUnit}
    (found : Checked.IsRun form.isPlainUnit run others) (index : Nat) :
    s.putScan form (scanUnitsFrom form index (run ++ others)) = (do
      s.putRun (run.map fun u => Char.ofUInt8 u.toUInt8)
      s.putScan form (scanUnitsFrom form (index + run.length) others)) := by
  rw [scanUnitsFrom_append found, putScan, putPieces, putPiece_append, bind_assoc]
  rfl

/-- A run of bytes is put in one operation, and the scan goes on behind it. -/
theorem putPieces_scanBytes_append (s : Sink σ) {form : Form} {run others : List UInt8}
    (found : Checked.IsRun (fun byte => !form.needsEscape byte) run others) :
    (scanBytes form (run ++ others)).forM (s.putPiece s.putEscape) = (do
      s.putRun (run.map Char.ofUInt8)
      (scanBytes form others).forM (s.putPiece s.putEscape)) := by
  have agrees : (fun byte => !form.needsEscape byte) = fun byte => (form.escape? byte).isNone :=
    funext fun byte => Option.not_isSome _
  rw [agrees] at found
  rw [scanBytes_eq_scan, Piece.scan_append found, ← scanBytes_eq_scan]
  exact s.putPiece_append s.putEscape _ (scanBytes form others)

end Sink

end IonLiteral
