import IonLiteral.Proofs.Batching
import IonLiteral.Proofs.Scripts

/-! # Strings with a limit

A string with a limit refuses as a whole what would make it longer, so a body that is written in
runs is refused earlier than one that is written one character at a time. It is refused if and only
if the other is, since both come to the same length. What the string then holds is a beginning of
what the other holds, and that is a beginning of the whole body.
-/

namespace IonLiteral

/-! ## One operation -/

namespace Sink

/-- Adding to a string with a limit, as an equation. -/
theorem extendString_some (limit : Nat) (text held : String) :
    extendString (some limit) text held =
      if limit < held.utf8ByteSize + text.utf8ByteSize then .error .characterTarget held
      else .ok () (held ++ text) := by
  change (if decide (limit < held.utf8ByteSize + text.utf8ByteSize) = true then _ else _ :
    SinkM String Unit) held = _
  by_cases full : limit < held.utf8ByteSize + text.utf8ByteSize
  · rw [if_pos full, decide_eq_true full, if_pos rfl]
    rfl
  · rw [if_neg full, decide_eq_false full, if_neg Bool.false_ne_true]
    rfl

end Sink

/-- Every operation that is allowed adds something. -/
theorem Call.IsAllowed.chars_ne_nil {form : Form} {escapesUnicode : Bool} {call : Call}
    (allowed : call.IsAllowed form escapesUnicode) : call.chars ≠ [] := by
  cases call with
  | ascii text => exact allowed.1
  | char c => exact List.cons_ne_nil c []
  | pair lead trail =>
      obtain ⟨c, chars, _⟩ := exists_char_of_proper_pair allowed.2.1 allowed.2.2
      rw [chars]
      exact List.cons_ne_nil c []

/-! ## Many operations -/

/-- How operations with a text end on a string with a limit. If the text has room, or is nothing, it
is all there. If not, a beginning is. -/
inductive Fills (limit : Nat) (held whole : String) : EStateM.Result Fault String Unit → Prop
  | fits (room : whole = held ∨ whole.utf8ByteSize ≤ limit) : Fills limit held whole (.ok () whole)
  | full {kept : String} (more : whole ≠ held) (noRoom : limit < whole.utf8ByteSize)
      (beginning : kept.toList <+: whole.toList) :
      Fills limit held whole (.error .characterTarget kept)

/-- How operations end that are joined in part, next to those that are not. They end alike. If they
fail, those that are joined may leave less behind. -/
inductive EndAlike : EStateM.Result Fault String Unit → EStateM.Result Fault String Unit → Prop
  | taken (kept : String) : EndAlike (.ok () kept) (.ok () kept)
  | refused {less more : String} (beginning : less.toList <+: more.toList) :
      EndAlike (.error .characterTarget less) (.error .characterTarget more)

/-- Joined operations that are refused earlier leave still less. -/
theorem EndAlike.of_less {less held : String} {result : EStateM.Result Fault String Unit}
    (alike : EndAlike (.error .characterTarget held) result)
    (beginning : less.toList <+: held.toList) :
    EndAlike (.error .characterTarget less) result := by
  cases alike with
  | refused further => exact .refused (List.IsPrefix.trans beginning further)

namespace Fills

variable {limit : Nat} {held between whole : String} {result : EStateM.Result Fault String Unit}

/-- What has room does not change how the rest ends. -/
theorem of_room (rest : Fills limit between whole result)
    (room : between.utf8ByteSize ≤ limit) (grown : held.utf8ByteSize ≤ between.utf8ByteSize) :
    Fills limit held whole result := by
  cases rest with
  | fits whole =>
      refine .fits (.inr ?_)
      rcases whole with rfl | small
      · exact room
      · exact small
  | full more noRoom beginning =>
      refine .full ?_ noRoom beginning
      rintro rfl
      exact Nat.not_lt.mpr (Nat.le_trans grown room) noRoom

end Fills

section Bounded

variable {form : Form} {escapesUnicode : Bool} {limit : Nat}

/-- An operation with room for it is taken, and the others go on behind it. -/
theorem performAll_cons_of_room {call : Call} (proper : call.IsProper escapesUnicode)
    {held : String} (room : (held ++ String.ofList call.chars).utf8ByteSize ≤ limit)
    (calls : List Call) :
    (Sink.characters escapesUnicode (some limit)).performAll (call :: calls) held =
      (Sink.characters escapesUnicode (some limit)).performAll calls
        (held ++ String.ofList call.chars) := by
  rw [String.utf8ByteSize_append] at room
  have first := Sink.extendString_some limit (String.ofList call.chars) held
  rw [if_neg (Nat.not_lt.mpr room), ← Sink.perform_characters proper] at first
  rw [Sink.performAll_cons, SinkM.bind_of_ok first]

/-- An operation without room for it is refused, and nothing further is tried. -/
theorem performAll_cons_of_full {call : Call} (proper : call.IsProper escapesUnicode)
    {held : String} (full : ¬ (held ++ String.ofList call.chars).utf8ByteSize ≤ limit)
    (calls : List Call) :
    (Sink.characters escapesUnicode (some limit)).performAll (call :: calls) held =
      .error .characterTarget held := by
  rw [String.utf8ByteSize_append] at full
  have first := Sink.extendString_some limit (String.ofList call.chars) held
  rw [if_pos (Nat.lt_of_not_le full), ← Sink.perform_characters proper] at first
  rw [Sink.performAll_cons, SinkM.bind_of_error first]

/-- **Operations fill a string** up to the first that has no room. -/
theorem fills_performAll {calls : List Call}
    (allowed : ∀ call ∈ calls, call.IsAllowed form escapesUnicode) (held : String) :
    Fills limit held (held ++ String.ofList (calls.flatMap Call.chars))
      ((Sink.characters escapesUnicode (some limit)).performAll calls held) := by
  -- On the operations. Each makes the string longer, so where one has no room the string is a
  -- proper beginning of the whole.
  induction calls generalizing held with
  | nil =>
      rw [List.flatMap_nil, String.ofList_nil, String.append_empty]
      exact .fits (.inl rfl)
  | cons call calls ih =>
      obtain ⟨here, others⟩ := List.forall_mem_cons.mp allowed
      have whole : held ++ String.ofList ((call :: calls).flatMap Call.chars) =
          held ++ String.ofList call.chars ++ String.ofList (calls.flatMap Call.chars) := by
        rw [List.flatMap_cons, String.ofList_append, String.append_assoc]
      rw [whole]
      have grown : held.utf8ByteSize < (held ++ String.ofList call.chars).utf8ByteSize := by
        rw [String.utf8ByteSize_append]
        apply Nat.lt_add_of_pos_right
        rw [Nat.pos_iff_ne_zero, Ne, String.utf8ByteSize_eq_zero_iff]
        intro nothing
        have chars := congrArg String.toList nothing
        rw [String.toList_ofList] at chars
        exact here.chars_ne_nil chars
      by_cases room : (held ++ String.ofList call.chars).utf8ByteSize ≤ limit
      · rw [performAll_cons_of_room here.isProper room]
        exact (ih others _).of_room room (Nat.le_of_lt grown)
      · rw [performAll_cons_of_full here.isProper room]
        have longer := Nat.le_add_right (held ++ String.ofList call.chars).utf8ByteSize
          (String.ofList (calls.flatMap Call.chars)).utf8ByteSize
        rw [← String.utf8ByteSize_append] at longer
        refine .full ?_ (Nat.lt_of_lt_of_le (Nat.lt_of_not_le room) longer) ?_
        · intro same
          rw [same] at longer
          exact Nat.not_lt.mpr longer grown
        · rw [String.append_assoc, String.toList_append]
          exact List.prefix_append _ _

/-- **Joined operations end as single ones do.** -/
theorem endAlike_of_joinsTo {fine coarse : List Call} (joins : Call.JoinsTo fine coarse)
    (proper : ∀ call ∈ fine, call.IsProper escapesUnicode) (held : String) :
    EndAlike ((Sink.characters escapesUnicode (some limit)).performAll coarse held)
      ((Sink.characters escapesUnicode (some limit)).performAll fine held) := by
  -- On how the operations are joined. The two sides differ only where the first of two joined
  -- pieces has room and both together have none.
  induction joins generalizing held with
  | nil => exact .taken held
  | @cons call fine coarse rest ih =>
      obtain ⟨here, others⟩ := List.forall_mem_cons.mp proper
      by_cases room : (held ++ String.ofList call.chars).utf8ByteSize ≤ limit
      · rw [performAll_cons_of_room here room, performAll_cons_of_room here room]
        exact ih others _
      · rw [performAll_cons_of_full here room, performAll_cons_of_full here room]
        exact .refused List.prefix_rfl
  | @join text more fine coarse rest ih =>
      obtain ⟨here, others⟩ := List.forall_mem_cons.mp proper
      have next : (Call.ascii more).IsProper escapesUnicode := by
        have coarser := rest.forall_mem (fun _ _ first second =>
          List.forall_mem_append.mpr ⟨first, second⟩) others
        exact coarser _ List.mem_cons_self
      have both : (Call.ascii (text ++ more)).IsProper escapesUnicode :=
        List.forall_mem_append.mpr ⟨here, next⟩
      have together : held ++ String.ofList (Call.ascii (text ++ more)).chars =
          held ++ String.ofList text ++ String.ofList more := by
        rw [Call.chars, String.ofList_append, String.append_assoc]
      have longer := Nat.le_add_right (held ++ String.ofList text).utf8ByteSize
        (String.ofList more).utf8ByteSize
      rw [← String.utf8ByteSize_append] at longer
      have behind := ih others (held ++ String.ofList text)
      by_cases room : (held ++ String.ofList text ++ String.ofList more).utf8ByteSize ≤ limit
      · rw [performAll_cons_of_room next room] at behind
        rw [performAll_cons_of_room both (together ▸ room), together,
          performAll_cons_of_room here (Nat.le_trans longer room)]
        exact behind
      · rw [performAll_cons_of_full next room] at behind
        rw [performAll_cons_of_full both (together ▸ room)]
        -- The first piece by itself may still have room.
        by_cases roomFirst : (held ++ String.ofList text).utf8ByteSize ≤ limit
        · rw [performAll_cons_of_room here roomFirst]
          apply behind.of_less
          rw [String.toList_append]
          exact List.prefix_append _ _
        · rw [performAll_cons_of_full here roomFirst]
          exact .refused List.prefix_rfl

end Bounded

/-! ## Bodies -/

namespace Rendering

section Bounded

variable (limit : Nat) (escapesUnicode : Bool) (form : Form) (text : Text) (held : String)

/-- Operations on a bounded string end alike for a body and for its single characters. -/
theorem endAlike_body :
    EndAlike
      ((Sink.characters escapesUnicode (some limit)).performAll
        ((body text form).plan escapesUnicode).calls held)
      ((Sink.characters escapesUnicode (some limit)).performAll
        ((oneByOne form text).plan escapesUnicode).calls held) :=
  endAlike_of_joinsTo (joinsTo_plan_body escapesUnicode form text)
    (isProper_plan escapesUnicode (oneByOne form text)) held

/-- Single characters fill a bounded string up as far as they fit. -/
theorem fills_oneByOne :
    Fills limit held
      (held ++ String.ofList ((body text form).plan escapesUnicode).chars)
      ((Sink.characters escapesUnicode (some limit)).performAll
        ((oneByOne form text).plan escapesUnicode).calls held) := by
  rw [Script.chars, (joinsTo_plan_body escapesUnicode form text).flatMap_chars_eq]
  exact fills_performAll (isAllowed_plan escapesUnicode (oneByOne form text)) held

/-- What a rendering makes of a string with or without a limit. -/
def onString (limit : Option Nat) (rendering : Rendering) : Outcome String :=
  .ofResult (rendering.write (.characters escapesUnicode limit) held)

/-- What a string is left with by a rendering is what its plan leaves it with. -/
theorem onString_eq_run (limit : Option Nat) (rendering : Rendering) :
    onString escapesUnicode held limit rendering =
      .ofResult ((rendering.plan escapesUnicode).run (.characters escapesUnicode limit) held) := by
  rw [onString, write_eq_run_plan]
  rfl

/-- Without a limit, a string is left with the whole text of a body. -/
theorem kept_onString_none :
    (onString escapesUnicode held none (body text form)).kept =
      held ++ String.ofList ((body text form).plan escapesUnicode).chars :=
  congrArg Outcome.kept ((Sink.collects_characters escapesUnicode).write (body text form) held)

/-- There is room for all of a body, or for neither way of writing it. -/
theorem onString_cases :
    let whole := (onString escapesUnicode held none (body text form)).kept
    let batched := onString escapesUnicode held (some limit) (body text form)
    let single := onString escapesUnicode held (some limit) (oneByOne form text)
    (batched = ⟨text.ending, whole⟩ ∧ single = ⟨text.ending, whole⟩ ∧
        (whole = held ∨ whole.utf8ByteSize ≤ limit)) ∨
      ∃ less more : String,
        batched = ⟨.error .characterTarget, less⟩ ∧ single = ⟨.error .characterTarget, more⟩ ∧
          whole ≠ held ∧ limit < whole.utf8ByteSize ∧
          less.toList <+: more.toList ∧ more.toList <+: whole.toList := by
  intro whole batched single
  have fills := fills_oneByOne limit escapesUnicode form text held
  have alike := endAlike_body limit escapesUnicode form text held
  rw [← kept_onString_none] at fills
  have runBatched := onString_eq_run escapesUnicode held (some limit) (body text form)
  have runSingle := onString_eq_run escapesUnicode held (some limit) (oneByOne form text)
  generalize callsBatched : (Sink.characters escapesUnicode (some limit)).performAll
    ((body text form).plan escapesUnicode).calls held = first at alike
  generalize callsSingle : (Sink.characters escapesUnicode (some limit)).performAll
    ((oneByOne form text).plan escapesUnicode).calls held = second at alike fills
  cases alike with
  | taken kept =>
      rw [Sink.ofResult_run_of_ok callsBatched] at runBatched
      rw [Sink.ofResult_run_of_ok callsSingle, ending_plan_oneByOne] at runSingle
      cases fills with
      | fits room => exact .inl ⟨runBatched, runSingle, room⟩
  | @refused less more beginning =>
      rw [Sink.ofResult_run_of_error callsBatched] at runBatched
      rw [Sink.ofResult_run_of_error callsSingle] at runSingle
      cases fills with
      | full something noRoom further =>
          exact .inr ⟨less, more, runBatched, runSingle, something, noRoom, beginning, further⟩

end Bounded

/-- **Runs and single characters are refused alike.** On a string with a limit, whatever it holds, a
body that is written in runs and a body that is written one character at a time end alike: as the
text does, or refused by the string, which happens exactly if there is something to write and the
whole has no room. If they are not refused, the string holds the same after both. If they are, it
holds a beginning of what it holds after single characters, and that is a beginning of the whole. -/
theorem body_agrees_within_limit (limit : Nat) (escapesUnicode : Bool) (form : Form) (text : Text)
    (held : String) :
    let whole := (onString escapesUnicode held none (body text form)).kept
    let batched := onString escapesUnicode held (some limit) (body text form)
    let single := onString escapesUnicode held (some limit) (oneByOne form text)
    batched.result = single.result ∧
      (single.result = text.ending ∨ single.result = .error .characterTarget) ∧
      (single.result = .error .characterTarget ↔ whole ≠ held ∧ limit < whole.utf8ByteSize) ∧
      (single.result ≠ .error .characterTarget →
        batched.kept = single.kept ∧ single.kept = whole) ∧
      (single.result = .error .characterTarget →
        batched.kept.toList <+: single.kept.toList ∧ single.kept.toList <+: whole.toList) := by
  intro whole batched single
  have ownEnding : text.ending ≠ .error .characterTarget := by
    intro same
    have ends := text.isInputEnding_ending
    rw [same] at ends
    cases ends
  rcases onString_cases limit escapesUnicode form text held with
    ⟨runBatched, runSingle, room⟩ |
      ⟨less, more, runBatched, runSingle, something, noRoom, beginning, further⟩
  · have refused : ¬ (whole ≠ held ∧ limit < whole.utf8ByteSize) := by
      rintro ⟨something, noRoom⟩
      exact room.elim something (Nat.not_le.mpr noRoom)
    rw [show batched = _ from runBatched, show single = _ from runSingle]
    exact ⟨rfl, .inl rfl, iff_of_false ownEnding refused, fun _ => ⟨rfl, rfl⟩,
      fun same => absurd same ownEnding⟩
  · rw [show batched = _ from runBatched, show single = _ from runSingle]
    exact ⟨rfl, .inr rfl, iff_of_true rfl ⟨something, noRoom⟩, fun other => absurd rfl other,
      fun _ => ⟨beginning, further⟩⟩

/-- A run of four has no room where three single characters have. With more room and half a pair
behind it, both end at the half. -/
theorem body_agrees_within_limit_of_three :
    let text := Text.units [0x61, 0x62, 0x63, 0x64, 0xDC00]
    let batched limit := onString false "" (some limit) (body text .json)
    let single limit := onString false "" (some limit) (oneByOne .json text)
    batched 3 = ⟨.error .characterTarget, ""⟩ ∧ single 3 = ⟨.error .characterTarget, "abc"⟩ ∧
      (batched 3).kept.toList <+: (single 3).kept.toList ∧
      (single 4).result = .error (.unmatchedSurrogate ⟨.low, 0xDC00, 4⟩) ∧
      (batched 4).kept = (single 4).kept := by
  intro text batched single
  have refused : single 3 = ⟨.error .characterTarget, "abc"⟩ := rfl
  have ending : (single 4).result = .error (.unmatchedSurrogate ⟨.low, 0xDC00, 4⟩) := rfl
  obtain ⟨_, _, _, _, beginnings⟩ := body_agrees_within_limit 3 false .json text ""
  obtain ⟨_, _, _, kept, _⟩ := body_agrees_within_limit 4 false .json text ""
  refine ⟨rfl, refused, (beginnings (congrArg Outcome.result refused)).1, ending, (kept ?_).1⟩
  rw [show (onString false "" (some 4) (oneByOne .json text)).result = _ from ending]
  nofun

end Rendering

end IonLiteral
