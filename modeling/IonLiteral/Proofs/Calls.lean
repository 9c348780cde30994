import IonLiteral.Sink.Recorder

/-! # Operations in order

What a list of operations does to a sink is made of what its parts do, and a script can be put
together the same way. Joining neighbouring pieces of ASCII changes how many operations there are,
but never the text that they add.
-/

namespace IonLiteral

namespace SinkM

variable {σ α β : Type}

/-- Where the first action succeeds, the second goes on from there. -/
theorem bind_of_ok {first : SinkM σ α} {next : α → SinkM σ β} {before after : σ} {a : α}
    (ok : first before = .ok a after) : (first >>= next) before = next a after := by
  change EStateM.bind first next before = next a after
  simp only [EStateM.bind, ok]

/-- Where the first action fails, the second is not carried out. -/
theorem bind_of_error {first : SinkM σ α} {next : α → SinkM σ β} {before after : σ} {fault : Fault}
    (error : first before = .error fault after) : (first >>= next) before = .error fault after := by
  change EStateM.bind first next before = .error fault after
  simp only [EStateM.bind, error]

end SinkM

namespace Sink

variable {σ : Type}

@[simp]
theorem performAll_nil (s : Sink σ) : s.performAll [] = pure () := rfl

theorem performAll_cons (s : Sink σ) (call : Call) (calls : List Call) :
    s.performAll (call :: calls) = (do s.perform call; s.performAll calls) := rfl

theorem performAll_singleton (s : Sink σ) (call : Call) : s.performAll [call] = s.perform call := by
  rw [performAll_cons, performAll_nil]
  exact bind_pure (s.perform call)

/-- Operations are carried out list by list. -/
theorem performAll_append (s : Sink σ) (calls more : List Call) :
    s.performAll (calls ++ more) = (do s.performAll calls; s.performAll more) :=
  List.forM_append

theorem performAll_flatMap {α : Type} (s : Sink σ) (callsOf : α → List Call) (as : List α) :
    s.performAll (as.flatMap callsOf) = as.forM fun a => s.performAll (callsOf a) := by
  induction as with
  | nil => rfl
  | cons a as ih => rw [List.flatMap_cons, performAll_append, ih]; rfl

end Sink

namespace Script

variable {σ : Type}

/-- Operations that end well. -/
def ofCalls (calls : List Call) : Script := ⟨calls, .ok ()⟩

/-- One script after another. A fault at the end of the first keeps the second from starting. -/
def andThen (first second : Script) : Script :=
  match first.ending with
  | .ok _ => ⟨first.calls ++ second.calls, second.ending⟩
  | .error _ => first

@[simp]
theorem run_ofCalls (s : Sink σ) (calls : List Call) :
    (ofCalls calls).run s = s.performAll calls :=
  bind_pure (s.performAll calls)

/-- Scripts are carried out one after the other. -/
theorem run_andThen (s : Sink σ) (first second : Script) :
    (first.andThen second).run s = (do first.run s; second.run s) := by
  obtain ⟨calls, ending⟩ := first
  cases ending with
  | ok _ => simp only [andThen, run, Sink.performAll_append, bind_assoc, pure_bind]
  | error fault =>
      change (do s.performAll calls; throw fault) =
        (do (do s.performAll calls; throw fault : SinkM σ Unit); second.run s)
      rw [bind_assoc]
      rfl

end Script

namespace Call

theorem consMerged_ascii_ascii (text more : List Char) (calls : List Call) :
    consMerged (.ascii text) (consMerged (.ascii more) calls) =
      consMerged (.ascii (text ++ more)) calls := by
  cases calls with
  | nil => rfl
  | cons next calls =>
      cases next with
      | ascii last => simp only [consMerged, List.append_assoc]
      | char c => rfl
      | pair lead trail => rfl

theorem merged_cons (call : Call) (calls : List Call) :
    merged (call :: calls) = consMerged call (merged calls) := rfl

/-! ### Joining by degrees -/

/-- Operations that come of others by putting pieces of ASCII in one that were put one after the
other. Pieces that are neighbours still need not be joined. -/
inductive JoinsTo : List Call → List Call → Prop
  | nil : JoinsTo [] []
  | cons (call : Call) {fine coarse : List Call} (rest : JoinsTo fine coarse) :
      JoinsTo (call :: fine) (call :: coarse)
  | join (text : List Char) {more : List Char} {fine coarse : List Call}
      (rest : JoinsTo fine (ascii more :: coarse)) :
      JoinsTo (ascii text :: fine) (ascii (text ++ more) :: coarse)

namespace JoinsTo

variable {fine coarse : List Call}

theorem append_left (joins : JoinsTo fine coarse) (calls : List Call) :
    JoinsTo (calls ++ fine) (calls ++ coarse) := by
  induction calls with
  | nil => exact joins
  | cons call calls ih => exact .cons call ih

/-- Joining goes on within both parts of a list. -/
theorem append {more joined : List Call} (joins : JoinsTo fine coarse)
    (behind : JoinsTo more joined) : JoinsTo (fine ++ more) (coarse ++ joined) := by
  induction joins with
  | nil => exact behind
  | cons call rest ih => exact .cons call ih
  | join text rest ih => exact .join text ih

/-- An operation in front may be joined to the next. -/
theorem consMerged (joins : JoinsTo fine coarse) (call : Call) :
    JoinsTo (call :: fine) (call.consMerged coarse) := by
  cases call with
  | char c => exact .cons (char c) joins
  | pair lead trail => exact .cons (pair lead trail) joins
  | ascii text =>
      cases joins with
      | nil => exact .cons (ascii text) .nil
      | join more rest => exact .join text (.join more rest)
      | cons next rest =>
          cases next with
          | ascii more => exact .join text (.cons (ascii more) rest)
          | char c => exact .cons (ascii text) (.cons (char c) rest)
          | pair lead trail => exact .cons (ascii text) (.cons (pair lead trail) rest)

/-- Operations that are joined in part come to the same when all are joined. -/
theorem merged_eq (joins : JoinsTo fine coarse) : merged coarse = merged fine := by
  induction joins with
  | nil => rfl
  | cons call rest ih => rw [merged_cons, merged_cons, ih]
  | join text rest ih => rw [merged_cons, merged_cons, ← consMerged_ascii_ascii, ← ih, merged_cons]

/-- **Joining changes no text.** -/
theorem flatMap_chars_eq (joins : JoinsTo fine coarse) :
    coarse.flatMap chars = fine.flatMap chars := by
  induction joins with
  | nil => rfl
  | cons call rest ih => rw [List.flatMap_cons, List.flatMap_cons, ih]
  | join text rest ih =>
      rw [List.flatMap_cons, List.flatMap_cons, ← ih, List.flatMap_cons]
      exact List.append_assoc ..

/-- What holds of all operations holds of the joined ones, if it holds of pieces of ASCII in one
when it holds of each. -/
theorem forall_mem {P : Call → Prop} (joins : JoinsTo fine coarse)
    (together : ∀ text more, P (ascii text) → P (ascii more) → P (ascii (text ++ more)))
    (each : ∀ call ∈ fine, P call) : ∀ call ∈ coarse, P call := by
  induction joins with
  | nil => exact each
  | cons call rest ih =>
      obtain ⟨here, others⟩ := List.forall_mem_cons.mp each
      exact List.forall_mem_cons.mpr ⟨here, ih others⟩
  | join text rest ih =>
      obtain ⟨here, others⟩ := List.forall_mem_cons.mp each
      obtain ⟨next, behind⟩ := List.forall_mem_cons.mp (ih others)
      exact List.forall_mem_cons.mpr ⟨together _ _ here next, behind⟩

end JoinsTo

/-- Joining all neighbours is a way to join. -/
theorem joinsTo_merged (calls : List Call) : JoinsTo calls (merged calls) := by
  induction calls with
  | nil => exact .nil
  | cons call calls ih => exact ih.consMerged call

/-- Joining the parts first makes no difference to what is joined in the end. -/
theorem merged_append (calls more : List Call) :
    merged (calls ++ more) = merged (merged calls ++ merged more) :=
  ((joinsTo_merged calls).append (joinsTo_merged more)).merged_eq.symm

end Call

end IonLiteral
