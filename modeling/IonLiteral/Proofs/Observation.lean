import IonLiteral.Proofs.Calls
import IonLiteral.Session

/-! # Observing a sink at work

A sink can be watched while a rendering is carried out on it: which operations it is asked for, what
it keeps, and how the rendering ends. A rendering that runs a script is seen to follow it up to the
first operation that fails. A sink that takes whatever it can be asked for is given the whole
script, with nothing left out and nothing added.
-/

namespace IonLiteral

/-- What was seen of a sink: the operations it was asked for, in order, what it kept, and how the
rendering ended. -/
structure Observation (σ : Type) where
  result : Except Fault Unit
  calls : List Call
  kept : σ

namespace Observation

variable {σ : Type}

/-- The text that was given to the sink. -/
def chars (seen : Observation σ) : List Char :=
  seen.calls.flatMap Call.chars

/-- How the rendering ended and what the sink kept, without the operations. -/
def outcome (seen : Observation σ) : Outcome σ := ⟨seen.result, seen.kept⟩

end Observation

/-- How writing ended, with what the sink kept beside it. -/
def Outcome.ofResult {σ : Type} : EStateM.Result Fault σ Unit → Outcome σ
  | .ok _ kept => ⟨.ok (), kept⟩
  | .error fault kept => ⟨.error fault, kept⟩

/-- A step ends and leaves what carrying it out does. -/
theorem Session.step_eq {σ : Type} (s : Sink σ) (kept : σ) (step : Step) :
    Session.step s kept step = .ofResult (step.run s kept) := by
  unfold Session.step
  cases step.run s kept <;> rfl

/-- In a session the first rendering is carried out, and the others on what it left. -/
theorem Session.run_renderings_cons {σ : Type} (s : Sink σ) (kept : σ) (rendering : Rendering)
    (renderings : List Rendering) :
    run s kept ((rendering :: renderings).map .render) =
      .ofResult (rendering.write s kept) ::
        run s (Outcome.ofResult (rendering.write s kept)).kept (renderings.map .render) := by
  rw [List.map_cons, run, step_eq]
  rfl

/-- The operations that every sink has to be ready for: ASCII, and where the sink can hold more than
that also characters and surrogate pairs. -/
def Call.IsProper (escapesUnicode : Bool) : Call → Prop
  | ascii text => ∀ c ∈ text, c.val < 0x80
  | char _ => escapesUnicode = false
  | pair lead trail =>
    escapesUnicode = false ∧ lead.isHighSurrogate = true ∧ trail.isLowSurrogate = true

namespace Sink

variable {σ : Type}

/-- Carry out an operation and note it down, whether it succeeds or not. -/
def noted (call : Call) (action : SinkM σ Unit) : SinkM (σ × List Call) Unit
  | (kept, calls) =>
    match action kept with
    | .ok _ kept => .ok () (kept, calls ++ [call])
    | .error fault kept => .error fault (kept, calls ++ [call])

/-- The same sink with a list of the operations it is asked for. -/
def traced (s : Sink σ) : Sink (σ × List Call) where
  escapesUnicode := s.escapesUnicode
  putAscii text := noted (.ascii text) (s.putAscii text)
  putChar c := noted (.char c) (s.putChar c)
  putPair lead trail := noted (.pair lead trail) (s.putPair lead trail)

/-- Watch a sink while a rendering is carried out on it. -/
def observe (s : Sink σ) (rendering : Rendering) (kept : σ) : Observation σ :=
  match rendering.write s.traced (kept, []) with
  | .ok _ (kept, calls) => ⟨.ok (), calls, kept⟩
  | .error fault (kept, calls) => ⟨.error fault, calls, kept⟩

/-! ## Scripts on a sink -/

/-- A sink takes operations one after the other. -/
inductive Takes (s : Sink σ) : σ → List Call → σ → Prop
  | nil (kept : σ) : Takes s kept [] kept
  | cons {kept between left : σ} {call : Call} {calls : List Call}
      (first : s.perform call kept = .ok () between) (rest : Takes s between calls left) :
      Takes s kept (call :: calls) left

/-- What can be seen of a sink that is given a script. Either it takes all operations and the
rendering ends as the script does, or an operation fails after those before it were taken. Then
nothing further is asked for, and the rendering ends with the fault of that operation. -/
inductive Follows (s : Sink σ) (script : Script) (kept : σ) : Observation σ → Prop
  | whole {left : σ} (taken : s.Takes kept script.calls left) :
      Follows s script kept ⟨script.ending, script.calls, left⟩
  | cut {before after : List Call} {call : Call} {between left : σ} {fault : Fault}
      (split : script.calls = before ++ call :: after) (taken : s.Takes kept before between)
      (failed : s.perform call between = .error fault left) :
      Follows s script kept ⟨.error fault, before ++ [call], left⟩

/-- Operations that are taken one by one are taken together. -/
theorem Takes.performAll {s : Sink σ} {kept left : σ} {calls : List Call}
    (taken : s.Takes kept calls left) : s.performAll calls kept = .ok () left := by
  induction taken with
  | nil kept => rfl
  | cons first rest ih => rw [performAll_cons, SinkM.bind_of_ok first, ih]

/-- Operations are all taken, or there is a first one that fails. -/
theorem takes_or_fails (s : Sink σ) (kept : σ) (calls : List Call) :
    (∃ left, s.Takes kept calls left) ∨
      ∃ before call after between fault left, calls = before ++ call :: after ∧
        s.Takes kept before between ∧ s.perform call between = .error fault left := by
  induction calls generalizing kept with
  | nil => exact .inl ⟨kept, .nil kept⟩
  | cons first calls ih =>
      cases performed : s.perform first kept with
      | error fault left =>
          exact .inr ⟨[], first, calls, kept, fault, left, rfl, .nil kept, performed⟩
      | ok _ next =>
          rcases ih next with ⟨left, taken⟩ |
            ⟨before, call, after, between, fault, left, rfl, taken, failed⟩
          · exact .inl ⟨left, .cons performed taken⟩
          · exact .inr ⟨first :: before, call, after, between, fault, left, rfl,
              .cons performed taken, failed⟩

/-- Operations behind one that fails are not carried out. -/
theorem Takes.performAll_of_failed {s : Sink σ} {kept between left : σ} {before : List Call}
    {call : Call} {fault : Fault} (taken : s.Takes kept before between)
    (failed : s.perform call between = .error fault left) (after : List Call) :
    s.performAll (before ++ call :: after) kept = .error fault left := by
  rw [performAll_append, SinkM.bind_of_ok taken.performAll, performAll_cons,
    SinkM.bind_of_error failed]

theorem perform_traced (s : Sink σ) (call : Call) :
    s.traced.perform call = noted call (s.perform call) := by
  cases call <;> rfl

/-- Watching a sink changes nothing about what it takes. -/
theorem Takes.traced {s : Sink σ} {kept left : σ} {calls : List Call}
    (taken : s.Takes kept calls left) (earlier : List Call) :
    s.traced.Takes (kept, earlier) calls (left, earlier ++ calls) := by
  induction taken generalizing earlier with
  | nil kept =>
      rw [List.append_nil]
      exact .nil _
  | @cons kept between left call calls first rest ih =>
      have noted : s.traced.perform call (kept, earlier) = .ok () (between, earlier ++ [call]) := by
        rw [perform_traced]
        simp only [Sink.noted, first]
      have behind := ih (earlier ++ [call])
      rw [List.append_assoc, List.singleton_append] at behind
      exact .cons noted behind

/-- **A script is followed.** Whatever a sink makes of the operations, a rendering that runs a
script on it is seen to follow the script. -/
theorem observe_follows (s : Sink σ) {rendering : Rendering} {script : Script}
    (writes : rendering.write s.traced = script.run s.traced) (kept : σ) :
    s.Follows script kept (s.observe rendering kept) := by
  obtain ⟨calls, ending⟩ := script
  unfold observe
  rw [writes, Script.run]
  rcases s.takes_or_fails kept calls with
    ⟨left, taken⟩ | ⟨before, call, after, between, fault, left, rfl, taken, failed⟩
  · rw [SinkM.bind_of_ok (taken.traced []).performAll]
    cases ending with
    | ok _ => exact .whole taken
    | error fault => exact .whole taken
  · have noted : s.traced.perform call (between, before) =
        .error fault (left, before ++ [call]) := by
      rw [perform_traced]
      simp only [Sink.noted, failed]
    rw [SinkM.bind_of_error ((taken.traced []).performAll_of_failed noted after)]
    exact .cut rfl taken failed

/-- A script whose operations succeed ends as it says. -/
theorem ofResult_run_of_ok {s : Sink σ} {script : Script} {kept left : σ}
    (taken : s.performAll script.calls kept = .ok () left) :
    Outcome.ofResult (script.run s kept) = ⟨script.ending, left⟩ := by
  rw [Script.run, SinkM.bind_of_ok taken]
  cases script.ending <;> rfl

/-- A script of which an operation fails ends with that fault. -/
theorem ofResult_run_of_error {s : Sink σ} {script : Script} {kept left : σ} {fault : Fault}
    (failed : s.performAll script.calls kept = .error fault left) :
    Outcome.ofResult (script.run s kept) = ⟨.error fault, left⟩ := by
  rw [Script.run, SinkM.bind_of_error failed]
  rfl

/-- Following a script ends as running it does. -/
theorem Follows.outcome_eq {s : Sink σ} {script : Script} {kept : σ} {seen : Observation σ}
    (follows : s.Follows script kept seen) :
    Outcome.ofResult (script.run s kept) = seen.outcome := by
  cases follows with
  | whole taken => exact ofResult_run_of_ok taken.performAll
  | @cut before after call between left fault split taken failed =>
      have stopped := taken.performAll_of_failed failed after
      rw [← split] at stopped
      exact ofResult_run_of_error stopped

/-- A script of one operation asks for it and ends as it does, whether it fails or not. -/
theorem Follows.of_singleton {s : Sink σ} {call : Call} {kept : σ} {seen : Observation σ}
    (follows : s.Follows (.ofCalls [call]) kept seen) :
    seen.calls = [call] ∧ seen.outcome = .ofResult (s.perform call kept) := by
  refine ⟨?_, ?_⟩
  · cases follows with
    | whole taken => rfl
    | @cut before after failing between left fault split taken failed =>
        obtain ⟨rfl, same⟩ | ⟨_, _, impossible⟩ := List.cons_eq_append_iff.mp split
        · cases same
          rfl
        · cases List.append_ne_nil_of_right_ne_nil _ (List.cons_ne_nil _ _) impossible.symm
  · rw [← follows.outcome_eq, Script.run_ofCalls, performAll_singleton]

/-- Nothing is asked for that is not in the script. -/
theorem Follows.calls_prefix {s : Sink σ} {script : Script} {kept : σ} {seen : Observation σ}
    (follows : s.Follows script kept seen) : seen.calls <+: script.calls := by
  cases follows with
  | whole taken => exact List.prefix_rfl
  | @cut before after call between left fault split taken failed =>
      refine ⟨after, ?_⟩
      rw [split, List.append_assoc, List.singleton_append]

/-! ## Sinks that take all -/

/-- No operation fails that the sink has to be ready for. -/
def TakesAll (s : Sink σ) : Prop :=
  ∀ call : Call, call.IsProper s.escapesUnicode →
    ∀ kept, ∃ left, s.perform call kept = .ok () left

/-- A sink that takes all takes any proper operations. -/
theorem TakesAll.takes {s : Sink σ} (takesAll : s.TakesAll) {calls : List Call}
    (proper : ∀ call ∈ calls, call.IsProper s.escapesUnicode) (kept : σ) :
    ∃ left, s.Takes kept calls left := by
  induction calls generalizing kept with
  | nil => exact ⟨kept, .nil kept⟩
  | cons call calls ih =>
      obtain ⟨between, first⟩ := takesAll call (proper call List.mem_cons_self) kept
      obtain ⟨left, rest⟩ :=
        ih (fun call member => proper call (List.mem_cons_of_mem _ member)) between
      exact ⟨left, .cons first rest⟩

/-- A script whose operations are taken is seen as it is. -/
theorem Takes.observe_eq {s : Sink σ} {rendering : Rendering} {script : Script}
    (writes : rendering.write s.traced = script.run s.traced) {kept left : σ}
    (taken : s.Takes kept script.calls left) :
    s.observe rendering kept = ⟨script.ending, script.calls, left⟩ := by
  unfold observe
  rw [writes, Script.run, SinkM.bind_of_ok (taken.traced []).performAll]
  obtain ⟨calls, ending⟩ := script
  cases ending <;> rfl

/-- **A script is seen as it is.** A sink that takes all it can be asked for is given every
operation of a script, and the rendering ends as the script does. -/
theorem observe_of_script {s : Sink σ} (takes : s.TakesAll) {rendering : Rendering}
    {script : Script} (writes : rendering.write s.traced = script.run s.traced)
    (proper : ∀ call ∈ script.calls, call.IsProper s.escapesUnicode) (kept : σ) :
    ∃ left, s.observe rendering kept = ⟨script.ending, script.calls, left⟩ := by
  obtain ⟨left, taken⟩ := takes.takes proper kept
  exact ⟨left, taken.observe_eq writes⟩

end Sink

end IonLiteral
