import IonLiteral.Proofs.Checks

/-! # Loops over an index

A text is written by a loop over an index. A turn of it looks at the text from the index on, writes
something and either ends the loop or says where the next turn starts. Such a loop does what a
function of the rest of the text does, if each turn does one step of that function, and its indices
are then those that belong to a rest.
-/

namespace IonLiteral

/-- Writing to a sink that keeps a `σ`, with checks on the way. -/
abbrev CheckedM (σ : Type) := ExceptT Breach (SinkM σ)

namespace CheckedM

variable {σ α : Type}

/-- What passes its check is there to go on with. -/
theorem liftM_ok (a : α) :
    (liftM (Except.ok a : Except Breach α) : CheckedM σ α) = pure a := rfl

/-- What is written without a check has no breach. -/
theorem liftM_ne_breach (write : SinkM σ α) (kept left : σ) (breach : Breach) :
    (liftM write : CheckedM σ α) kept ≠ .ok (.error breach) left := by
  intro broken
  change EStateM.map Except.ok write kept = _ at broken
  rw [EStateM.map] at broken
  split at broken
  · cases broken
  · cases broken

end CheckedM

namespace Checked

variable {σ β : Type}

/-- Take turns at a text of some length, from an index on. No turn may end where it began. -/
def loop (turn : Nat → CheckedM σ (Option Nat)) (length i : Nat) : CheckedM σ Unit :=
  if i < length then do
    match ← turn i with
    | none => pure ()
    | some next => if i < next then loop turn length next else throw .endless
  else pure ()
termination_by length - i

/-- The indices at which a loop looks whether to go on, whatever its sink kept until then. -/
inductive Head (turn : Nat → CheckedM σ (Option Nat)) (length : Nat) : Nat → Prop
  | first : Head turn length 0
  | next {i next : Nat} {kept left : σ} (here : Head turn length i) (inside : i < length)
      (turned : turn i kept = .ok (.ok (some next)) left) : Head turn length next

/-! ## Turns -/

/-- What a turn comes to, without its checks: what it puts, and where the next turn starts and with
what rest of the text. -/
structure Turn (σ β : Type) where
  put : SinkM σ Unit
  next : Option (Nat × β)

namespace Turn

/-- A turn that ends a loop. -/
def final (put : SinkM σ Unit) : Turn σ β := ⟨put, none⟩

/-- A turn that says where the next one starts. -/
def onward (put : SinkM σ Unit) (next : Nat) (rest : β) : Turn σ β := ⟨put, some (next, rest)⟩

/-- The same turn, after something else is put. -/
def behind (first : SinkM σ Unit) (t : Turn σ β) : Turn σ β :=
  { t with put := do first; t.put }

/-- A turn as a loop takes it. -/
def run (t : Turn σ β) : SinkM σ (Option Nat) := do
  t.put
  return t.next.map Prod.fst

/-- A turn and what is written from there on. -/
def andThen (t : Turn σ β) (write : Nat → β → SinkM σ Unit) : SinkM σ Unit := do
  t.put
  match t.next with
  | none => pure ()
  | some (i, rest) => write i rest

/-- A turn that goes on has a next index and a rest that belongs to it. -/
theorem next_of_run {t : Turn σ β} {kept left : σ} {i : Nat}
    (turned : (liftM t.run : CheckedM σ (Option Nat)) kept = .ok (.ok (some i)) left) :
    ∃ rest, t.next = some (i, rest) := by
  obtain ⟨put, next⟩ := t
  change EStateM.map Except.ok (EStateM.bind put fun _ => EStateM.pure (next.map Prod.fst)) kept =
    .ok (.ok (some i)) left at turned
  rw [EStateM.map, EStateM.bind] at turned
  cases ended : put kept with
  | error fault left =>
      rw [ended] at turned
      cases turned
  | ok _ between =>
      rw [ended] at turned
      cases next with
      | none => cases turned
      | some next =>
          cases turned
          exact ⟨next.2, rfl⟩

end Turn

/-- A checked turn at an index takes one step of writing the rest that belongs to the index, and
goes forward to the rest that is left. -/
structure Turn.Steps (t : Turn σ β) (checked : CheckedM σ (Option Nat)) (At : Nat → β → Prop)
    (write : Nat → β → SinkM σ Unit) (i : Nat) (rest : β) : Prop where
  turned : checked = liftM t.run
  writes : write i rest = t.andThen write
  forward : ∀ next ∈ t.next, i < next.1 ∧ At next.1 next.2

namespace Turn.Steps

variable {At : Nat → β → Prop} {write : Nat → β → SinkM σ Unit}
  {checked : CheckedM σ (Option Nat)} {first put : SinkM σ Unit} {i stop next : Nat}
  {rest others : β}

/-- A turn that writes the whole rest is the last one. -/
theorem final (turned : checked = liftM (do put; return (none : Option Nat)))
    (written : write i rest = put) : (Turn.final put).Steps checked At write i rest where
  turned := turned
  writes := written.trans (bind_pure_unit).symm
  forward next member := by cases member

/-- A turn that writes the beginning of the rest goes on behind it. -/
theorem onward {check : CheckedM σ Unit} (same : check = liftM put)
    (written : write i rest = (do put; write next others)) (further : i < next)
    (there : At next others) :
    (Turn.onward put next others).Steps (do check; return some next) At write i rest where
  turned := by
    rw [same, Turn.run, liftM_bind]
    rfl
  writes := written
  forward _ member := by
    cases member
    exact ⟨further, there⟩

/-- A step from further on is a step from here, if what lies between is put first. -/
theorem exists_behind (before : i ≤ stop)
    (written : write i rest = (do first; write stop others))
    (further : ∃ t : Turn σ β, t.Steps checked At write stop others) :
    ∃ t : Turn σ β, t.Steps (do liftM first; checked) At write i rest := by
  obtain ⟨t, turned, writes, forward⟩ := further
  refine ⟨t.behind first, ?_, ?_, fun next member => ?_⟩
  · rw [turned, ← liftM_bind]
    exact congrArg liftM (bind_assoc ..).symm
  · rw [written, writes]
    exact (bind_assoc ..).symm
  · obtain ⟨beyond, there⟩ := forward next member
    exact ⟨Nat.lt_of_le_of_lt before beyond, there⟩

end Turn.Steps

/-- Turns write a text. At each index that belongs to a rest of it, the loop stops if the rest is
written by doing nothing, and takes a turn that does one step of writing it if not. -/
structure Turns (turn : Nat → CheckedM σ (Option Nat)) (length : Nat) (At : Nat → β → Prop)
    (write : Nat → β → SinkM σ Unit) : Prop where
  stop : ∀ {i rest}, At i rest → ¬ i < length → write i rest = pure ()
  step : ∀ {i rest}, At i rest → i < length →
    ∃ t : Turn σ β, t.Steps (turn i) At write i rest

namespace Turns

variable {turn : Nat → CheckedM σ (Option Nat)} {length : Nat} {At : Nat → β → Prop}
  {write : Nat → β → SinkM σ Unit}

/-- **A loop writes the rest of a text** without a breach. -/
theorem loop_eq (turns : Turns turn length At write) {i : Nat} {rest : β} (here : At i rest) :
    loop turn length i = liftM (write i rest) := by
  -- On the turns that are left. Each goes forward, so the next head is further on and the loop
  -- finds the rest there that the invariant names.
  induction i using loop.induct length generalizing rest with
  | case1 i inside ih =>
      obtain ⟨⟨put, next⟩, turned, writes, forward⟩ := turns.step here inside
      rw [loop, if_pos inside, turned, writes, Turn.run, Turn.andThen, liftM_bind, liftM_bind,
        bind_assoc]
      refine bind_congr fun _ => ?_
      rw [liftM_pure, pure_bind]
      cases next with
      | none => rfl
      | some next =>
          obtain ⟨further, there⟩ := forward next rfl
          exact (if_pos further).trans (ih next.1 further there)
  | case2 i outside =>
      rw [loop, if_neg outside, turns.stop here outside, liftM_pure]

/-- **The heads of a loop belong to rests.** -/
theorem exists_rest (turns : Turns turn length At write) {rest : β} (start : At 0 rest) {i : Nat}
    (head : Head turn length i) : ∃ rest, At i rest := by
  induction head with
  | first => exact ⟨rest, start⟩
  | @next i next kept left here inside turned ih =>
      obtain ⟨rest, belongs⟩ := ih
      obtain ⟨t, steps⟩ := turns.step belongs inside
      rw [steps.turned] at turned
      obtain ⟨further, found⟩ := Turn.next_of_run turned
      exact ⟨further, (steps.forward _ found).2⟩

end Turns

/-! ## Rests of a list -/

/-- The rest of a list that starts at an index. -/
def IsRest {α : Type} (as : List α) (i : Nat) (rest : List α) : Prop :=
  ∃ before, as = before ++ rest ∧ i = before.length

variable {α : Type} {as rest : List α} {i : Nat}

/-- A loop stops at an index if the rest that starts there is empty. -/
theorem IsRest.lt_length_iff (here : IsRest as i rest) : i < as.length ↔ rest ≠ [] := by
  obtain ⟨before, rfl, rfl⟩ := here
  rw [List.length_append, Nat.lt_add_right_iff_pos, List.length_pos_iff]

/-- Behind so many items begins the rest without them. -/
theorem isRest_drop (inside : i < as.length) : IsRest as i (as.drop i) := by
  refine ⟨as.take i, (List.take_append_drop ..).symm, ?_⟩
  rw [List.length_take, Nat.min_eq_left (Nat.le_of_lt inside)]

end Checked

end IonLiteral
