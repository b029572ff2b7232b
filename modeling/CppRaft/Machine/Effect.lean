import Mathlib.Data.List.Basic

/-!
# Calls with effects

A call changes a state, emits actions in order, and ends: it returns, it throws,
it performs an access that the language leaves undefined, or one of its loops
uses up the bound it was given. A throwing call keeps the changes it has made.

The composition rules are relational: a relation that holds of doing nothing and
of running one emission after another holds of every loop built from steps that
satisfy it.
-/

namespace CppRaft

namespace Machine

/-- How a call ends. -/
inductive Exit (α : Type) where
  | returned (value : α)
  | thrown
  | undefined
  | diverged
  deriving DecidableEq, Repr

/-- Transform the returned value. -/
def Exit.map {α β : Type} (f : α → β) : Exit α → Exit β
  | .returned value => .returned (f value)
  | .thrown => .thrown
  | .undefined => .undefined
  | .diverged => .diverged

/-- Changing the value of an exit does not make it undefined. -/
theorem Exit.map_eq_undefined_iff {α β : Type} {f : α → β} {exit : Exit α} :
    exit.map f = .undefined ↔ exit = .undefined := by
  cases exit <;> simp [Exit.map]

/-- A vector subscript: only positions inside the vector have a meaning. -/
def subscript {α : Type} (items : List α) (position : Int) : Exit α :=
  if 0 ≤ position then
    match items[position.toNat]? with
    | some item => .returned item
    | none => .undefined
  else .undefined

section Allocation

variable {P γ α : Type}

/-- Memory that is to be allocated, if any, is not in use. -/
def Free (memory : P → Option γ) (allocated : Option P) : Prop :=
  ∀ p, allocated = some p → memory p = none

/-- A call that allocates: it gets memory that is not in use. -/
def allocating (memory : P → Option γ) (allocated : Option P) (call : Option α) : Option α :=
  match allocated with
  | none => call
  | some p => if (memory p).isNone then call else none

/-- A call whose allocation gets free memory is the call. -/
theorem allocating_of_free {memory : P → Option γ} {allocated : Option P}
    (free : Free memory allocated) (call : Option α) : allocating memory allocated call = call := by
  cases allocated with
  | none => rfl
  | some p => rw [allocating, free p rfl, Option.isNone_none, if_pos rfl]

/-- A call that has a result got free memory. -/
theorem free_of_allocating {memory : P → Option γ} {allocated : Option P} {call : Option α}
    {result : α} (called : allocating memory allocated call = some result) :
    Free memory allocated := by
  rintro p rfl
  rw [allocating] at called
  by_contra used
  rw [← Option.isNone_iff_eq_none] at used
  rw [if_neg used] at called
  cases called

end Allocation

/-- The state a call leaves and the actions it emits on the way. -/
structure Effect (σ ω : Type) where
  state : σ
  emitted : List ω

/-- The effect of a call together with the way it ends. -/
structure Outcome (σ ω α : Type) where
  exit : Exit α
  state : σ
  emitted : List ω

variable {σ ω α β : Type}

/-- A relation on effects that is reflexive and composes along emissions. -/
structure Composes (R : σ → List ω → σ → Prop) : Prop where
  refl : ∀ s, R s [] s
  trans : ∀ {s s' s'' : σ} {first second : List ω},
    R s first s' → R s' second s'' → R s (first ++ second) s''

namespace Effect

/-- No effect. -/
def done (s : σ) : Effect σ ω := ⟨s, []⟩

/-- Continue from the state an effect leaves, after what it emitted. -/
def andThen (first : Effect σ ω) (next : σ → Effect σ ω) : Effect σ ω :=
  ⟨(next first.state).state, first.emitted ++ (next first.state).emitted⟩

/-- A loop over a list. -/
def forEach (step : α → σ → Effect σ ω) : List α → σ → Effect σ ω
  | [], s => done s
  | a :: rest, s => (step a s).andThen (forEach step rest)

/-- The call returns a value. -/
def returning (effect : Effect σ ω) (value : α) : Outcome σ ω α :=
  ⟨.returned value, effect.state, effect.emitted⟩

@[simp] theorem done_state (s : σ) : (done s : Effect σ ω).state = s := rfl

@[simp] theorem done_emitted (s : σ) : (done s : Effect σ ω).emitted = [] := rfl

@[simp] theorem returning_exit (effect : Effect σ ω) (value : α) :
    (effect.returning value).exit = .returned value := rfl

@[simp] theorem returning_state (effect : Effect σ ω) (value : α) :
    (effect.returning value).state = effect.state := rfl

@[simp] theorem returning_emitted (effect : Effect σ ω) (value : α) :
    (effect.returning value).emitted = effect.emitted := rfl

/-- A loop whose steps only emit leaves the state and concatenates the emissions. -/
theorem forEach_emit (step : α → σ → Effect σ ω) (emit : α → σ → List ω)
    (emits : ∀ a s, step a s = ⟨s, emit a s⟩) (items : List α) (s : σ) :
    forEach step items s = ⟨s, items.flatMap (fun a => emit a s)⟩ := by
  induction items with
  | nil => rfl
  | cons a rest ih => simp only [forEach, emits, andThen, ih, List.flatMap_cons]

/-- A loop that skips items runs over the remaining ones, as long as its steps do not change
which items are skipped. -/
theorem forEach_skip (skip : α → σ → Bool) (step : α → σ → Effect σ ω)
    (keeps : ∀ a b s, skip b (step a s).state = skip b s) (items : List α) (s : σ) :
    forEach (fun a s => if skip a s then done s else step a s) items s =
      forEach step (items.filter fun a => !skip a s) s := by
  induction items generalizing s with
  | nil => rfl
  | cons a rest ih =>
      cases skipped : skip a s with
      | true => simp [forEach, skipped, andThen, ih]
      | false => simp [forEach, skipped, andThen, ih, keeps]

end Effect

namespace Outcome

/-- An operation that only computes how it ends. -/
def ofExit (exit : Exit α) (s : σ) : Outcome σ ω α := ⟨exit, s, []⟩

/-- The effect of a call whose end the language defines. -/
def effect? (call : Outcome σ ω α) : Option (Effect σ ω) :=
  match call.exit with
  | .returned _ => some ⟨call.state, call.emitted⟩
  | .thrown => some ⟨call.state, call.emitted⟩
  | .undefined => none
  | .diverged => none

/-- Continue with the returned value; every other way to end is final. -/
def bind (call : Outcome σ ω α) (next : α → σ → Outcome σ ω β) : Outcome σ ω β :=
  match call.exit with
  | .returned value =>
      ⟨(next value call.state).exit, (next value call.state).state,
        call.emitted ++ (next value call.state).emitted⟩
  | .thrown => ⟨.thrown, call.state, call.emitted⟩
  | .undefined => ⟨.undefined, call.state, call.emitted⟩
  | .diverged => ⟨.diverged, call.state, call.emitted⟩

@[simp] theorem bind_ofExit_returned (value : α) (s : σ) (next : α → σ → Outcome σ ω β) :
    (ofExit (.returned value) s).bind next = next value s := rfl

/-- Calls in sequence can be grouped at will. -/
theorem bind_assoc {γ : Type} (call : Outcome σ ω α) (next : α → σ → Outcome σ ω β)
    (last : β → σ → Outcome σ ω γ) :
    (call.bind next).bind last = call.bind fun value s => (next value s).bind last := by
  obtain ⟨exit, s, emitted⟩ := call
  cases exit with
  | returned value =>
      simp only [bind]
      split <;> simp only [List.append_assoc]
  | thrown => rfl
  | undefined => rfl
  | diverged => rfl

@[simp] theorem bind_returning (call : Outcome σ ω α) :
    (call.bind fun value s => (Effect.done s).returning value) = call := by
  obtain ⟨exit, s, emitted⟩ := call
  cases exit <;> simp [bind]

/-- A defined effect is one of a call that returned or threw. -/
theorem effect?_eq_some_iff (call : Outcome σ ω α) (effect : Effect σ ω) :
    call.effect? = some effect ↔
      call.exit ≠ .undefined ∧ call.exit ≠ .diverged ∧ effect = ⟨call.state, call.emitted⟩ := by
  unfold effect?
  split <;> simp_all [eq_comm]

/-- A sequence has a defined effect when its first call returned and the rest has one. The
hypothesis excludes exceptions, which would end the sequence with the effect of the first
call. -/
theorem bind_effect?_eq_some {call : Outcome σ ω α} {next : α → σ → Outcome σ ω β}
    {effect : Effect σ ω} (throwless : call.exit ≠ .thrown)
    (defined : (call.bind next).effect? = some effect) :
    ∃ value rest, call.exit = .returned value ∧
      (next value call.state).effect? = some rest ∧ effect.state = rest.state ∧
      effect.emitted = call.emitted ++ rest.emitted := by
  rw [effect?_eq_some_iff] at defined
  obtain ⟨notUndefined, notDiverged, rfl⟩ := defined
  unfold bind at notUndefined notDiverged ⊢
  split at notUndefined
  case h_1 value returned =>
      simp only [returned] at notUndefined notDiverged ⊢
      exact ⟨value, ⟨_, _⟩, rfl, (effect?_eq_some_iff _ _).mpr ⟨notUndefined, notDiverged, rfl⟩,
        rfl, rfl⟩
  case h_2 thrown => exact absurd thrown throwless
  case h_3 => exact absurd rfl notUndefined
  case h_4 diverged =>
      simp only [diverged] at notDiverged
      exact absurd rfl notDiverged

/-- A sequence whose first call returned has the effect of the rest after that of the call. -/
theorem bind_effect?_of_returned {call : Outcome σ ω α} {next : α → σ → Outcome σ ω β} {value : α}
    {rest : Effect σ ω} (returned : call.exit = .returned value)
    (defined : (next value call.state).effect? = some rest) :
    (call.bind next).effect? = some ⟨rest.state, call.emitted ++ rest.emitted⟩ := by
  obtain ⟨notUndefined, notDiverged, rfl⟩ := (effect?_eq_some_iff _ _).mp defined
  rw [effect?_eq_some_iff, bind, returned]
  exact ⟨notUndefined, notDiverged, rfl⟩

/-- Only the value of a call is replaced. -/
theorem effect?_bind_done (call : Outcome σ ω α) (value : β) :
    (call.bind fun _ s => (Effect.done s).returning value).effect? = call.effect? := by
  obtain ⟨exit, s, emitted⟩ := call
  cases exit <;> simp [bind, effect?]

/-- Repeat `body` while it returns `true`, at most `bound` times. -/
def loop (body : σ → Outcome σ ω Bool) : (bound : ℕ) → σ → Outcome σ ω Unit
  | 0, s => ⟨.diverged, s, []⟩
  | bound + 1, s =>
      (body s).bind fun again s' =>
        if again then loop body bound s' else (Effect.done s').returning ()

/-- Composable relations pass through sequencing. -/
theorem bind_composes {R : σ → List ω → σ → Prop} (composes : Composes R)
    (call : Outcome σ ω α) (next : α → σ → Outcome σ ω β) (s : σ)
    (first : R s call.emitted call.state)
    (second : ∀ value, R call.state (next value call.state).emitted
      (next value call.state).state) :
    R s (call.bind next).emitted (call.bind next).state := by
  unfold bind
  split
  · exact composes.trans first (second _)
  all_goals exact first

/-- Composable relations pass through loops. -/
theorem loop_composes {R : σ → List ω → σ → Prop} (composes : Composes R)
    (body : σ → Outcome σ ω Bool) (step : ∀ s, R s (body s).emitted (body s).state)
    (bound : ℕ) (s : σ) : R s (loop body bound s).emitted (loop body bound s).state := by
  induction bound generalizing s with
  | zero => exact composes.refl s
  | succ bound ih =>
      apply bind_composes composes _ _ _ (step s)
      intro again
      cases again with
      | false => exact composes.refl _
      | true => exact ih _

/-- A sequence makes an undefined access in its first call or in the rest. -/
theorem bind_exit_eq_undefined_iff (call : Outcome σ ω α) (next : α → σ → Outcome σ ω β) :
    (call.bind next).exit = .undefined ↔ call.exit = .undefined ∨
      ∃ value, call.exit = .returned value ∧ (next value call.state).exit = .undefined := by
  unfold bind
  split <;> simp_all

/-- A sequence throws in its first call or in the rest. -/
theorem bind_exit_eq_thrown_iff (call : Outcome σ ω α) (next : α → σ → Outcome σ ω β) :
    (call.bind next).exit = .thrown ↔ call.exit = .thrown ∨
      ∃ value, call.exit = .returned value ∧ (next value call.state).exit = .thrown := by
  unfold bind
  split <;> simp_all

/-- A sequence stays within its bounds when both parts do. -/
theorem bind_exit_ne_diverged {call : Outcome σ ω α} {next : α → σ → Outcome σ ω β}
    (first : call.exit ≠ .diverged)
    (second : ∀ value, call.exit = .returned value →
      (next value call.state).exit ≠ .diverged) :
    (call.bind next).exit ≠ .diverged := by
  unfold bind
  split
  case h_1 value returned => exact second value returned
  case h_2 => simp
  case h_3 => simp
  case h_4 diverged => exact absurd diverged first

/-- A sequence does not throw when neither part does. -/
theorem bind_exit_ne_thrown {call : Outcome σ ω α} {next : α → σ → Outcome σ ω β}
    (first : call.exit ≠ .thrown)
    (second : ∀ value, call.exit = .returned value → (next value call.state).exit ≠ .thrown) :
    (call.bind next).exit ≠ .thrown := by
  unfold bind
  split
  case h_1 value returned => exact second value returned
  case h_2 thrown => exact absurd thrown first
  case h_3 => simp
  case h_4 => simp

/-- A loop does not throw when its body does not. -/
theorem loop_exit_ne_thrown (body : σ → Outcome σ ω Bool)
    (throwless : ∀ s, (body s).exit ≠ .thrown) (bound : ℕ) (s : σ) :
    (loop body bound s).exit ≠ .thrown := by
  induction bound generalizing s with
  | zero => simp [loop]
  | succ bound ih =>
      refine bind_exit_ne_thrown (throwless s) fun again _ => ?_
      cases again with
      | false => simp
      | true => exact ih _

/-- A loop leaves with its pass number `passes`: the earlier ones returned `true`. -/
inductive Ends (body : σ → Outcome σ ω Bool) : ℕ → σ → Prop where
  | last {s : σ} (stops : (body s).exit ≠ .returned true) (ends : (body s).exit ≠ .diverged) :
      Ends body 1 s
  | again {passes : ℕ} {s : σ} (continues : (body s).exit = .returned true)
      (rest : Ends body passes (body s).state) : Ends body (passes + 1) s

/-- A loop whose passes lower a measure when they continue leaves in time. -/
theorem ends_of_measure (body : σ → Outcome σ ω Bool) (measure : σ → ℕ)
    (ends : ∀ s, (body s).exit ≠ .diverged)
    (lowers : ∀ s, (body s).exit = .returned true → measure (body s).state < measure s) (s : σ) :
    ∃ passes ≤ measure s + 1, Ends body passes s := by
  induction room : measure s using Nat.strongRecOn generalizing s with
  | ind left ih =>
      by_cases continues : (body s).exit = .returned true
      · have lower := lowers s continues
        obtain ⟨passes, few, rest⟩ := ih _ (room ▸ lower) (body s).state rfl
        exact ⟨passes + 1, by omega, .again continues rest⟩
      · exact ⟨1, by omega, .last continues (ends s)⟩

/-- A bound that covers the passes of a loop is not used up, so the bound in the model of a
loop of the source is no part of its meaning. -/
theorem Ends.loop_exit_ne_diverged {body : σ → Outcome σ ω Bool} {passes : ℕ} {s : σ}
    (ended : Ends body passes s) {bound : ℕ} (enough : passes ≤ bound) :
    (loop body bound s).exit ≠ .diverged := by
  induction ended generalizing bound with
  | @last s stops ends =>
      obtain ⟨bound, rfl⟩ := Nat.exists_eq_add_one_of_ne_zero (show bound ≠ 0 by omega)
      refine bind_exit_ne_diverged ends fun again returned => ?_
      cases again with
      | false => simp
      | true => exact absurd returned stops
  | @again passes s continues _ ih =>
      obtain ⟨bound, rfl⟩ := Nat.exists_eq_add_one_of_ne_zero (show bound ≠ 0 by omega)
      refine bind_exit_ne_diverged (by simp [continues]) fun again _ => ?_
      cases again with
      | false => simp
      | true => exact ih (by omega)

/-- A loop ends within its bound when every iteration that continues lowers a measure. -/
theorem loop_exit_ne_diverged (body : σ → Outcome σ ω Bool) (measure : σ → ℕ)
    (ends : ∀ s, (body s).exit ≠ .diverged)
    (lowers : ∀ s, (body s).exit = .returned true → measure (body s).state < measure s)
    (bound : ℕ) (s : σ) (enough : measure s < bound) :
    (loop body bound s).exit ≠ .diverged := by
  obtain ⟨passes, few, ended⟩ := ends_of_measure body measure ends lowers s
  exact ended.loop_exit_ne_diverged (by omega)

/-- A loop that ends within its bound ends as its last pass does, from a state with every
property that the passes before it keep. -/
theorem loop_last {body : σ → Outcome σ ω Bool} {I : σ → Prop}
    (kept : ∀ s, I s → (body s).exit = .returned true → I (body s).state) {bound : ℕ} {s : σ}
    (start : I s) (ended : (loop body bound s).exit ≠ .diverged) :
    ∃ last, I last ∧ (body last).exit ≠ .returned true ∧
      (loop body bound s).exit = (body last).exit.map (fun _ => ()) ∧
      (loop body bound s).state = (body last).state := by
  induction bound generalizing s with
  | zero => exact absurd rfl ended
  | succ bound ih =>
      unfold loop bind at ended ⊢
      split at ended
      case h_1 again returned =>
          cases again with
          | false => exact ⟨s, start, by simp [returned], by simp [returned, Exit.map], rfl⟩
          | true => exact ih (kept s start returned) ended
      case h_2 thrown =>
          exact ⟨s, start, by simp [thrown], by simp [thrown, Exit.map], rfl⟩
      case h_3 undefined =>
          exact ⟨s, start, by simp [undefined], by simp [undefined, Exit.map], rfl⟩
      case h_4 => exact absurd rfl ended

end Outcome

end Machine

end CppRaft
