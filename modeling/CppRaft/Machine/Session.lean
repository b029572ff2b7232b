import Mathlib.Logic.Relation
import CppRaft.Machine.Bytes

/-!
# Programs that talk over a byte stream

A session is a program that reads blocks from one end of a connection and writes
to it. It is run against a given input, or against a second session over two
streams that deliver every byte once and in order. The order in which two sessions
take their turns does not matter: steps of the two sides commute, so that all
schedules lead to the one outcome that any of them reaches.
-/

namespace CppRaft

namespace Machine

/-- A program over a connection. `undefined` is an action that the language does not define. -/
inductive Session (α : Type) where
  | done (result : α)
  | undefined
  | read (n : ℕ) (next : Block n → Session α)
  | write (bytes : List UInt8) (next : Session α)

/-- What is left when a session ends: its result, what it wrote and what it did not read. -/
@[ext] structure Ending (α : Type) where
  result : α
  written : List UInt8
  unread : List UInt8

namespace Session

variable {α β : Type}

/-- Run a second session on the result of the first. -/
def bind : Session α → (α → Session β) → Session β
  | done result, after => after result
  | undefined, _ => undefined
  | read n next, after => read n fun block => (next block).bind after
  | write bytes next, after => write bytes (next.bind after)

instance : Monad Session where
  pure := done
  bind := bind

@[simp] theorem done_bind (a : α) (after : α → Session β) : done a >>= after = after a := rfl

@[simp] theorem read_bind (n : ℕ) (next : Block n → Session α) (after : α → Session β) :
    read n next >>= after = read n fun block => next block >>= after := rfl

@[simp] theorem write_bind (bytes : List UInt8) (next : Session α) (after : α → Session β) :
    write bytes next >>= after = write bytes (next >>= after) := rfl

/-- Run a session on an input; a read that the input does not satisfy does not end. -/
def runOn : Session α → List UInt8 → Option (Ending α)
  | done result, input => some ⟨result, [], input⟩
  | undefined, _ => none
  | read n next, input =>
      if enough : n ≤ input.length then
        (next ⟨input.take n, List.length_take_of_le enough⟩).runOn (input.drop n)
      else none
  | write bytes next, input =>
      (next.runOn input).map fun ending => { ending with written := bytes ++ ending.written }

@[simp] theorem runOn_done (a : α) (input : List UInt8) :
    (done a).runOn input = some ⟨a, [], input⟩ := rfl

@[simp] theorem runOn_undefined (input : List UInt8) :
    (undefined : Session α).runOn input = none := rfl

/-- A block that is first on the input is read. -/
theorem runOn_read {n : ℕ} (next : Block n → Session α) (block : Block n) (rest : List UInt8) :
    (read n next).runOn (block.bytes ++ rest) = (next block).runOn rest := by
  rw [runOn, dif_pos (block.le_length_append rest), block.take_append, List.drop_left' block.sized]

/-- A sequence of sessions reads and writes what the first does and then what the second
does on the bytes that are left. -/
theorem runOn_bind (program : Session α) (after : α → Session β) (input : List UInt8) :
    (program >>= after).runOn input =
      (program.runOn input).bind fun ending =>
        ((after ending.result).runOn ending.unread).map fun last =>
          { last with written := ending.written ++ last.written } := by
  induction program generalizing input with
  | done result => simp
  | undefined => rfl
  | read n next ih =>
      rw [read_bind, runOn, runOn]
      split
      · exact ih _ _
      · rfl
  | write bytes next ih =>
      rw [write_bind, runOn, runOn, ih, Option.bind_map, Option.map_bind]
      simp [Function.comp_def]

/-- The session ends on the input and leaves exactly the given part of it. -/
def Leaves (program : Session α) (input unread : List UInt8) : Prop :=
  ∃ result written, program.runOn input = some ⟨result, written, unread⟩

@[simp] theorem leaves_done (a : α) (input unread : List UInt8) :
    (done a).Leaves input unread ↔ input = unread := by
  simp [Leaves]

@[simp] theorem not_leaves_undefined (input unread : List UInt8) :
    ¬(undefined : Session α).Leaves input unread := by
  simp [Leaves]

/-- A read takes a block from the front of the input. -/
theorem leaves_read {n : ℕ} (next : Block n → Session α) (block : Block n)
    (input unread : List UInt8) :
    (read n next).Leaves (block.bytes ++ input) unread ↔ (next block).Leaves input unread := by
  rw [Leaves, runOn_read, Leaves]

/-- A last read leaves what is behind the block. -/
theorem leaves_read_done {n : ℕ} (result : Block n → α) (input unread : List UInt8) :
    (read n fun block => done (result block)).Leaves input unread ↔
      n ≤ input.length ∧ input.drop n = unread := by
  rw [Leaves, runOn]
  by_cases enough : n ≤ input.length <;> simp [enough]

/-- Computing on the result does not read. -/
@[simp] theorem leaves_bind_done (program : Session α) (f : α → β) (input unread : List UInt8) :
    (program >>= fun a => done (f a)).Leaves input unread ↔ program.Leaves input unread := by
  rw [Leaves, Leaves, runOn_bind]
  cases program.runOn input with
  | none => simp
  | some ending => simp [Ending.ext_iff]

/-- The next action of a session that has this input: the session after it, the input it leaves
and what it writes. -/
def turn : Session α → List UInt8 → Option (Session α × List UInt8 × List UInt8)
  | write bytes next, input => some (next, input, bytes)
  | read n next, input =>
      if enough : n ≤ input.length then
        some (next ⟨input.take n, List.length_take_of_le enough⟩, input.drop n, [])
      else none
  | done _, _ => none
  | undefined, _ => none

/-- A side that reads goes on as soon as the block is there. -/
theorem turn_read {n : ℕ} (next : Block n → Session α) (block : Block n) (rest : List UInt8) :
    (read n next).turn (block.bytes ++ rest) = some (next block, rest, []) := by
  rw [turn, dif_pos (block.le_length_append rest), block.take_append, List.drop_left' block.sized]

/-- Input that arrives later does not change a turn that can be taken now, as input is only
taken from the front. -/
theorem turn_append {program after : Session α} {input rest output : List UInt8}
    (taken : program.turn input = some (after, rest, output)) (more : List UInt8) :
    program.turn (input ++ more) = some (after, rest ++ more, output) := by
  cases program with
  | done result => cases taken
  | undefined => cases taken
  | write bytes next =>
      cases taken
      rfl
  | read n next =>
      rw [turn] at taken
      split at taken
      · rename_i enough
        cases taken
        have split : input ++ more = input.take n ++ (input.drop n ++ more) := by
          rw [← List.append_assoc, List.take_append_drop]
        rw [split]
        exact turn_read next ⟨input.take n, List.length_take_of_le enough⟩ _
      · cases taken

end Session

/-- Two sessions at the ends of a connection, with the bytes on their way to each side. -/
structure Exchange (α β : Type) where
  left : Session α
  right : Session β
  toRight : List UInt8 := []
  toLeft : List UInt8 := []

namespace Exchange

variable {α β : Type}

/-- One side takes its turn. -/
inductive Step : Exchange α β → Exchange α β → Prop where
  | left {x : Exchange α β} {after : Session α} {rest output : List UInt8} :
      x.left.turn x.toLeft = some (after, rest, output) →
      Step x ⟨after, x.right, x.toRight ++ output, rest⟩
  | right {x : Exchange α β} {after : Session β} {rest output : List UInt8} :
      x.right.turn x.toRight = some (after, rest, output) →
      Step x ⟨x.left, after, rest, x.toLeft ++ output⟩

/-- The states that the sides can reach. -/
def Reaches : Exchange α β → Exchange α β → Prop :=
  Relation.ReflTransGen Step

/-- No side can take a turn. -/
def Final (x : Exchange α β) : Prop :=
  x.left.turn x.toLeft = none ∧ x.right.turn x.toRight = none

/-- Two turns from one state lead to the same state, at once or after one more turn each.
The two sides only share channels, which each uses at its own end. -/
theorem Step.diamond {x y z : Exchange α β} (first : Step x y) (second : Step x z) :
    y = z ∨ ∃ w, Step y w ∧ Step z w := by
  cases first with
  | left taken =>
      cases second with
      | left taken' =>
          cases taken.symm.trans taken'
          exact Or.inl rfl
      | right taken' =>
          exact Or.inr
            ⟨_, .right (Session.turn_append taken' _), .left (Session.turn_append taken _)⟩
  | right taken =>
      cases second with
      | left taken' =>
          exact Or.inr
            ⟨_, .left (Session.turn_append taken' _), .right (Session.turn_append taken _)⟩
      | right taken' =>
          cases taken.symm.trans taken'
          exact Or.inl rfl

/-- Nothing happens after the end of an exchange. -/
theorem Final.not_step {x y : Exchange α β} (final : Final x) : ¬Step x y := by
  intro step
  cases step with
  | left taken => cases final.1.symm.trans taken
  | right taken => cases final.2.symm.trans taken

/-- A turn does not lose a final state. -/
theorem Reaches.of_step {x y f : Exchange α β} (reaches : Reaches x f) (final : Final f)
    (step : Step x y) : Reaches y f := by
  induction reaches using Relation.ReflTransGen.head_induction_on generalizing y with
  | refl => exact absurd step final.not_step
  | head turn rest ih =>
      rcases turn.diamond step with rfl | ⟨w, left, right⟩
      · exact rest
      · exact (ih left).head right

/-- All schedules lead to the final state that one of them reaches. -/
theorem Reaches.confluent {x y f : Exchange α β} (reaches : Reaches x f) (final : Final f)
    (other : Reaches x y) : Reaches y f := by
  induction other with
  | refl => exact reaches
  | tail _ step ih => exact ih.of_step final step

/-- An exchange has one end at most: the steps of the two sides commute, so the order in
which they are taken does not matter. -/
theorem Reaches.final_unique {x y f : Exchange α β} (reaches : Reaches x f) (final : Final f)
    (other : Reaches x y) (final' : Final y) : y = f := by
  rcases Relation.ReflTransGen.cases_head (reaches.confluent final other) with same | ⟨_, step, -⟩
  · exact same
  · exact absurd step final'.not_step

/-- A side that is done stays so. -/
theorem Reaches.left_done {x y : Exchange α β} (reaches : Reaches x y) {result : α}
    (done : x.left = .done result) : y.left = .done result := by
  induction reaches with
  | refl => exact done
  | tail _ step ih =>
      cases step with
      | left taken =>
          rw [ih] at taken
          cases taken
      | right => exact ih

/-- The same connection, seen from the other end. -/
def flip (x : Exchange α β) : Exchange β α :=
  ⟨x.right, x.left, x.toLeft, x.toRight⟩

/-- The two sides have the same rules. -/
theorem Reaches.flip {x y : Exchange α β} (reaches : Reaches x y) : Reaches x.flip y.flip := by
  induction reaches with
  | refl => exact .refl
  | tail _ step ih =>
      refine ih.tail ?_
      cases step with
      | left taken => exact .right taken
      | right taken => exact .left taken

section Turns

variable {γ : Type} {left : Session α} {right : Session β} {toRight toLeft bytes : List UInt8}
  {f : Exchange α β}

/-- The left side can always write. -/
theorem reaches_left_write (rest : Reaches ⟨left, right, toRight ++ bytes, toLeft⟩ f) :
    Reaches ⟨.write bytes left, right, toRight, toLeft⟩ f :=
  rest.head (.left rfl)

/-- The right side can always write. -/
theorem reaches_right_write (rest : Reaches ⟨left, right, toRight, toLeft ++ bytes⟩ f) :
    Reaches ⟨left, .write bytes right, toRight, toLeft⟩ f :=
  rest.head (.right rfl)

/-- The left side reads a block that is at the front of its channel. -/
theorem reaches_left_read {n : ℕ} {next : Block n → Session α} (block : Block n)
    (after : List UInt8) (front : toLeft = block.bytes ++ after)
    (rest : Reaches ⟨next block, right, toRight, after⟩ f) :
    Reaches ⟨.read n next, right, toRight, toLeft⟩ f := by
  subst front
  have taken := Step.left (x := ⟨.read n next, right, toRight, block.bytes ++ after⟩)
    (Session.turn_read next block after)
  rw [List.append_nil] at taken
  exact rest.head taken

/-- The right side reads a block that is at the front of its channel. -/
theorem reaches_right_read {n : ℕ} {next : Block n → Session β} (block : Block n)
    (after : List UInt8) (front : toRight = block.bytes ++ after)
    (rest : Reaches ⟨left, next block, after, toLeft⟩ f) :
    Reaches ⟨left, .read n next, toRight, toLeft⟩ f :=
  (reaches_left_read block after front rest.flip).flip

/-- What one side does by itself on the input it has, the two sides do together, and the
other side has the output then. -/
theorem reaches_left_bind {program : Session γ} (after : γ → Session α) {ending : Ending γ}
    (ran : program.runOn toLeft = some ending) :
    Reaches ⟨program >>= after, right, toRight, toLeft⟩
      ⟨after ending.result, right, toRight ++ ending.written, ending.unread⟩ := by
  induction program generalizing toRight toLeft ending with
  | done result =>
      cases ran
      rw [List.append_nil]
      exact .refl
  | undefined => cases ran
  | read n next ih =>
      rw [Session.runOn] at ran
      split at ran
      · rename_i enough
        exact reaches_left_read ⟨toLeft.take n, List.length_take_of_le enough⟩ _
          (List.take_append_drop n toLeft).symm (ih _ ran)
      · cases ran
  | write bytes next ih =>
      obtain ⟨inner, ran', rfl⟩ := Option.map_eq_some_iff.mp ran
      rw [← List.append_assoc]
      exact reaches_left_write (ih ran')

/-- What one side only reads changes nothing for the other. -/
theorem reaches_left_silent {program : Session γ} (after : γ → Session α) {result : γ}
    {unread : List UInt8} (ran : program.runOn toLeft = some ⟨result, [], unread⟩) :
    Reaches ⟨program >>= after, right, toRight, toLeft⟩ ⟨after result, right, toRight, unread⟩ := by
  have taken : Reaches ⟨program >>= after, right, toRight, toLeft⟩
      ⟨after result, right, toRight ++ [], unread⟩ := reaches_left_bind after ran
  rwa [List.append_nil] at taken

/-- A part of the right side that only reads can be run at once. -/
theorem reaches_right_silent {program : Session γ} (after : γ → Session β) {result : γ}
    {unread : List UInt8} (ran : program.runOn toRight = some ⟨result, [], unread⟩) :
    Reaches ⟨left, program >>= after, toRight, toLeft⟩ ⟨left, after result, unread, toLeft⟩ :=
  (reaches_left_silent after ran).flip

end Turns

end Exchange

end Machine

end CppRaft
