import CppRaft.Machine.Session

/-!
# Programs over a connection that can fail

A session says what a program does while its connection holds. A dialogue also says what it does
when a read comes short or a write is not taken. It is run over a link that delivers some bytes
and takes some bytes and then fails, so that a link fails at any point of a dialogue that its two
numbers allow. A dialogue that follows a session ends over every link that holds long enough as
the session does.
-/

namespace CppRaft

namespace Machine

/-- A program over a connection that can fail: the last argument of a read and of a write is what
it does if the connection does not carry it out. -/
inductive Dialogue (α : Type) where
  | done (result : α)
  | undefined
  | read (n : ℕ) (next : Block n → Dialogue α) (short : Dialogue α)
  | write (bytes : List UInt8) (next short : Dialogue α)

/-- What a connection delivers, and how many bytes it takes, before it fails. -/
@[ext] structure Link where
  input : List UInt8
  capacity : ℕ
  deriving DecidableEq, Repr

namespace Dialogue

variable {α β γ : Type}

/-- Run a second dialogue on the result of the first. -/
def bind : Dialogue α → (α → Dialogue β) → Dialogue β
  | done result, after => after result
  | undefined, _ => undefined
  | read n next short, after => read n (fun block => (next block).bind after) (short.bind after)
  | write bytes next short, after => write bytes (next.bind after) (short.bind after)

instance : Monad Dialogue where
  pure := done
  bind := bind

@[simp] theorem done_bind (a : α) (after : α → Dialogue β) : done a >>= after = after a := rfl

@[simp] theorem undefined_bind (after : α → Dialogue β) :
    (undefined : Dialogue α) >>= after = undefined := rfl

@[simp] theorem read_bind (n : ℕ) (next : Block n → Dialogue α) (short : Dialogue α)
    (after : α → Dialogue β) :
    read n next short >>= after = read n (fun block => next block >>= after) (short >>= after) :=
  rfl

@[simp] theorem write_bind (bytes : List UInt8) (next short : Dialogue α)
    (after : α → Dialogue β) :
    write bytes next short >>= after = write bytes (next >>= after) (short >>= after) := rfl

/-- Run a dialogue over a link. -/
def run : Dialogue α → Link → Option (α × Link)
  | done result, link => some (result, link)
  | undefined, _ => none
  | read n next short, link =>
      if enough : n ≤ link.input.length then
        (next ⟨link.input.take n, List.length_take_of_le enough⟩).run
          ⟨link.input.drop n, link.capacity⟩
      else short.run ⟨[], link.capacity⟩
  | write bytes next short, link =>
      if bytes.length ≤ link.capacity then
        next.run ⟨link.input, link.capacity - bytes.length⟩
      else short.run ⟨link.input, 0⟩

@[simp] theorem run_done (a : α) (link : Link) : (done a).run link = some (a, link) := rfl

@[simp] theorem run_undefined (link : Link) : (undefined : Dialogue α).run link = none := rfl

/-- A block that is first on the input is read. -/
theorem run_read {n : ℕ} (next : Block n → Dialogue α) (short : Dialogue α) (block : Block n)
    (rest : List UInt8) (capacity : ℕ) :
    (read n next short).run ⟨block.bytes ++ rest, capacity⟩ =
      (next block).run ⟨rest, capacity⟩ := by
  rw [run, dif_pos (block.le_length_append rest), block.take_append, List.drop_left' block.sized]

/-- Bytes that the link has room for are written. -/
theorem run_write {bytes : List UInt8} {capacity : ℕ} (room : bytes.length ≤ capacity)
    (next short : Dialogue α) (input : List UInt8) :
    (write bytes next short).run ⟨input, capacity⟩ =
      next.run ⟨input, capacity - bytes.length⟩ :=
  if_pos room

/-- A read ends with a block from the input, or it comes short. -/
theorem run_read_cases {n : ℕ} {next : Block n → Dialogue α} {short : Dialogue α}
    {input : List UInt8} {capacity : ℕ} {ended : α × Link}
    (runs : (read n next short).run ⟨input, capacity⟩ = some ended) :
    (∃ block rest, input = block.bytes ++ rest ∧
      (next block).run ⟨rest, capacity⟩ = some ended) ∨
    short.run ⟨[], capacity⟩ = some ended := by
  rw [run] at runs
  split at runs
  · exact Or.inl ⟨_, _, (List.take_append_drop n input).symm, runs⟩
  · exact Or.inr runs

/-- A write is taken whole, or it fails. -/
theorem run_write_cases {bytes : List UInt8} {next short : Dialogue α} {input : List UInt8}
    {capacity : ℕ} {ended : α × Link}
    (runs : (write bytes next short).run ⟨input, capacity⟩ = some ended) :
    (bytes.length ≤ capacity ∧ next.run ⟨input, capacity - bytes.length⟩ = some ended) ∨
    short.run ⟨input, 0⟩ = some ended := by
  rw [run] at runs
  split at runs
  · exact Or.inl ⟨‹_›, runs⟩
  · exact Or.inr runs

/-- A sequence of dialogues is run by running the second on the link that the first leaves. -/
theorem run_bind (program : Dialogue α) (after : α → Dialogue β) (link : Link) :
    (program >>= after).run link =
      (program.run link).bind fun ended => (after ended.1).run ended.2 := by
  induction program generalizing link with
  | done result => rfl
  | undefined => rfl
  | read n next short ihNext ihShort =>
      rw [read_bind, run, run]
      split
      · exact ihNext _ _
      · exact ihShort _
  | write bytes next short ihNext ihShort =>
      rw [write_bind, run, run]
      split
      · exact ihNext _
      · exact ihShort _

/-- Every result that a dialogue can end with, over whichever link, has the property. -/
def Ends (P : α → Prop) : Dialogue α → Prop
  | done result => P result
  | undefined => True
  | read _ next short => (∀ block, (next block).Ends P) ∧ short.Ends P
  | write _ next short => next.Ends P ∧ short.Ends P

/-- What all ends of a dialogue have in common holds of the result of a run, on any link. -/
theorem Ends.of_run {P : α → Prop} {program : Dialogue α} (ends : program.Ends P) {link rest : Link}
    {result : α} (ended : program.run link = some (result, rest)) : P result := by
  induction program generalizing link with
  | done value =>
      obtain ⟨rfl, rfl⟩ := Prod.ext_iff.mp (Option.some.inj ended)
      exact ends
  | undefined => cases ended
  | read n next short ihNext ihShort =>
      rw [run] at ended
      split at ended
      · exact ihNext _ (ends.1 _) ended
      · exact ihShort ends.2 ended
  | write bytes next short ihNext ihShort =>
      rw [run] at ended
      split at ended
      · exact ihNext ends.1 ended
      · exact ihShort ends.2 ended

/-- Every dialogue ends somehow. -/
theorem ends_true (program : Dialogue α) : program.Ends fun _ => True := by
  induction program with
  | done value => exact trivial
  | undefined => exact trivial
  | read n next short ihNext ihShort => exact ⟨ihNext, ihShort⟩
  | write bytes next short ihNext ihShort => exact ⟨ihNext, ihShort⟩

/-- The rule of composition for `Ends`: what the first part ensures may be used for the
second. -/
theorem Ends.bind {P : α → Prop} {Q : β → Prop} {program : Dialogue α} (ends : program.Ends P)
    {after : α → Dialogue β} (last : ∀ a, P a → (after a).Ends Q) :
    (program >>= after).Ends Q := by
  induction program with
  | done value => exact last value ends
  | undefined => exact trivial
  | read n next short ihNext ihShort =>
      exact ⟨fun block => ihNext block (ends.1 block), ihShort ends.2⟩
  | write bytes next short ihNext ihShort => exact ⟨ihNext ends.1, ihShort ends.2⟩

/-- The dialogue does what the session does as long as the connection holds, and ends with a
related result. -/
inductive Follows (R : α → β → Prop) : Session α → Dialogue β → Prop where
  | undefined (program : Dialogue β) : Follows R .undefined program
  | done {a : α} {b : β} (related : R a b) : Follows R (.done a) (.done b)
  | read {n : ℕ} {next : Block n → Session α} {next' : Block n → Dialogue β} {short : Dialogue β}
      (follows : ∀ block, Follows R (next block) (next' block)) :
      Follows R (.read n next) (.read n next' short)
  | write {bytes : List UInt8} {next : Session α} {next' short : Dialogue β}
      (follows : Follows R next next') : Follows R (.write bytes next) (.write bytes next' short)

/-- Over a link that delivers what the session reads and takes what it writes, the dialogue ends
as the session does. -/
theorem Follows.run {R : α → β → Prop} {session : Session α} {program : Dialogue β}
    (follows : Follows R session program) {link : Link} {ending : Ending α}
    (ended : session.runOn link.input = some ending)
    (taken : ending.written.length ≤ link.capacity) :
    ∃ b, R ending.result b ∧
      program.run link = some (b, ⟨ending.unread, link.capacity - ending.written.length⟩) := by
  induction follows generalizing link ending with
  | undefined program => cases ended
  | done related =>
      cases ended
      exact ⟨_, related, rfl⟩
  | read follows ih =>
      rw [Session.runOn] at ended
      split at ended
      · rename_i enough
        rw [Dialogue.run, dif_pos enough]
        exact ih _ ended taken
      · cases ended
  | @write bytes next next' short follows ih =>
      rw [Session.runOn, Option.map_eq_some_iff] at ended
      obtain ⟨last, ended, rfl⟩ := ended
      rw [List.length_append] at taken
      have room : last.written.length ≤ link.capacity - bytes.length := by omega
      obtain ⟨b, related, runs⟩ :=
        @ih ⟨link.input, link.capacity - bytes.length⟩ last ended room
      refine ⟨b, related, ?_⟩
      rw [Dialogue.run, if_pos (by omega), runs, List.length_append, Nat.sub_sub]

/-- The rule of composition for `Follows`: a dialogue follows a session part by part. -/
theorem Follows.bind {R : α → β → Prop} {δ : Type} {Q : γ → δ → Prop} {session : Session α}
    {program : Dialogue β} (follows : Follows R session program) {after : α → Session γ}
    {after' : β → Dialogue δ} (last : ∀ a b, R a b → Follows Q (after a) (after' b)) :
    Follows Q (session >>= after) (program >>= after') := by
  induction follows with
  | undefined program => exact .undefined _
  | done related => exact last _ _ related
  | read follows ih => exact .read ih
  | write follows ih => exact .write ih

/-- Two dialogues that read and write the same, whatever they are sent, and end with related
results. -/
inductive Alike (R : α → β → Prop) : Dialogue α → Dialogue β → Prop where
  | undefined : Alike R .undefined .undefined
  | done {a : α} {b : β} (related : R a b) : Alike R (.done a) (.done b)
  | read {n : ℕ} {next : Block n → Dialogue α} {next' : Block n → Dialogue β}
      {short : Dialogue α} {short' : Dialogue β}
      (goesOn : ∀ block, Alike R (next block) (next' block))
      (stops : Alike R short short') : Alike R (.read n next short) (.read n next' short')
  | write {bytes : List UInt8} {next short : Dialogue α} {next' short' : Dialogue β}
      (goesOn : Alike R next next') (stops : Alike R short short') :
      Alike R (.write bytes next short) (.write bytes next' short')

/-- A dialogue is like itself, up to a reflexive relation of results. -/
theorem Alike.refl {R : α → α → Prop} (reflexive : ∀ a, R a a) (program : Dialogue α) :
    Alike R program program := by
  induction program with
  | done a => exact .done (reflexive a)
  | undefined => exact .undefined
  | read n next short ihNext ihShort => exact .read ihNext ihShort
  | write bytes next short ihNext ihShort => exact .write ihNext ihShort

/-- The rule of composition for `Alike`: dialogues that are alike part by part are alike. -/
theorem Alike.bind {R : α → β → Prop} {δ : Type} {Q : γ → δ → Prop} {program : Dialogue α}
    {program' : Dialogue β} (alike : Alike R program program') {after : α → Dialogue γ}
    {after' : β → Dialogue δ} (last : ∀ a b, R a b → Alike Q (after a) (after' b)) :
    Alike Q (program >>= after) (program' >>= after') := by
  induction alike with
  | undefined => exact .undefined
  | done related => exact last _ _ related
  | read goesOn stops ihNext ihShort => exact .read ihNext ihShort
  | write goesOn stops ihNext ihShort => exact .write ihNext ihShort

/-- Over one link, alike dialogues end alike and leave the same of it: they ask the same of
the link at every point. -/
theorem Alike.run {R : α → β → Prop} {program : Dialogue α} {program' : Dialogue β}
    (alike : Alike R program program') (link : Link) :
    Option.Rel (fun ended ended' => R ended.1 ended'.1 ∧ ended.2 = ended'.2) (program.run link)
      (program'.run link) := by
  induction alike generalizing link with
  | undefined => exact .none
  | done related => exact .some ⟨related, rfl⟩
  | read goesOn stops ihNext ihShort =>
      rw [Dialogue.run, Dialogue.run]
      split
      · exact ihNext _ _
      · exact ihShort _
  | write goesOn stops ihNext ihShort =>
      rw [Dialogue.run, Dialogue.run]
      split
      · exact ihNext _
      · exact ihShort _

end Dialogue

end Machine

end CppRaft
