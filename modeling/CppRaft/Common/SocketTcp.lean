import CppRaft.Machine.Dialogue
import CppRaft.Machine.Effect

/-!
# Writing to a socket

`SocketTCP::writeC` calls `::send` until the whole buffer is accepted, an error is reported, or the
socket would block once too often. One counter counts the calls that made progress and those that
did not.

The counter is an `int`: a buffer of almost `2 ^ 31` bytes that is accepted byte by byte takes it
beyond the largest one, where the language leaves its value open. The value is a parameter here,
and nothing depends on it.
-/

namespace CppRaft

namespace Common

open Machine

/-- `_SOCKET_TIMEOUT_`. -/
def socketTimeout : Int := -2001

/-- `E_SEND`. -/
def eSend : Int := -29

/-- `MAX_NUMBER_OF_ITERS`. -/
def maxNumberOfIters : Int := 100000

/-- What a call of `::send` reports: the number of bytes it accepted, that it would block, or
another error. -/
inductive SendResult where
  | sent (n : ℕ)
  | wouldBlock
  | failed
  deriving DecidableEq, Repr

/-- A socket: what its calls of `::send` report, each for the length it is asked to send. -/
structure Sends where
  report : (call requested : ℕ) → SendResult
  progress : ∀ {call requested n}, 0 < requested → report call requested = .sent n →
    1 ≤ n ∧ n ≤ requested

/-- The number of bytes that a call accepted. -/
def SendResult.count : SendResult → ℕ
  | sent n => n
  | wouldBlock => 0
  | failed => 0

/-- How many bytes the calls of `::send` before this one report as accepted, if each call asks for
what is left of the `size` bytes. -/
def Sends.accepted (sends : Sends) (size : ℕ) : ℕ → ℕ
  | 0 => 0
  | call + 1 =>
      sends.accepted size call +
        (sends.report call (size - sends.accepted size call)).count

/-- What this call of `::send` reports, if it asks for what is left. -/
def Sends.reportAt (sends : Sends) (size call : ℕ) : SendResult :=
  sends.report call (size - sends.accepted size call)

/-- A call whose report `writeC` goes on after: there was something left to send, and no error but
that the socket would block. -/
def Sends.GoesOn (sends : Sends) (size call : ℕ) : Prop :=
  sends.accepted size call < size ∧ sends.reportAt size call ≠ .failed

/-- A call whose report makes `writeC` return the code: an error, or a socket that would block once
too often. -/
def Sends.GivesUp (sends : Sends) (size call : ℕ) (code : Int) : Prop :=
  sends.reportAt size call = .failed ∧ code = eSend ∨
    sends.reportAt size call = .wouldBlock ∧ maxNumberOfIters ≤ call ∧ code = socketTimeout

/-- The variables of `writeC`, the number of calls of `::send` so far, and the value of a `return`
from within the loop. -/
structure Writing where
  i : Int := 0
  cp : ℕ := 0
  lenToWrite : Int
  lenWrote : Int := 0
  calls : ℕ := 0
  returned : Option Int := none
  deriving DecidableEq, Repr

/-- `++i`. -/
def increment (overflow i : Int) : Int :=
  if i < 2 ^ 31 - 1 then i + 1 else overflow

section Write

variable (sends : Sends) (overflow : Int) (buffer : List UInt8)

/-- One pass of the loop; it emits the bytes that `::send` accepts. Sending bytes from outside the
buffer is undefined. -/
def writePass (s : Writing) : Outcome Writing UInt8 Bool :=
  if 0 < s.lenToWrite then
    if s.cp + s.lenToWrite ≤ buffer.length then
      match sends.report s.calls s.lenToWrite.toNat with
      | .sent n =>
          ⟨.returned true,
            { s with
              i := increment overflow s.i
              cp := s.cp + n
              lenToWrite := s.lenToWrite - n
              lenWrote := s.lenWrote + n
              calls := s.calls + 1 },
            (buffer.drop s.cp).take n⟩
      | .wouldBlock =>
          if s.i < maxNumberOfIters then
            ⟨.returned true, { s with i := increment overflow s.i, calls := s.calls + 1 }, []⟩
          else ⟨.returned false, { s with returned := some socketTimeout }, []⟩
      | .failed => ⟨.returned false, { s with returned := some eSend }, []⟩
    else ⟨.undefined, s, []⟩
  else ⟨.returned false, s, []⟩

/-- `writeC`, with at most `bound` passes of its loop. -/
def writeC (size : Int) (bound : ℕ) : Outcome Writing UInt8 Int :=
  (Outcome.loop (writePass sends overflow buffer) bound { lenToWrite := size }).bind fun _ s =>
    (Effect.done s).returning (s.returned.getD s.lenWrote)

end Write

/-- Between two passes the bytes before `cp` have been accepted, by the reports, and the others are
left. -/
structure Writing.Split (sends : Sends) (size : Int) (s : Writing) : Prop where
  left : s.lenToWrite = size - s.cp
  wrote : s.lenWrote = s.cp
  inside : s.cp ≤ size
  running : s.returned = none
  counted : s.cp = sends.accepted size.toNat s.calls
  index : s.i = s.calls ∨ 2 ^ 31 - 1 ≤ (s.calls : Int)
  asked : ∀ call < s.calls, sends.GoesOn size.toNat call

/-- How often the loop may still find that the socket would block. -/
def retries (i : Int) : ℕ :=
  (maxNumberOfIters - i).toNat

section Passes

variable {sends : Sends} {overflow : Int} {buffer : List UInt8} {s : Writing}

/-- A pass that continues has made progress, or had to wait and may do so once less. -/
theorem writePass_continues
    (continues : (writePass sends overflow buffer s).exit = .returned true) :
    0 < s.lenToWrite ∧ ((∃ n, 1 ≤ n ∧ n ≤ s.lenToWrite.toNat ∧
      sends.report s.calls s.lenToWrite.toNat = .sent n ∧
      (writePass sends overflow buffer s).state =
        { s with
          i := increment overflow s.i
          cp := s.cp + n
          lenToWrite := s.lenToWrite - n
          lenWrote := s.lenWrote + n
          calls := s.calls + 1 }) ∨
      s.i < maxNumberOfIters ∧ sends.report s.calls s.lenToWrite.toNat = .wouldBlock ∧
      (writePass sends overflow buffer s).state =
        { s with i := s.i + 1, calls := s.calls + 1 }) := by
  by_cases left : 0 < s.lenToWrite
  · refine ⟨left, ?_⟩
    by_cases inside : s.cp + s.lenToWrite ≤ buffer.length
    · cases report : sends.report s.calls s.lenToWrite.toNat with
      | sent n =>
          obtain ⟨some, most⟩ := sends.progress (by omega) report
          refine .inl ⟨n, some, most, rfl, ?_⟩
          simp only [writePass, if_pos left, if_pos inside, report]
      | wouldBlock =>
          by_cases again : s.i < maxNumberOfIters
          · have small : s.i < 2 ^ 31 - 1 := Int.lt_trans again (by decide)
            refine .inr ⟨again, rfl, ?_⟩
            simp only [writePass, if_pos left, if_pos inside, report, if_pos again, increment,
              if_pos small]
          · simp [writePass, left, inside, report, again] at continues
      | failed => simp [writePass, left, inside, report] at continues
    · simp [writePass, left, inside] at continues
  · simp [writePass, left] at continues

/-- A pass that leaves the loop has nothing left to write, or returns a code for what `::send`
reports. -/
theorem writePass_stops (inside : s.cp + s.lenToWrite ≤ buffer.length)
    (stops : (writePass sends overflow buffer s).exit ≠ .returned true) :
    (writePass sends overflow buffer s).exit = .returned false ∧
      (s.lenToWrite ≤ 0 ∧ (writePass sends overflow buffer s).state = s ∨
        0 < s.lenToWrite ∧ ∃ code, (writePass sends overflow buffer s).state =
          { s with returned := some code } ∧
          (sends.report s.calls s.lenToWrite.toNat = .failed ∧ code = eSend ∨
            sends.report s.calls s.lenToWrite.toNat = .wouldBlock ∧ maxNumberOfIters ≤ s.i ∧
              code = socketTimeout)) := by
  by_cases left : 0 < s.lenToWrite
  · cases report : sends.report s.calls s.lenToWrite.toNat with
    | sent n => simp [writePass, left, inside, report] at stops
    | wouldBlock =>
        by_cases again : s.i < maxNumberOfIters
        · simp [writePass, left, inside, report, again] at stops
        · refine ⟨?_, .inr ⟨left, socketTimeout, ?_, .inr ⟨rfl, Int.not_lt.mp again, rfl⟩⟩⟩ <;>
            simp only [writePass, if_pos left, if_pos inside, report, if_neg again]
    | failed =>
        refine ⟨?_, .inr ⟨left, eSend, ?_, .inl ⟨rfl, rfl⟩⟩⟩ <;>
          simp only [writePass, if_pos left, if_pos inside, report]
  · refine ⟨?_, .inl ⟨Int.not_lt.mp left, ?_⟩⟩ <;> simp only [writePass, if_neg left]

/-- A pass of the loop has no loop of its own. -/
theorem writePass_exit_ne_diverged : (writePass sends overflow buffer s).exit ≠ .diverged := by
  unfold writePass
  repeat' split
  all_goals exact fun diverged => by cases diverged

/-- A pass emits the bytes that its pointer moves over. -/
theorem writePass_emitted :
    s.cp ≤ (writePass sends overflow buffer s).state.cp ∧
      (writePass sends overflow buffer s).emitted =
        (buffer.drop s.cp).take ((writePass sends overflow buffer s).state.cp - s.cp) := by
  have still : (buffer.drop s.cp).take (s.cp - s.cp) = [] := by
    rw [Nat.sub_self, List.take_zero]
  unfold writePass
  split
  · split
    · split
      · refine ⟨Nat.le_add_right _ _, ?_⟩
        rw [Nat.add_sub_cancel_left]
      · split
        · exact ⟨Nat.le_refl _, still.symm⟩
        · exact ⟨Nat.le_refl _, still.symm⟩
      · exact ⟨Nat.le_refl _, still.symm⟩
    · exact ⟨Nat.le_refl _, still.symm⟩
  · exact ⟨Nat.le_refl _, still.symm⟩

/-- The call of a pass is for what the reports leave. -/
theorem Writing.Split.reportAt {size : Int} (split : s.Split sends size) :
    sends.reportAt size.toNat s.calls = sends.report s.calls s.lenToWrite.toNat := by
  have same : size.toNat - sends.accepted size.toNat s.calls = s.lenToWrite.toNat := by
    rw [← split.counted, split.left]
    omega
  rw [Sends.reportAt, same]

/-- One more call was asked for what was left, and reports no error. -/
theorem Writing.Split.asked_succ {size : Int} (split : s.Split sends size)
    (left : 0 < s.lenToWrite) (report : sends.report s.calls s.lenToWrite.toNat ≠ .failed) :
    ∀ call < s.calls + 1, sends.GoesOn size.toNat call := by
  intro call before
  rcases Nat.lt_succ_iff_lt_or_eq.mp before with earlier | rfl
  · exact split.asked call earlier
  · refine ⟨?_, split.reportAt ▸ report⟩
    have counted := split.counted
    have rest := split.left
    omega

/-- A pass that continues keeps the split. -/
theorem Writing.Split.writePass {size : Int} (split : s.Split sends size)
    (continues : (writePass sends overflow buffer s).exit = .returned true) :
    (writePass sends overflow buffer s).state.Split sends size := by
  have same := split.reportAt
  have asked := split.asked_succ
  obtain ⟨left, wrote, inside, running, counted, index, -⟩ := split
  obtain ⟨some, ⟨n, -, most, report, after⟩ | ⟨again, report, after⟩⟩ :=
    writePass_continues continues
  · rw [after]
    rw [report] at same
    refine ⟨?_, ?_, ?_, running, ?_, ?_, asked some (by rw [report]; nofun)⟩
    · show s.lenToWrite - n = size - ((s.cp + n : ℕ) : Int)
      omega
    · show s.lenWrote + n = ((s.cp + n : ℕ) : Int)
      omega
    · show ((s.cp + n : ℕ) : Int) ≤ size
      omega
    · show s.cp + n = sends.accepted size.toNat s.calls + (sends.reportAt size.toNat s.calls).count
      rw [same, counted]
      rfl
    · show increment overflow s.i = ((s.calls + 1 : ℕ) : Int) ∨ _ ≤ ((s.calls + 1 : ℕ) : Int)
      unfold increment
      split <;> omega
  · rw [after]
    rw [report] at same
    refine ⟨left, wrote, inside, running, ?_, ?_, asked some (by rw [report]; nofun)⟩
    · show s.cp = sends.accepted size.toNat s.calls + (sends.reportAt size.toNat s.calls).count
      rw [same, counted]
      rfl
    · show s.i + 1 = ((s.calls + 1 : ℕ) : Int) ∨ _ ≤ ((s.calls + 1 : ℕ) : Int)
      omega

/-- Bytes left to write and retries left, in this order. -/
def Writing.measure (overflow : Int) (s : Writing) : ℕ :=
  s.lenToWrite.toNat * (retries overflow + 1) + retries s.i

/-- What the counter becomes brings no more retries than it had, or than the value after an
overflow has. -/
theorem retries_increment (overflow i : Int) :
    retries (increment overflow i) ≤ max (retries overflow) (retries i) := by
  unfold increment
  split
  · refine Nat.le_trans ?_ (Nat.le_max_right _ _)
    unfold retries
    omega
  · exact Nat.le_max_left _ _

/-- A pass that continues lowers the measure. -/
theorem measure_writePass (continues : (writePass sends overflow buffer s).exit = .returned true) :
    (writePass sends overflow buffer s).state.measure overflow < s.measure overflow := by
  obtain ⟨left, ⟨n, some, most, -, after⟩ | ⟨again, -, after⟩⟩ := writePass_continues continues
  · have fewer : (s.lenToWrite - n).toNat + 1 ≤ s.lenToWrite.toNat := by omega
    have product := Nat.mul_le_mul_right (retries overflow + 1) fewer
    have room := retries_increment overflow s.i
    rw [after]
    show (s.lenToWrite - n).toNat * (retries overflow + 1) + retries (increment overflow s.i) <
      s.lenToWrite.toNat * (retries overflow + 1) + retries s.i
    rw [Nat.succ_mul] at product
    generalize (s.lenToWrite - n).toNat * (retries overflow + 1) = small at product ⊢
    generalize s.lenToWrite.toNat * (retries overflow + 1) = large at product ⊢
    omega
  · rw [after]
    refine Nat.add_lt_add_left ?_ _
    show retries (s.i + 1) < retries s.i
    unfold retries
    omega

end Passes

/-- The bytes emitted are those that the pointer moved over. -/
def Writing.Moved (buffer : List UInt8) (s : Writing) (emitted : List UInt8) (s' : Writing) :
    Prop :=
  s.cp ≤ s'.cp ∧ emitted = (buffer.drop s.cp).take (s'.cp - s.cp)

/-- Passes can be made one after the other. -/
theorem Writing.Moved.composes (buffer : List UInt8) : Composes (Writing.Moved buffer) where
  refl s := ⟨Nat.le_refl _, by rw [Nat.sub_self, List.take_zero]⟩
  trans := by
    rintro s s' s'' first second ⟨before, rfl⟩ ⟨after, rfl⟩
    refine ⟨Nat.le_trans before after, ?_⟩
    have whole : s''.cp - s.cp = (s'.cp - s.cp) + (s''.cp - s'.cp) := by omega
    rw [whole, List.take_add, List.drop_drop, Nat.add_sub_cancel' before]

/-- How `writeC` ends: with everything accepted and the size, or with less and the code for the
report that made it give up. -/
theorem writeC_ends (sends : Sends) (overflow : Int) {buffer : List UInt8} {size : Int}
    (nonneg : 0 ≤ size) (fits : size ≤ buffer.length) {bound : ℕ}
    (enough : ({ lenToWrite := size } : Writing).measure overflow < bound) :
    ∃ code calls, (writeC sends overflow buffer size bound).exit = .returned code ∧
      (writeC sends overflow buffer size bound).state.calls = calls ∧
      (writeC sends overflow buffer size bound).emitted =
        buffer.take (sends.accepted size.toNat calls) ∧
      (∀ call < calls, sends.GoesOn size.toNat call) ∧
      (sends.accepted size.toNat calls = size.toNat ∧ code = size ∨
        sends.accepted size.toNat calls < size.toNat ∧ sends.GivesUp size.toNat calls code) := by
  let start : Writing := { lenToWrite := size }
  let loop := Outcome.loop (writePass sends overflow buffer) bound start
  have ended : loop.exit ≠ .diverged :=
    Outcome.loop_exit_ne_diverged _ (Writing.measure overflow)
      (fun _ => writePass_exit_ne_diverged) (fun _ => measure_writePass) bound start enough
  have whole : start.Split sends size :=
    ⟨(Int.sub_zero size).symm, rfl, nonneg, rfl, rfl, .inl rfl, fun _ before => nomatch before⟩
  obtain ⟨last, split, stops, exit, state⟩ :=
    Outcome.loop_last (fun s kept => Writing.Split.writePass kept) whole ended
  have same := split.reportAt
  obtain ⟨left, wrote, inside, running, counted, index, asked⟩ := split
  obtain ⟨stopped, ending⟩ := writePass_stops (by omega) stops
  have emitted : loop.emitted = buffer.take loop.state.cp :=
    (Outcome.loop_composes (Writing.Moved.composes buffer) _ (fun _ => writePass_emitted) bound
      start).2
  have result : writeC sends overflow buffer size bound =
      ⟨.returned (loop.state.returned.getD loop.state.lenWrote), loop.state,
        buffer.take loop.state.cp⟩ := by
    rw [stopped] at exit
    rw [writeC, Outcome.bind, exit, ← emitted]
    exact congrArg (Outcome.mk _ _) (List.append_nil _)
  have final : loop.state = (writePass sends overflow buffer last).state := state
  -- the pass that leaves the loop makes no further call that is counted
  have unmoved : loop.state.cp = last.cp ∧ loop.state.calls = last.calls := by
    rw [final]
    rcases ending with ⟨-, after⟩ | ⟨-, code, after, -⟩ <;> rw [after] <;> exact ⟨rfl, rfl⟩
  refine ⟨_, last.calls, congrArg Outcome.exit result, ?_, ?_, asked, ?_⟩
  · rw [result]
    exact unmoved.2
  · rw [result, ← counted, unmoved.1]
  · rw [← counted, final]
    rcases ending with ⟨none, after⟩ | ⟨some, code, after, report⟩
    · refine .inl ⟨by omega, ?_⟩
      rw [after, running, Option.getD_none]
      omega
    · refine .inr ⟨by omega, ?_⟩
      rw [after, Sends.GivesUp, same]
      rcases report with failed | ⟨blocked, often, rfl⟩
      · exact .inl failed
      · refine .inr ⟨blocked, ?_, rfl⟩
        have limit : maxNumberOfIters = 100000 := rfl
        omega

/-- The codes of an error are negative. -/
theorem Sends.GivesUp.neg {sends : Sends} {size call : ℕ} {code : Int}
    (up : sends.GivesUp size call code) : code < 0 := by
  rcases up with ⟨-, rfl⟩ | ⟨-, -, rfl⟩ <;> decide

/-- The writes of a dialogue are calls of `writeC`: over a link that takes the bytes that `::send`
accepts, a dialogue goes on as the returned value says. -/
theorem run_write_eq_writeC {α : Type} (sends : Sends) (overflow : Int) (buffer : List UInt8)
    (next short : Dialogue α) (input : List UInt8) {bound : ℕ}
    (enough : ({ lenToWrite := buffer.length } : Writing).measure overflow < bound) :
    (Dialogue.write buffer next short).run
        ⟨input, (writeC sends overflow buffer buffer.length bound).emitted.length⟩ =
      if (writeC sends overflow buffer buffer.length bound).exit = .returned (buffer.length : Int)
      then next.run ⟨input, 0⟩ else short.run ⟨input, 0⟩ := by
  obtain ⟨code, calls, exit, -, emitted, -, ending⟩ :=
    writeC_ends sends overflow (Int.natCast_nonneg _) (Int.le_refl _) enough
  rw [Int.toNat_natCast] at emitted ending
  generalize sends.accepted buffer.length calls = cp at emitted ending
  have accepted : (buffer.take cp).length = min cp buffer.length := List.length_take
  rw [emitted, exit]
  rcases ending with ⟨whole, rfl⟩ | ⟨less, up⟩
  · have all : (buffer.take cp).length = buffer.length := by omega
    rw [all, Dialogue.run_write (Nat.le_refl _), if_pos rfl, Nat.sub_self]
  · have few : ¬ buffer.length ≤ (buffer.take cp).length := by omega
    have negative := up.neg
    have other : Exit.returned code ≠ Exit.returned (buffer.length : Int) := by
      rintro ⟨⟩
      omega
    rw [Dialogue.run, if_neg few, if_neg other]

/-- For every buffer, size and sequence of reports of `::send` the loop ends. Each of its calls
asks for what the reports before it leave, and none comes after an error or after the whole size
was accepted. The bytes that went out are the first ones of the buffer, as many as the reports
say. The size is returned exactly if the reports add up to it; otherwise the code is negative, and
it is that of the report that ended the loop. -/
theorem writeC_sends_in_order (sends : Sends) (overflow : Int) (buffer : List UInt8) (size : Int)
    (nonneg : 0 ≤ size) (fits : size ≤ buffer.length) :
    ∃ enough, ∀ bound ≥ enough, ∃ code calls,
      (writeC sends overflow buffer size bound).exit = .returned code ∧
      (writeC sends overflow buffer size bound).state.calls = calls ∧
      (∀ call < calls, sends.GoesOn size.toNat call) ∧
      (writeC sends overflow buffer size bound).emitted =
        buffer.take (sends.accepted size.toNat calls) ∧
      (writeC sends overflow buffer size bound).emitted <+: buffer.take size.toNat ∧
      (code = size ↔ sends.accepted size.toNat calls = size.toNat) ∧
      (sends.accepted size.toNat calls ≠ size.toNat →
        code < 0 ∧ sends.GivesUp size.toNat calls code) := by
  refine ⟨({ lenToWrite := size } : Writing).measure overflow + 1, fun bound enough => ?_⟩
  obtain ⟨code, calls, exit, called, emitted, asked, ending⟩ :=
    writeC_ends sends overflow nonneg fits enough
  refine ⟨code, calls, exit, called, asked, emitted, ?_⟩
  rw [emitted]
  rcases ending with ⟨whole, rfl⟩ | ⟨less, up⟩
  · rw [whole]
    exact ⟨List.prefix_rfl, iff_of_true rfl rfl, fun different => absurd rfl different⟩
  · have negative := up.neg
    refine ⟨List.take_prefix_take_left (Nat.le_of_lt less), iff_of_false ?_ (Nat.ne_of_lt less),
      fun _ => ⟨negative, up⟩⟩
    omega

/-- A socket that blocks before each of its first calls and takes two bytes at a time. -/
def stutter : Sends where
  report call requested :=
    if call % 2 = 0 then .wouldBlock else .sent (min 2 requested)
  progress := by
    intro call requested n positive report
    split at report
    · cases report
    · cases report
      omega

theorem stutter_reportAt_ne_failed (size call : ℕ) : stutter.reportAt size call ≠ .failed := by
  show (if call % 2 = 0 then SendResult.wouldBlock else _) ≠ _
  split <;> nofun

/-- It accepts three bytes in four calls, and their number is returned. -/
theorem writeC_sends_in_order_stutter :
    ∃ enough, ∀ bound ≥ enough,
      (writeC stutter 0 [1, 2, 3] 3 bound).exit = .returned 3 ∧
      (writeC stutter 0 [1, 2, 3] 3 bound).emitted = [1, 2, 3] := by
  obtain ⟨enough, ends⟩ := writeC_sends_in_order stutter 0 [1, 2, 3] 3 (by decide) (by decide)
  refine ⟨enough, fun bound large => ?_⟩
  obtain ⟨code, calls, exit, -, asked, emitted, -, returned, up⟩ := ends bound large
  have few : calls ≤ 4 := by
    by_contra more
    exact absurd (asked 4 (by omega)).1 (by decide)
  have whole : stutter.accepted 3 calls = 3 := by
    by_contra less
    rcases (up less).2 with ⟨failed, -⟩ | ⟨-, often, -⟩
    · exact stutter_reportAt_ne_failed 3 calls failed
    · have limit : maxNumberOfIters = 100000 := rfl
      omega
  rw [exit, returned.mpr whole, emitted]
  exact ⟨rfl, congrArg (List.take · [1, 2, 3]) whole⟩

end Common

end CppRaft
