import CppRaft.Server.Bookkeeping

/-!
# How the loops of the handlers end

Three loops walk along the log: the marking and the commit loop of
`recv_appendentries_response` and the apply loop of `recv_appendentries`. Each pass
that continues has found an entry at the next index, so each loop leaves after at most
one pass more than the log has entries. It leaves where `log_get_from_idx` refuses the
index, or with an access before the first element where the index is zero, which only
the first pass can meet.
-/

namespace CppRaft

open Machine

namespace RaftServer

variable {Node : Type}

/-- Where the loops around `apply_entry` can stand: at their first pass, or at an index they
have just applied. -/
def Onward (s t : RaftServer Node) : Prop :=
  t.log = s.log ∧ (t = s ∨ 0 ≤ t.lastAppliedIdx)

/-- A call of `apply_entry` that applies an entry goes onward. -/
theorem Onward.applyEntry {s t : RaftServer Node} (onward : Onward s t)
    (returned : (applyEntry t).exit = .returned 1) : Onward s (applyEntry t).state := by
  rcases applyEntry_exit_eq_returned returned with ⟨-, e, found, moved⟩ | ⟨zero, -⟩
  · obtain ⟨commit, applied, frame⟩ := (applyEntry_applied t).frame
    have bounds := RaftLogger.entryAt?_eq_some_bounds found
    refine ⟨?_, Or.inr (by omega)⟩
    rw [frame]
    exact onward.1
  · exact absurd zero (by decide)

/-- A pass of the apply loop that asks for another has moved on by one entry. -/
theorem applyNext_onward {s t : RaftServer Node} (onward : Onward s t)
    (again : (applyNext t).exit = .returned true) : Onward s (applyNext t).state := by
  cases applyNext_pass t with
  | applied _ _ returned pass =>
      rw [pass]
      exact onward.applyEntry returned
  | refused _ pass => simp [pass] at again
  | before _ _ pass => simp [pass] at again

/-- The last pass of the apply loop. -/
theorem applyEntries_last (s : RaftServer Node) :
    ∃ last, Onward s last ∧ (applyNext last).exit ≠ .returned true ∧
      (applyEntries s).exit = (applyNext last).exit.map (fun _ => ()) ∧
      (applyEntries s).state = (applyNext last).state :=
  Outcome.loop_last (I := Onward s) (fun _ => applyNext_onward) ⟨rfl, Or.inl rfl⟩
    (applyEntries_exit_ne_diverged s)

/-- The apply loop reads before the first entry exactly if it starts at index minus one of a
log that is not empty: every other index is found or refused. -/
theorem applyEntries_exit_eq_undefined_iff (s : RaftServer Node) :
    (applyEntries s).exit = .undefined ↔ s.log ≠ [] ∧ s.lastAppliedIdx = -1 := by
  constructor
  · intro undefined
    obtain ⟨last, ⟨log, place⟩, -, ends, -⟩ := applyEntries_last s
    rw [undefined, eq_comm, Exit.map_eq_undefined_iff] at ends
    cases applyNext_pass last with
    | applied _ _ _ pass => simp [pass] at ends
    | refused _ pass => simp [pass] at ends
    | before nonempty zero _ =>
        rcases place with rfl | onward
        · exact ⟨nonempty, by omega⟩
        · omega
  · rintro ⟨nonempty, before⟩
    rw [applyEntries_eq_loop, Outcome.loop, Outcome.bind_exit_eq_undefined_iff]
    left
    cases applyNext_pass s with
    | applied _ found _ _ =>
        have bounds := RaftLogger.entryAt?_eq_some_bounds found
        omega
    | refused outside _ =>
        rcases outside with empty | low | high
        · exact absurd empty nonempty
        · omega
        · omega
    | before _ _ pass => rw [pass]

/-- The index that applying everything after `idx` leads to. -/
def appliedThrough (log : RaftLogger) (idx : Int) : Int :=
  if 0 ≤ idx ∧ idx ≤ log.length then log.length else idx

/-- The apply loop runs to the end of the log from an index of it, and not at all from any
other. -/
theorem applyEntries_lastAppliedIdx (s : RaftServer Node)
    (defined : (applyEntries s).exit ≠ .undefined) :
    (applyEntries s).state.lastAppliedIdx = appliedThrough s.log s.lastAppliedIdx := by
  obtain ⟨last, ⟨log, -⟩, stops, ends, state⟩ := applyEntries_last s
  have moved := (applyEntries_movesWithin s).2
  cases applyNext_pass last with
  | applied _ _ _ pass => simp [pass] at stops
  | before _ _ pass =>
      rw [pass] at ends
      exact absurd ends defined
  | refused outside pass =>
      rw [state, pass] at moved ⊢
      simp only [appliedThrough] at moved ⊢
      rw [RaftLogger.Refuses, log] at outside
      split
      · rcases outside with empty | low | high
        · have none := List.length_eq_zero_iff.mpr empty
          omega
        · omega
        · omega
      · omega

/-- Step 5 makes an undefined access exactly if it assigns minus one. -/
theorem advanceCommit_exit_eq_undefined_iff (ae : MsgAppendEntries) (s : RaftServer Node) :
    (advanceCommit ae s).exit = .undefined ↔ commitTarget ae s.commitIdx s.log = some (-1) := by
  rw [advanceCommit_eq]
  cases target : commitTarget ae s.commitIdx s.log with
  | none => simp
  | some idx =>
      have nonempty : s.log ≠ [] := by
        rintro empty
        simp [commitTarget, empty] at target
      simp [applyEntries_exit_eq_undefined_iff, nonempty]

/-- `recv_appendentries` makes an undefined access exactly if its step 5 does. Its other
fetches are at indices that were tested. -/
theorem recvAppendentries_exit_eq_undefined_iff (asResponce : Bool) (node : Node)
    (ae : MsgAppendEntries) (stack : Int × Int) (s : RaftServer Node) :
    (recvAppendentries asResponce node ae stack s).exit = .undefined ↔
      ∃ kept, keptLog? ae s = some kept ∧ commitTarget ae s.commitIdx kept = some (-1) := by
  obtain ⟨elapsed, state, votedFor, noticed, -⟩ := noticeLeader_frame asResponce ae s
  simp only [keptLog?_eq_some_iff]
  unfold recvAppendentries
  simp only [noticeLeader_currentTerm, noticeLeader_log]
  by_cases stale : ae.term < s.currentTerm
  · simp [stale, Int.not_le.mpr stale]
  · rw [if_neg stale]
    rcases deleteConflicts_cases ae s.log with refused | ⟨log, accepted, -⟩
    · simp [refused]
    · rw [accepted, Outcome.bind_ofExit_returned, Outcome.bind_exit_eq_undefined_iff,
        advanceCommit_exit_eq_undefined_iff, noticed]
      simp [appendAndReply_eq, Int.not_lt.mp stale]

/-- How the marking loop ends: it covers its range, reads before the first entry, or is refused
an index. -/
theorem markNodeHasCommitted_exit (count : ℕ) (idx : Int) (s : RaftServer Node) :
    (markNodeHasCommitted count idx s).exit =
      if count = 0 ∨ 1 ≤ idx ∧ idx + count - 1 ≤ s.log.length then .returned ()
      else if s.log ≠ [] ∧ idx = 0 then .undefined else .thrown := by
  induction count generalizing idx s with
  | zero => rfl
  | succ count ih =>
      unfold markNodeHasCommitted RaftLogger.logMarkNodeHasCommitted
      simp only [Nat.succ_ne_zero, false_or, Int.natCast_add, Int.natCast_one]
      cases s.log.fetch idx with
      | found e inside fetched =>
          have bounds := RaftLogger.entryAt?_eq_some_bounds inside
          rw [fetched, Exit.map, Outcome.bind_ofExit_returned, ih, List.length_set]
          by_cases covered : idx + count ≤ s.log.length
          · rw [if_pos (by omega), if_pos (by omega)]
          · rw [if_neg (by omega), if_neg (by omega), if_neg fun outside => by omega,
              if_neg fun outside => by omega]
      | refused outside fetched =>
          have short : ¬(1 ≤ idx ∧ idx + (count + 1) - 1 ≤ (s.log.length : Int)) := by
            rcases outside with empty | low | high
            · have none := List.length_eq_zero_iff.mpr empty
              omega
            · omega
            · omega
          rw [fetched, if_neg short, if_neg]
          · rfl
          · rintro ⟨nonempty, zero⟩
            rcases outside with empty | low | high
            · exact nonempty empty
            · omega
            · omega
      | before nonempty zero fetched =>
          rw [fetched, if_neg (by omega), if_pos ⟨nonempty, zero⟩]
          rfl

/-- So has a pass of the commit loop. -/
theorem commitNext_onward {currentIdx : Int} {s t : RaftServer Node} (onward : Onward s t)
    (again : (commitNext currentIdx t).exit = .returned true) :
    Onward s (commitNext currentIdx t).state := by
  cases commitNext_pass currentIdx t with
  | reached _ pass => simp [pass] at again
  | refused _ _ pass => simp [pass] at again
  | before _ _ _ pass => simp [pass] at again
  | short _ _ _ pass => simp [pass] at again
  | applied _ _ _ _ returned pass =>
      rw [pass]
      exact onward.applyEntry returned

/-- The commit loop reads before the first entry exactly if it starts at index minus one, as
the apply loop does. -/
theorem commitEntries_exit_eq_undefined_iff (currentIdx : Int) (s : RaftServer Node) :
    (commitEntries currentIdx s).exit = .undefined ↔
      s.commitIdx < currentIdx ∧ s.log ≠ [] ∧ s.lastAppliedIdx = -1 := by
  constructor
  · intro undefined
    obtain ⟨last, ⟨log, place⟩, -, ends, -⟩ := Outcome.loop_last (I := Onward s)
      (fun _ => commitNext_onward) ⟨rfl, Or.inl rfl⟩ (commitEntries_exit_ne_diverged currentIdx s)
    rw [← commitEntries, undefined, eq_comm, Exit.map_eq_undefined_iff] at ends
    cases commitNext_pass currentIdx last with
    | reached _ pass => simp [pass] at ends
    | refused _ _ pass => simp [pass] at ends
    | short _ _ _ pass => simp [pass] at ends
    | applied _ _ _ _ _ pass => simp [pass] at ends
    | before behind nonempty zero _ =>
        rcases place with rfl | onward
        · exact ⟨behind, nonempty, by omega⟩
        · omega
  · rintro ⟨behind, nonempty, before⟩
    rw [commitEntries, Outcome.loop, Outcome.bind_exit_eq_undefined_iff]
    left
    cases commitNext_pass currentIdx s with
    | reached done _ => omega
    | refused _ outside _ =>
        rcases outside with empty | low | high
        · exact absurd empty nonempty
        · omega
        · omega
    | short _ _ found _ | applied _ _ found _ _ _ =>
        have bounds := RaftLogger.entryAt?_eq_some_bounds found
        omega
    | before _ _ _ pass => rw [pass]

variable [DecidableEq Node]

/-- A successful response, as its two loops one after the other. -/
theorem recvAppendentriesResponse_eq (node : Node) (r : MsgAppendentriesResponse)
    (s : RaftServer Node) (success : r.success = 1) :
    recvAppendentriesResponse node r s =
      (markNodeHasCommitted (r.currentIdx - r.firstIdx + 1).toNat r.firstIdx
        (s.setNextIdx node r.currentIdx)).bind fun _ s =>
          (commitEntries r.currentIdx s).bind fun _ s => (Effect.done s).returning 1 := by
  rw [recvAppendentriesResponse, if_pos success]
  rfl

/-- `recv_appendentries_response` makes an undefined access exactly if it has to mark index
zero, or marks its whole range and then has to apply index zero. -/
theorem recvAppendentriesResponse_exit_eq_undefined_iff (node : Node)
    (r : MsgAppendentriesResponse) (s : RaftServer Node) :
    (recvAppendentriesResponse node r s).exit = .undefined ↔
      r.success = 1 ∧ s.log ≠ [] ∧
        (r.firstIdx = 0 ∧ 0 ≤ r.currentIdx ∨
          s.commitIdx < r.currentIdx ∧ s.lastAppliedIdx = -1 ∧
            (r.currentIdx < r.firstIdx ∨ 1 ≤ r.firstIdx ∧ r.currentIdx ≤ s.log.length)) := by
  by_cases success : r.success = 1
  · obtain ⟨marked, state, -, mark⟩ := markNodeHasCommitted_marked
      (r.currentIdx - r.firstIdx + 1).toNat r.firstIdx (s.setNextIdx node r.currentIdx)
    have same : marked = [] ↔ s.log = [] := by
      rw [← List.length_eq_zero_iff, mark.length_eq, List.length_eq_zero_iff]
      rfl
    have ending := markNodeHasCommitted_exit (r.currentIdx - r.firstIdx + 1).toNat r.firstIdx
      (s.setNextIdx node r.currentIdx)
    rw [show (s.setNextIdx node r.currentIdx).log = s.log from rfl] at ending
    rw [recvAppendentriesResponse_eq node r s success, Outcome.bind_exit_eq_undefined_iff, state]
    simp only [Outcome.bind_exit_eq_undefined_iff, commitEntries_exit_eq_undefined_iff,
      Effect.returning_exit, reduceCtorEq, and_false, exists_false, or_false, same, ne_eq, success,
      true_and]
    split at ending
    case isTrue covered =>
        simp only [ending, reduceCtorEq, false_or, exists_const, true_and]
        constructor
        · rintro ⟨behind, nonempty, before⟩
          exact ⟨nonempty, Or.inr ⟨behind, before, by omega⟩⟩
        · rintro ⟨nonempty, zero | ⟨behind, before, -⟩⟩
          · omega
          · exact ⟨behind, nonempty, before⟩
    case isFalse short =>
        split at ending
        case isTrue before =>
            simp only [ending, true_or, true_iff]
            exact ⟨before.1, Or.inl ⟨before.2, by omega⟩⟩
        case isFalse refused =>
            simp only [ending, reduceCtorEq, false_and, exists_false, or_self, false_iff]
            rintro ⟨nonempty, zero | ⟨-, -, covered⟩⟩
            · exact refused ⟨nonempty, zero.1⟩
            · omega
  · simp [recvAppendentriesResponse, success]

/-- The message does not make step 5 assign minus one: neither the id of the last entry it keeps
nor its `leaderCommit` is that minimum. -/
def AppendFetchesInside (ae : MsgAppendEntries) (s : RaftServer Node) : Prop :=
  ∀ kept ∈ keptLog? ae s, s.commitIdx < ae.leaderCommit → ∀ tail ∈ kept.getLast?,
    (tail.id = -1 → ae.leaderCommit < -1) ∧ (ae.leaderCommit = -1 → tail.id < -1)

/-- The response has no range that starts at index zero of a nonempty log. If `last_applied_idx`
is minus one, it has nothing to commit or a range that the marking loop does not get through. -/
def ResponseFetchesInside (r : MsgAppendentriesResponse) (s : RaftServer Node) : Prop :=
  r.success = 1 → s.log ≠ [] → (r.firstIdx = 0 → r.currentIdx < 0) ∧
    (s.lastAppliedIdx = -1 → s.commitIdx < r.currentIdx →
      r.firstIdx ≤ r.currentIdx ∧ (r.firstIdx < 1 ∨ (s.log.length : Int) < r.currentIdx))

/-- Step 5 assigns the smaller of the last id and the commit index of the leader: minus one,
if one of them is that and the other is no smaller. -/
private theorem commitTarget_eq_neg_one_iff (ae : MsgAppendEntries) (commitIdx : Int)
    (kept : RaftLogger) :
    commitTarget ae commitIdx kept = some (-1) ↔ commitIdx < ae.leaderCommit ∧
      ∃ tail ∈ kept.getLast?, tail.id = -1 ∧ -1 ≤ ae.leaderCommit ∨
        ae.leaderCommit = -1 ∧ -1 ≤ tail.id := by
  unfold commitTarget
  by_cases behind : commitIdx < ae.leaderCommit
  · cases tail : kept.getLast? with
    | none => simp [behind]
    | some e =>
        simp only [behind, ↓reduceIte, Option.map_some, Option.some.injEq, true_and,
          Option.mem_def, exists_eq_left']
        split <;> omega
  · simp [behind]

/-- A message makes the server read and erase inside its log only, and throw on every other
index, exactly under these conditions on the message and the state. -/
theorem messages_fetch_inside_log_iff (s : RaftServer Node) :
    (∀ asResponce node ae stack,
      (recvAppendentries asResponce node ae stack s).exit ≠ .undefined ↔
        AppendFetchesInside ae s) ∧
      ∀ node r, (recvAppendentriesResponse node r s).exit ≠ .undefined ↔
        ResponseFetchesInside r s := by
  refine ⟨fun asResponce node ae stack => ?_, fun node r => ?_⟩
  · rw [Ne, recvAppendentries_exit_eq_undefined_iff]
    simp only [commitTarget_eq_neg_one_iff]
    constructor
    · intro inside kept found behind tail last
      constructor
      · intro id
        exact Int.not_le.mp fun high => inside ⟨kept, found, behind, tail, last, Or.inl ⟨id, high⟩⟩
      · intro commit
        exact Int.not_le.mp fun high =>
          inside ⟨kept, found, behind, tail, last, Or.inr ⟨commit, high⟩⟩
    · rintro inside ⟨kept, found, behind, tail, last, hit⟩
      have clear := inside kept found behind tail last
      omega
  · rw [Ne, recvAppendentriesResponse_exit_eq_undefined_iff]
    constructor
    · intro inside success nonempty
      constructor
      · intro zero
        exact Int.not_le.mp fun high => inside ⟨success, nonempty, Or.inl ⟨zero, high⟩⟩
      · intro before behind
        by_contra covered
        exact inside ⟨success, nonempty, Or.inr ⟨behind, before, by omega⟩⟩
    · rintro inside ⟨success, nonempty, hit⟩
      have clear := inside success nonempty
      omega

/-- A client entry in a fresh log. -/
def oneClientEntry (client : Node) : List (Event Node) :=
  [.recvEntry client ⟨1, [11]⟩]

/-- An entry in a fresh log whose id is stored as minus one. -/
def largestId (client : Node) : List (Event Node) :=
  [.recvEntry client ⟨0xffffffff, [12]⟩]

/-- A response that covers index zero and a message after an entry with the largest id make the
server read before its first entry. -/
theorem messages_fetch_before_log :
    RunFrom (.member 0) (traceOn (0 : Fin 3) (oneClientEntry 2)) (stateOn 0 (oneClientEntry 2)) ∧
      (recvAppendentriesResponse 1 ⟨0, 1, 0, 0⟩ (stateOn (0 : Fin 3) (oneClientEntry 2))).exit =
        .undefined ∧
      RunFrom (.member 0) (traceOn (0 : Fin 3) (largestId 2)) (stateOn 0 (largestId 2)) ∧
      (recvAppendentries true 1 (.new 1 0 0 0 1) (0, 0) (stateOn (0 : Fin 3) (largestId 2))).exit =
        .undefined :=
  ⟨run_traceOf _ _ _ (by decide), by decide, run_traceOf _ _ _ (by decide), by decide⟩

/-- One pass of the marking loop of `recv_appendentries_response`, on the server and the index;
`false` leaves the loop. -/
def markNext (last : Int) (place : RaftServer Node × Int) :
    Outcome (RaftServer Node × Int) (Action Node) Bool :=
  if place.2 ≤ last then
    (Outcome.ofExit (place.1.log.logMarkNodeHasCommitted place.2) place).bind fun log place =>
      (Effect.done ({ place.1 with log := log }, place.2 + 1)).returning true
  else (Effect.done place).returning false

omit [DecidableEq Node] in
/-- The marking loop is the repetition of its pass, so that the rules for loops apply to it. -/
theorem loop_markNext (count : ℕ) (last idx : Int) (s : RaftServer Node)
    (range : idx + count = last + 1) :
    (Outcome.loop (markNext last) (count + 1) (s, idx)).exit =
        (markNodeHasCommitted count idx s).exit ∧
      (Outcome.loop (markNext last) (count + 1) (s, idx)).state.1 =
        (markNodeHasCommitted count idx s).state := by
  induction count generalizing idx s with
  | zero =>
      have done : ¬idx ≤ last := by omega
      simp [Outcome.loop, markNext, done, Outcome.bind, markNodeHasCommitted, Effect.returning,
        Effect.done]
  | succ count ih =>
      have inside : idx ≤ last := by omega
      rw [Outcome.loop, markNext, if_pos inside, markNodeHasCommitted]
      cases marking : s.log.logMarkNodeHasCommitted idx with
      | returned log => exact ih (idx + 1) { s with log := log } (by omega)
      | thrown => exact ⟨rfl, rfl⟩
      | undefined => exact ⟨rfl, rfl⟩
      | diverged => exact ⟨rfl, rfl⟩

/-- The entries that the marking loop can still mark. -/
def unmarked (place : RaftServer Node × Int) : ℕ :=
  if 1 ≤ place.2 then (place.1.log.length + 1 - place.2).toNat else 0

omit [DecidableEq Node] in
/-- A pass of the marking loop that continues leaves one entry fewer. This is the measure by
which the loop ends. -/
theorem unmarked_markNext_lt {last : Int} {place : RaftServer Node × Int}
    (again : (markNext last place).exit = .returned true) :
    unmarked (markNext last place).state < unmarked place := by
  unfold markNext RaftLogger.logMarkNodeHasCommitted at again ⊢
  by_cases inside : place.2 ≤ last
  · rw [if_pos inside] at again ⊢
    cases place.1.log.fetch place.2 with
    | refused _ fetched => simp [fetched, Exit.map, Outcome.ofExit, Outcome.bind] at again
    | before _ _ fetched => simp [fetched, Exit.map, Outcome.ofExit, Outcome.bind] at again
    | found e found fetched =>
        have bounds := RaftLogger.entryAt?_eq_some_bounds found
        rw [fetched, Exit.map, Outcome.bind_ofExit_returned]
        simp only [unmarked, Effect.returning_state, Effect.done_state, List.length_set]
        rw [if_pos (by omega), if_pos bounds.1]
        omega
  · simp [inside] at again

omit [DecidableEq Node] in
/-- A pass of the marking loop has no loop of its own. -/
theorem markNext_exit_ne_diverged (last : Int) (place : RaftServer Node × Int) :
    (markNext last place).exit ≠ .diverged := by
  unfold markNext RaftLogger.logMarkNodeHasCommitted
  split
  · refine Outcome.bind_exit_ne_diverged ?_ fun _ _ => by simp
    have fetch := RaftLogger.logGetFromIdx_ne_diverged place.1.log place.2
    unfold Outcome.ofExit Exit.map
    split <;> simp_all
  · simp

/-- In every state the marking loop over any range, the commit loop up to any index and the
apply loop leave after at most one pass more than the log has entries, and with them both
handlers end on every message. -/
theorem handler_loops_end (s : RaftServer Node) :
    (∀ first last, ∃ passes ≤ s.log.length + 1, Outcome.Ends (markNext last) passes (s, first)) ∧
      (∀ currentIdx, ∃ passes ≤ s.log.length + 1,
        Outcome.Ends (commitNext currentIdx) passes s) ∧
      (∃ passes ≤ s.log.length + 1, Outcome.Ends applyNext passes s) ∧
      (∀ node r, (recvAppendentriesResponse node r s).exit ≠ .diverged) ∧
      ∀ asResponce node ae stack,
        (recvAppendentries asResponce node ae stack s).exit ≠ .diverged := by
  refine ⟨fun first last => ?_, fun currentIdx => ?_, ?_,
    fun node r => recvAppendentriesResponse_exit_ne_diverged node r s,
    fun asResponce node ae stack => recvAppendentries_exit_ne_diverged asResponce node ae stack s⟩
  · obtain ⟨passes, few, ends⟩ := Outcome.ends_of_measure (markNext last) unmarked
      (markNext_exit_ne_diverged last) (fun _ => unmarked_markNext_lt) (s, first)
    have room : unmarked (s, first) ≤ s.log.length := by
      simp only [unmarked]
      split <;> omega
    exact ⟨passes, by omega, ends⟩
  · obtain ⟨passes, few, ends⟩ := Outcome.ends_of_measure (commitNext currentIdx) unapplied
      (commitNext_exit_ne_diverged currentIdx) (fun _ => unapplied_commitNext_lt) s
    have room := s.unapplied_le
    exact ⟨passes, by omega, ends⟩
  · obtain ⟨passes, few, ends⟩ := Outcome.ends_of_measure applyNext unapplied
      applyNext_exit_ne_diverged (fun _ => unapplied_applyNext_lt) s
    have room := s.unapplied_le
    exact ⟨passes, by omega, ends⟩

end RaftServer

end CppRaft
