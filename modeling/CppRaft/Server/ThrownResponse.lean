import CppRaft.Server.Loops

/-!
# A response that makes the leader throw

`recv_appendentries_response` writes `next_idx`, counts acknowledgements entry by entry and
applies entries one at a time, and throws at the first index that the log refuses. What it
has written by then stays. Nothing has changed exactly if `next_idx` had its value already
and the very first index was refused.
-/

namespace CppRaft

open Machine

/-- No entry of `log` has a lower counter in `marked`. -/
def Raised (log marked : RaftLogger) : Prop :=
  ∀ idx old, log.entryAt? idx = some old →
    ∃ entry, marked.entryAt? idx = some entry ∧ old.numNodes ≤ entry.numNodes

theorem Raised.refl (log : RaftLogger) : Raised log log :=
  fun _ old found => ⟨old, found, Int.le_refl _⟩

/-- The entry that a call of `log_mark_node_has_committed` marks, and all the others, which
keep their counters. -/
theorem RaftLogger.logMarkNodeHasCommitted_raised {log marked : RaftLogger} {idx : Int}
    (returned : log.logMarkNodeHasCommitted idx = .returned marked) :
    Raised log marked ∧ ∃ old entry, log.entryAt? idx = some old ∧
      marked.entryAt? idx = some entry ∧ old.numNodes < entry.numNodes := by
  obtain ⟨e, found, rfl⟩ := RaftLogger.logMarkNodeHasCommitted_eq_returned returned
  have bounds := RaftLogger.entryAt?_eq_some_bounds found
  refine ⟨fun other old foundOld => ?_, e, { e with numNodes := e.numNodes + 1 }, found, ?_,
    Int.lt_succ _⟩
  · rw [RaftLogger.entryAt?_set bounds.1 bounds.2]
    by_cases same : other = idx
    · rw [same, found] at foundOld
      cases foundOld
      exact ⟨_, if_pos same, Int.le_of_lt (Int.lt_succ _)⟩
    · exact ⟨old, by rw [if_neg same, foundOld], Int.le_refl _⟩
  · rw [RaftLogger.entryAt?_set bounds.1 bounds.2, if_pos rfl]

/-- Logs with the same counters have the same counter at every index. -/
theorem numNodes_eq_of_map_eq {log marked : RaftLogger} {idx : Int} {old entry : RaftEntry}
    (same : marked.map RaftEntry.numNodes = log.map RaftEntry.numNodes)
    (foundOld : log.entryAt? idx = some old) (found : marked.entryAt? idx = some entry) :
    entry.numNodes = old.numNodes := by
  have low := (RaftLogger.entryAt?_eq_some_bounds found).1
  rw [RaftLogger.entryAt?, if_pos low] at foundOld found
  have there := congrArg (fun counters => counters[(idx - 1).toNat]?) same
  simp only [List.getElem?_map, foundOld, found, Option.map_some, Option.some.injEq] at there
  exact there

namespace RaftServer

variable {Node : Type}

/-- The marking loop lowers no counter, however far it gets. -/
theorem markNodeHasCommitted_raised (count : ℕ) (first : Int) (s : RaftServer Node) :
    Raised s.log (markNodeHasCommitted count first s).state.log := by
  induction count generalizing first s with
  | zero => exact .refl _
  | succ count ih =>
      unfold markNodeHasCommitted
      cases marking : s.log.logMarkNodeHasCommitted first with
      | returned log =>
          intro idx old found
          obtain ⟨middle, foundMiddle, early⟩ :=
            (RaftLogger.logMarkNodeHasCommitted_raised marking).1 idx old found
          obtain ⟨entry, foundEntry, late⟩ := ih (first + 1) { s with log := log } idx middle
            foundMiddle
          exact ⟨entry, foundEntry, Int.le_trans early late⟩
      | thrown => exact .refl _
      | undefined => exact .refl _
      | diverged => exact .refl _

/-- The marking loop raises the counter of its first entry, if the log has it: so an
exception after that has left a trace. -/
theorem markNodeHasCommitted_first (count : ℕ) {first : Int} (s : RaftServer Node) {e : RaftEntry}
    (found : s.log.entryAt? first = some e) :
    ∃ entry, (markNodeHasCommitted (count + 1) first s).state.log.entryAt? first = some entry ∧
      e.numNodes < entry.numNodes := by
  unfold markNodeHasCommitted
  cases marking : s.log.logMarkNodeHasCommitted first with
  | returned log =>
      obtain ⟨-, old, middle, foundOld, foundMiddle, raised⟩ :=
        RaftLogger.logMarkNodeHasCommitted_raised marking
      cases found.symm.trans foundOld
      obtain ⟨entry, foundEntry, late⟩ :=
        markNodeHasCommitted_raised count (first + 1) { s with log := log } first middle foundMiddle
      exact ⟨entry, foundEntry, Int.lt_of_lt_of_le raised late⟩
  | thrown | undefined | diverged =>
      rw [RaftLogger.logMarkNodeHasCommitted,
        (RaftLogger.logGetFromIdx_eq_returned_iff _ _ _).mpr found] at marking
      cases marking

/-- A commit loop that throws does so before it has changed anything, or has applied an
entry. It throws when it fetches the entry after the last one. -/
theorem commitEntries_thrown {currentIdx : Int} {s : RaftServer Node}
    (thrown : (commitEntries currentIdx s).exit = .thrown) :
    s.log.Refuses (s.lastAppliedIdx + 1) ∧ (commitEntries currentIdx s).state = s ∨
      ∃ e, s.log.entryAt? (s.lastAppliedIdx + 1) = some e ∧
        s.lastAppliedIdx < (commitEntries currentIdx s).state.lastAppliedIdx := by
  cases commitNext_pass currentIdx s with
  | reached _ pass => simp [commitEntries, Outcome.loop, Outcome.bind, pass] at thrown
  | before _ _ _ pass => simp [commitEntries, Outcome.loop, Outcome.bind, pass] at thrown
  | short _ _ _ pass => simp [commitEntries, Outcome.loop, Outcome.bind, pass] at thrown
  | refused _ outside pass =>
      exact Or.inl ⟨outside, by simp [commitEntries, Outcome.loop, Outcome.bind, pass]⟩
  | applied _ e found _ returned pass =>
      right
      refine ⟨e, found, ?_⟩
      rcases applyEntry_exit_eq_returned returned with ⟨-, -, -, moved⟩ | ⟨zero, -⟩
      · -- The passes after the first one only apply more entries.
        obtain ⟨count, onward, -⟩ := (Outcome.loop_composes committed_composes _
          (commitNext_committed currentIdx) s.log.length (applyEntry s).state).applied.consecutive
        rw [commitEntries, Outcome.loop, Outcome.bind, pass] at thrown ⊢
        simp only at thrown ⊢
        split at thrown
        case isTrue again =>
            rw [if_pos again]
            omega
        case isFalse => cases thrown
      · exact absurd zero (by decide)

variable [DecidableEq Node]

/-- A response writes `next_idx` of its node. -/
theorem recvAppendentriesResponse_nextIdx (node : Node) {r : MsgAppendentriesResponse}
    (s : RaftServer Node) (success : r.success = 1) :
    ((recvAppendentriesResponse node r s).state.table.record node).nextIdx = r.currentIdx := by
  have result := recvAppendentriesResponse_result node r s
  generalize (recvAppendentriesResponse node r s).state = after at result ⊢
  generalize (recvAppendentriesResponse node r s).emitted = emitted at result
  cases result with
  | failed failure => exact absurd success failure
  | succeeded _ marked _ _ _ committed =>
      obtain ⟨commit, last, rfl⟩ := committed.applied.frame
      simp [setNextIdx, NodeTable.update]

/-- The commit loop leaves the log as the marking loop left it; what remains of a response
that throws is in the counters and the indices. -/
theorem recvAppendentriesResponse_log (node : Node) {r : MsgAppendentriesResponse}
    (s : RaftServer Node) (success : r.success = 1) :
    (recvAppendentriesResponse node r s).state.log =
      (markNodeHasCommitted (r.currentIdx - r.firstIdx + 1).toNat r.firstIdx
        (s.setNextIdx node r.currentIdx)).state.log := by
  have sameLog : Composes fun (s : RaftServer Node) (_ : List (Action Node)) t => t.log = s.log :=
    ⟨fun _ => rfl, fun first second => second.trans first⟩
  rw [recvAppendentriesResponse_eq node r s success]
  refine Outcome.bind_composes sameLog _ _ _ rfl fun _ => ?_
  refine Outcome.bind_composes sameLog _ _ _ ?_ fun _ => rfl
  obtain ⟨commit, last, frame⟩ := (commitEntries_committed r.currentIdx
    (markNodeHasCommitted (r.currentIdx - r.firstIdx + 1).toNat r.firstIdx
      (s.setNextIdx node r.currentIdx)).state).applied.frame
  rw [frame]

section Throws

variable {node : Node} {r : MsgAppendentriesResponse} {s : RaftServer Node}
  (success : r.success = 1) (thrown : (recvAppendentriesResponse node r s).exit = .thrown)

include success thrown

/-- A response with a range throws at the first index of it, or has counted that entry
before it throws. -/
theorem thrown_with_range (range : r.firstIdx ≤ r.currentIdx) :
    (s.log.Refuses r.firstIdx ∧
        (recvAppendentriesResponse node r s).state = s.setNextIdx node r.currentIdx) ∨
      ∃ e, s.log.entryAt? r.firstIdx = some e ∧
        (recvAppendentriesResponse node r s).state.log.map RaftEntry.numNodes ≠
          s.log.map RaftEntry.numNodes := by
  have called := recvAppendentriesResponse_eq node r s success
  obtain ⟨count, counted⟩ : ∃ count, (r.currentIdx - r.firstIdx + 1).toNat = count + 1 :=
    ⟨(r.currentIdx - r.firstIdx).toNat, by omega⟩
  cases s.log.fetch r.firstIdx with
  | found e inside fetched =>
      refine Or.inr ⟨e, inside, fun counters => ?_⟩
      obtain ⟨entry, found, raised⟩ := markNodeHasCommitted_first count
        (s.setNextIdx node r.currentIdx) inside
      rw [← counted, ← recvAppendentriesResponse_log node s success] at found
      have same := numNodes_eq_of_map_eq counters inside found
      omega
  | refused outside fetched =>
      rw [counted, markNodeHasCommitted, RaftLogger.logMarkNodeHasCommitted,
        show (s.setNextIdx node r.currentIdx).log = s.log from rfl, fetched] at called
      exact Or.inl ⟨outside, congrArg Outcome.state called⟩
  | before nonempty zero fetched =>
      rw [counted, markNodeHasCommitted, RaftLogger.logMarkNodeHasCommitted,
        show (s.setNextIdx node r.currentIdx).log = s.log from rfl, fetched] at called
      rw [called] at thrown
      cases thrown

/-- A response with an empty range throws at the next index to apply, or has applied an
entry before it throws. -/
theorem thrown_without_range (range : ¬ r.firstIdx ≤ r.currentIdx) :
    (s.log.Refuses (s.lastAppliedIdx + 1) ∧
        (recvAppendentriesResponse node r s).state = s.setNextIdx node r.currentIdx) ∨
      ∃ e, s.log.entryAt? (s.lastAppliedIdx + 1) = some e ∧
        s.lastAppliedIdx < (recvAppendentriesResponse node r s).state.lastAppliedIdx := by
  have called := recvAppendentriesResponse_eq node r s success
  rw [show (r.currentIdx - r.firstIdx + 1).toNat = 0 by omega] at called
  replace called : recvAppendentriesResponse node r s =
      (commitEntries r.currentIdx (s.setNextIdx node r.currentIdx)).bind fun _ s =>
        (Effect.done s).returning 1 := called
  have loop : (commitEntries r.currentIdx (s.setNextIdx node r.currentIdx)).exit = .thrown := by
    rw [called, Outcome.bind_exit_eq_thrown_iff] at thrown
    simpa using thrown
  have state : (recvAppendentriesResponse node r s).state =
      (commitEntries r.currentIdx (s.setNextIdx node r.currentIdx)).state := by
    rw [called, Outcome.bind, loop]
  rw [state]
  exact commitEntries_thrown loop

end Throws

/-- The response fails on the first index it reads: the first of its range or, if the range is
empty, the one after `last_applied_idx`; and `next_idx` of the node is what it reports. -/
def FailsAtOnce (node : Node) (r : MsgAppendentriesResponse) (s : RaftServer Node) : Prop :=
  (s.table.record node).nextIdx = r.currentIdx ∧
    s.log.Refuses (if r.firstIdx ≤ r.currentIdx then r.firstIdx else s.lastAppliedIdx + 1)

instance (node : Node) (r : MsgAppendentriesResponse) (s : RaftServer Node) :
    Decidable (FailsAtOnce node r s) :=
  inferInstanceAs (Decidable (_ ∧ _))

/-- A call of `recv_appendentries_response` that throws leaves the counters of the log, `next_idx`
of the node, the commit index and the last applied index exactly if it fails at once. -/
theorem thrown_response_untouched_iff {node : Node} {r : MsgAppendentriesResponse}
    {s : RaftServer Node} (thrown : (recvAppendentriesResponse node r s).exit = .thrown) :
    ((recvAppendentriesResponse node r s).state.log.map RaftEntry.numNodes =
          s.log.map RaftEntry.numNodes ∧
        ((recvAppendentriesResponse node r s).state.table.record node).nextIdx =
          (s.table.record node).nextIdx ∧
        (recvAppendentriesResponse node r s).state.commitIdx = s.commitIdx ∧
        (recvAppendentriesResponse node r s).state.lastAppliedIdx = s.lastAppliedIdx) ↔
      FailsAtOnce node r s := by
  have success : r.success = 1 := by
    by_contra failure
    simp [recvAppendentriesResponse, failure] at thrown
  rw [recvAppendentriesResponse_nextIdx node s success, FailsAtOnce, eq_comm (a := r.currentIdx)]
  by_cases range : r.firstIdx ≤ r.currentIdx
  · rw [if_pos range]
    rcases thrown_with_range success thrown range with ⟨outside, same⟩ | ⟨e, found, counted⟩
    · rw [same]
      exact ⟨fun kept => ⟨kept.2.1, outside⟩, fun fails => ⟨rfl, fails.1, rfl, rfl⟩⟩
    · exact iff_of_false (fun kept => counted kept.1) fun fails => fails.2.not_found found
  · rw [if_neg range]
    rcases thrown_without_range success thrown range with ⟨outside, same⟩ | ⟨e, found, applied⟩
    · rw [same]
      exact ⟨fun kept => ⟨kept.2.1, outside⟩, fun fails => ⟨rfl, fails.1, rfl, rfl⟩⟩
    · exact iff_of_false (fun kept => applied.ne' kept.2.2.2) fun fails => fails.2.not_found found

/-- A leader without entries refuses the first index of a response that repeats `next_idx`. -/
theorem thrown_response_untouched_empty_log :
    RunFrom (.member 0) (traceOn (0 : Fin 3) (candidacy 1000 (0, 3) ⟨1, 1⟩ [1]))
        (stateOn 0 (candidacy 1000 (0, 3) ⟨1, 1⟩ [1])) ∧
      (recvAppendentriesResponse 2 ⟨1, 1, 2, 1⟩
        (stateOn (0 : Fin 3) (candidacy 1000 (0, 3) ⟨1, 1⟩ [1]))).exit = .thrown ∧
      ((recvAppendentriesResponse 2 ⟨1, 1, 2, 1⟩
          (stateOn (0 : Fin 3) (candidacy 1000 (0, 3) ⟨1, 1⟩ [1]))).state.table.record 2).nextIdx =
        ((stateOn (0 : Fin 3) (candidacy 1000 (0, 3) ⟨1, 1⟩ [1])).table.record 2).nextIdx :=
  ⟨run_traceOf _ _ _ (by decide), by decide,
    ((thrown_response_untouched_iff (by decide)).mpr (by decide)).2.1⟩

/-- A leader in term one with one entry. -/
def leaderWithEntry (voter client : Node) : List (Event Node) :=
  candidacy 1000 (0, 3) ⟨1, 1⟩ [voter] ++ [.recvEntry client ⟨1, [31]⟩]

/-- A response that ends one index beyond the log counts the entry and then throws. -/
theorem thrown_response_counts_entry :
    RunFrom (.member 0) (traceOn (0 : Fin 3) (leaderWithEntry 1 2))
        (stateOn 0 (leaderWithEntry 1 2)) ∧
      (stateOn (0 : Fin 3) (leaderWithEntry 1 2)).state = .leader ∧
      (stateOn (0 : Fin 3) (leaderWithEntry 1 2)).log.map RaftEntry.numNodes = [0] ∧
      (recvAppendentriesResponse 1 ⟨1, 1, 2, 1⟩
        (stateOn (0 : Fin 3) (leaderWithEntry 1 2))).exit = .thrown ∧
      (recvAppendentriesResponse 1 ⟨1, 1, 2, 1⟩
        (stateOn (0 : Fin 3) (leaderWithEntry 1 2))).state.log.map RaftEntry.numNodes = [1] :=
  ⟨run_traceOf _ _ _ (by decide), by decide, by decide, by decide, by decide⟩

end RaftServer

end CppRaft
