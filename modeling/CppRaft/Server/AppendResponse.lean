import CppRaft.Server.Applied
import CppRaft.Server.Broadcast

/-!
# What `recv_appendentries_response` does

A successful response raises the counters of the entries it covers, as far as the
marking loop gets, and then commits entries whose counter has reached half the
number of nodes. A failed one sends the node another AppendEntries.
-/

namespace CppRaft

open Machine

/-- `marked` is `log` with the counters of some entries between two indices raised by one. -/
structure Marked (first last : Int) (log marked : RaftLogger) : Prop where
  content : marked.map RaftEntry.content = log.map RaftEntry.content
  counted : ∀ idx entry, marked.entryAt? idx = some entry → ∃ old,
    log.entryAt? idx = some old ∧
    entry.numNodes ≤ old.numNodes + if first ≤ idx ∧ idx ≤ last then 1 else 0

/-- Marking nothing. -/
theorem Marked.refl (first last : Int) (log : RaftLogger) : Marked first last log log where
  content := rfl
  counted idx entry found := ⟨entry, found, by split <;> omega⟩

/-- Marking an index and then the ones after it. -/
theorem Marked.cons {first last : Int} {log middle marked : RaftLogger}
    (low : first ≤ last) (head : Marked first first log middle)
    (tail : Marked (first + 1) last middle marked) : Marked first last log marked where
  content := tail.content.trans head.content
  counted idx entry found := by
    obtain ⟨between, foundBetween, late⟩ := tail.counted idx entry found
    obtain ⟨old, foundOld, early⟩ := head.counted idx between foundBetween
    refine ⟨old, foundOld, ?_⟩
    split at late <;> split at early <;> split <;> omega

/-- Marking entries adds and removes none. -/
theorem Marked.length_eq {first last : Int} {log marked : RaftLogger}
    (mark : Marked first last log marked) : marked.length = log.length := by
  have := congrArg List.length mark.content
  simpa using this

/-- A call of `log_mark_node_has_committed` that returns has written one entry. -/
theorem RaftLogger.logMarkNodeHasCommitted_eq_returned {log marked : RaftLogger} {idx : Int}
    (returned : log.logMarkNodeHasCommitted idx = .returned marked) :
    ∃ e, log.entryAt? idx = some e ∧
      marked = log.set (idx - 1).toNat { e with numNodes := e.numNodes + 1 } := by
  unfold RaftLogger.logMarkNodeHasCommitted at returned
  cases log.fetch idx with
  | found e inside fetched =>
      rw [fetched] at returned
      cases returned
      exact ⟨e, inside, rfl⟩
  | refused _ fetched => rw [fetched] at returned; cases returned
  | before _ _ fetched => rw [fetched] at returned; cases returned

/-- One call of `log_mark_node_has_committed` raises the counter of the entry at its index,
and throws or leaves the vector if there is none. -/
theorem RaftLogger.logMarkNodeHasCommitted_marked {log marked : RaftLogger} {idx : Int}
    (returned : log.logMarkNodeHasCommitted idx = .returned marked) :
    Marked idx idx log marked := by
  obtain ⟨e, found, rfl⟩ := RaftLogger.logMarkNodeHasCommitted_eq_returned returned
  have bounds := RaftLogger.entryAt?_eq_some_bounds found
  have here : log[(idx - 1).toNat]? = some e := by
    rwa [RaftLogger.entryAt?, if_pos bounds.1] at found
  refine ⟨?_, fun other entry foundOther => ?_⟩
  · apply List.ext_getElem?
    intro position
    rw [List.getElem?_map, List.getElem?_map, List.getElem?_set]
    split
    · rename_i same
      subst same
      rw [here, if_pos (by omega)]
      rfl
    · rfl
  · rw [RaftLogger.entryAt?_set bounds.1 bounds.2] at foundOther
    split at foundOther
    · rename_i same
      cases foundOther
      exact ⟨e, same ▸ found, by simp [same]⟩
    · exact ⟨entry, foundOther, by split <;> omega⟩

namespace RaftServer

variable {Node : Type}

/-- The marking loop changes counters only, of entries in its range. This holds at every
exit, also when the loop ends with an exception half-way. -/
theorem markNodeHasCommitted_marked (count : ℕ) (first : Int) (s : RaftServer Node) :
    ∃ marked, (markNodeHasCommitted count first s).state = { s with log := marked } ∧
      (markNodeHasCommitted count first s).emitted = [] ∧
      Marked first (first + count - 1) s.log marked := by
  induction count generalizing first s with
  | zero => exact ⟨s.log, rfl, rfl, .refl _ _ _⟩
  | succ count ih =>
      unfold markNodeHasCommitted
      cases marking : s.log.logMarkNodeHasCommitted first with
      | returned log =>
          obtain ⟨marked, stateEq, emittedEq, tail⟩ := ih (first + 1) { s with log := log }
          refine ⟨marked, stateEq, emittedEq, ?_⟩
          have last : first + 1 + (count : Int) - 1 = first + ((count + 1 : ℕ) : Int) - 1 := by
            push_cast
            omega
          rw [last] at tail
          exact .cons (by push_cast; omega)
            (RaftLogger.logMarkNodeHasCommitted_marked marking) tail
      | thrown => exact ⟨s.log, rfl, rfl, .refl _ _ _⟩
      | undefined => exact ⟨s.log, rfl, rfl, .refl _ _ _⟩
      | diverged => exact ⟨s.log, rfl, rfl, .refl _ _ _⟩

/-- `s'` is reached from `s` by applying entries whose counter has reached half the nodes. -/
structure Committed (s : RaftServer Node) (emitted : List (Action Node)) (s' : RaftServer Node) :
    Prop where
  applied : Applied s emitted s'
  counted : ∀ idx, s.lastAppliedIdx < idx → idx ≤ s'.lastAppliedIdx → ∃ entry,
    s.log.entryAt? idx = some entry ∧ ((s.table.count / 2 : ℕ) : Int) ≤ entry.numNodes

/-- Commits can be run one after the other. -/
theorem committed_composes : Composes (@Committed Node) where
  refl s := ⟨applied_composes.refl s, fun idx above below => by omega⟩
  trans {s s' s'' first second} left right := by
    refine ⟨applied_composes.trans left.applied right.applied, fun idx above below => ?_⟩
    by_cases early : idx ≤ s'.lastAppliedIdx
    · exact left.counted idx above early
    · obtain ⟨entry, found, reached⟩ := right.counted idx (by omega) below
      obtain ⟨commit, applied, rfl⟩ := left.applied.frame
      exact ⟨entry, found, reached⟩

/-- An empty log has no entry to apply. -/
theorem Committed.lastAppliedIdx_eq {s s' : RaftServer Node} {emitted : List (Action Node)}
    (committed : Committed s emitted s') (empty : s.log = []) :
    s'.lastAppliedIdx = s.lastAppliedIdx := by
  obtain ⟨count, moved, -⟩ := committed.applied.consecutive
  cases count with
  | zero => simpa using moved
  | succ count =>
      obtain ⟨entry, found, -⟩ := committed.counted (s.lastAppliedIdx + 1) (Int.lt_succ _)
        (by omega)
      rw [empty] at found
      cases RaftLogger.mem_of_entryAt? found

/-- A pass of the commit loop has nothing to do, cannot fetch the next entry, finds it short of
half the nodes, or applies it. -/
inductive CommitPass (currentIdx : Int) (s : RaftServer Node) : Prop where
  | reached (done : currentIdx ≤ s.commitIdx)
      (pass : commitNext currentIdx s = ⟨.returned false, s, []⟩)
  | refused (behind : s.commitIdx < currentIdx) (outside : s.log.Refuses (s.lastAppliedIdx + 1))
      (pass : commitNext currentIdx s = ⟨.thrown, s, []⟩)
  | before (behind : s.commitIdx < currentIdx) (nonempty : s.log ≠ [])
      (zero : s.lastAppliedIdx + 1 = 0) (pass : commitNext currentIdx s = ⟨.undefined, s, []⟩)
  | short (behind : s.commitIdx < currentIdx) (e : RaftEntry)
      (found : s.log.entryAt? (s.lastAppliedIdx + 1) = some e)
      (pass : commitNext currentIdx s = ⟨.returned false, s, []⟩)
  | applied (behind : s.commitIdx < currentIdx) (e : RaftEntry)
      (found : s.log.entryAt? (s.lastAppliedIdx + 1) = some e)
      (quorum : ((s.table.count / 2 : ℕ) : Int) ≤ e.numNodes)
      (returned : (applyEntry s).exit = .returned 1)
      (pass : commitNext currentIdx s =
        ⟨.returned (decide (e.id ≠ currentIdx)), (applyEntry s).state, (applyEntry s).emitted⟩)

/-- One pass of the commit loop, split over its three tests in the order of the source. -/
theorem commitNext_pass (currentIdx : Int) (s : RaftServer Node) : CommitPass currentIdx s := by
  by_cases behind : s.commitIdx < currentIdx
  · cases s.log.fetch (s.lastAppliedIdx + 1) with
    | refused outside fetched =>
        refine .refused behind outside ?_
        rw [commitNext, if_pos behind, fetched]
        rfl
    | before nonempty zero fetched =>
        refine .before behind nonempty zero ?_
        rw [commitNext, if_pos behind, fetched]
        rfl
    | found e inside fetched =>
        by_cases quorum : ((s.table.count / 2 : ℕ) : Int) ≤ e.numNodes
        · refine .applied behind e inside quorum (by simp [applyEntry, fetched]) ?_
          rw [commitNext, if_pos behind, fetched, Outcome.bind_ofExit_returned, if_pos quorum]
          simp [applyEntry, fetched, Outcome.bind, Effect.returning, Effect.done]
        · refine .short behind e inside ?_
          rw [commitNext, if_pos behind, fetched, Outcome.bind_ofExit_returned, if_neg quorum]
          rfl
  · refine .reached (Int.not_lt.mp behind) ?_
    rw [commitNext, if_neg behind]
    rfl

/-- One pass of the commit loop applies an entry only if half of the nodes are counted for
it. -/
theorem commitNext_committed (currentIdx : Int) (s : RaftServer Node) :
    Committed s (commitNext currentIdx s).emitted (commitNext currentIdx s).state := by
  cases commitNext_pass currentIdx s with
  | reached _ pass => rw [pass]; exact committed_composes.refl s
  | refused _ _ pass => rw [pass]; exact committed_composes.refl s
  | before _ _ _ pass => rw [pass]; exact committed_composes.refl s
  | short _ _ _ pass => rw [pass]; exact committed_composes.refl s
  | applied _ e found quorum returned pass =>
      rw [pass]
      refine ⟨applyEntry_applied s, fun idx above below => ?_⟩
      rcases applyEntry_exit_eq_returned returned with ⟨-, -, -, moved⟩ | ⟨zero, -⟩
      · have here : idx = s.lastAppliedIdx + 1 := by
          simp only at below
          omega
        exact ⟨e, here ▸ found, quorum⟩
      · exact absurd zero (by decide)

/-- The marking loop is bounded by its range of indices. -/
theorem markNodeHasCommitted_exit_ne_diverged (count : ℕ) (idx : Int) (s : RaftServer Node) :
    (markNodeHasCommitted count idx s).exit ≠ .diverged := by
  induction count generalizing idx s with
  | zero => simp [markNodeHasCommitted]
  | succ count ih =>
      refine Outcome.bind_exit_ne_diverged ?_ fun _ _ => ih _ _
      have fetch := RaftLogger.logGetFromIdx_ne_diverged s.log idx
      unfold Outcome.ofExit RaftLogger.logMarkNodeHasCommitted Exit.map
      split <;> simp_all

/-- A pass of the commit loop that goes on has applied an entry. -/
theorem unapplied_commitNext_lt {currentIdx : Int} {s : RaftServer Node}
    (again : (commitNext currentIdx s).exit = .returned true) :
    (commitNext currentIdx s).state.unapplied < s.unapplied := by
  cases commitNext_pass currentIdx s with
  | reached _ pass => simp [pass] at again
  | refused _ _ pass => simp [pass] at again
  | before _ _ _ pass => simp [pass] at again
  | short _ _ _ pass => simp [pass] at again
  | applied _ _ _ _ returned pass =>
      rw [pass]
      exact unapplied_applyEntry_lt returned

/-- A pass has no loop of its own. -/
theorem commitNext_exit_ne_diverged (currentIdx : Int) (s : RaftServer Node) :
    (commitNext currentIdx s).exit ≠ .diverged := by
  cases commitNext_pass currentIdx s <;> simp [*]

/-- The commit loop of `recv_appendentries_response`. -/
def commitEntries (currentIdx : Int) (s : RaftServer Node) :
    Outcome (RaftServer Node) (Action Node) Unit :=
  Outcome.loop (commitNext currentIdx) (s.log.length + 1) s

/-- The commit loop ends: each pass applies an entry, and there are only so many. The bound
in its model is never met. -/
theorem commitEntries_exit_ne_diverged (currentIdx : Int) (s : RaftServer Node) :
    (commitEntries currentIdx s).exit ≠ .diverged :=
  Outcome.loop_exit_ne_diverged _ unapplied (commitNext_exit_ne_diverged _)
    (fun _ again => unapplied_commitNext_lt again) _ _ (Nat.lt_succ_of_le (unapplied_le _))

/-- What the commit loop applies has reached half of the nodes. -/
theorem commitEntries_committed (currentIdx : Int) (s : RaftServer Node) :
    Committed s (commitEntries currentIdx s).emitted (commitEntries currentIdx s).state :=
  Outcome.loop_composes committed_composes _ (commitNext_committed currentIdx) _ s

variable [DecidableEq Node]

/-- The effects of `recv_appendentries_response`. -/
inductive ResponseResult (node : Node) (r : MsgAppendentriesResponse) (s : RaftServer Node) :
    RaftServer Node → List (Action Node) → Prop where
  | failed (failure : r.success ≠ 1) :
      ResponseResult node r s s
        (s.sends [node] fun node => .appendentries (appendentriesFor node s))
  | succeeded (success : r.success = 1) (marked : RaftLogger)
      (mark : Marked r.firstIdx r.currentIdx s.log marked) (s' : RaftServer Node)
      (emitted : List (Action Node))
      (committed : Committed { s.setNextIdx node r.currentIdx with log := marked } emitted s') :
      ResponseResult node r s s' emitted

/-- The effects of `recv_appendentries_response`, over all of its returns and exceptions: a
refused response changes one next index, and any other one marks entries and then commits. -/
theorem recvAppendentriesResponse_result (node : Node) (r : MsgAppendentriesResponse)
    (s : RaftServer Node) :
    ResponseResult node r s (recvAppendentriesResponse node r s).state
      (recvAppendentriesResponse node r s).emitted := by
  unfold recvAppendentriesResponse
  by_cases success : r.success = 1
  · rw [if_pos success]
    generalize counting : (r.currentIdx - r.firstIdx + 1).toNat = count
    obtain ⟨marked, stateEq, emittedEq, mark⟩ :=
      markNodeHasCommitted_marked count r.firstIdx (s.setNextIdx node r.currentIdx)
    have mark' : Marked r.firstIdx r.currentIdx s.log marked := by
      by_cases low : r.firstIdx ≤ r.currentIdx
      · have last : r.firstIdx + (count : Int) - 1 = r.currentIdx := by omega
        rwa [last] at mark
      · -- An empty range: the loop does not run.
        have none : count = 0 := by omega
        subst none
        have unchanged : s.log = marked := congrArg RaftServer.log stateEq
        rw [← unchanged]
        exact .refl _ _ _
    refine .succeeded success marked mark' _ _ ?_
    apply Outcome.bind_composes committed_composes
    · rw [stateEq, emittedEq]
      exact committed_composes.refl _
    · intro _
      apply Outcome.bind_composes committed_composes
      · exact commitEntries_committed _ _
      · exact fun _ => committed_composes.refl _
  · rw [if_neg success, sendAppendentries_eq]
    exact .failed success

/-- Both loops of `recv_appendentries_response` end. -/
theorem recvAppendentriesResponse_exit_ne_diverged (node : Node) (r : MsgAppendentriesResponse)
    (s : RaftServer Node) : (recvAppendentriesResponse node r s).exit ≠ .diverged := by
  unfold recvAppendentriesResponse
  split
  · refine Outcome.bind_exit_ne_diverged (markNodeHasCommitted_exit_ne_diverged _ _ _)
      fun _ _ => ?_
    refine Outcome.bind_exit_ne_diverged ?_ fun _ _ => by simp
    exact commitEntries_exit_ne_diverged _ _
  · simp

end RaftServer

end CppRaft
