import CppRaft.Server.Application

/-!
# The counters beside the log

`current_idx` is documented as the size of the log and `commit_idx` is an index
of it. Both are counters of their own: an append moves the first one, but
`log_delete` does not move it back, and step 5 of `recv_appendentries` assigns the
second one from the id of an entry. A message leaves both in step with the log
exactly if it deletes nothing and step 5 finds an id within the log.
-/

namespace CppRaft

open Machine

namespace RaftServer

variable {Node : Type}

/-- The counters are in step with the log. -/
structure Bookkept (s : RaftServer Node) : Prop where
  current : s.currentIdx = s.log.logCount + 1
  commitLow : 0 ≤ s.commitIdx
  commitHigh : s.commitIdx ≤ s.log.logCount

/-- Applying entries moves the last applied index not at all, or from an index of the log to a
later one. -/
def MovesWithin (s : RaftServer Node) (_ : List (Action Node)) (s' : RaftServer Node) : Prop :=
  s'.log = s.log ∧ (s'.lastAppliedIdx = s.lastAppliedIdx ∨
    0 ≤ s.lastAppliedIdx ∧ s.lastAppliedIdx ≤ s'.lastAppliedIdx ∧
      s'.lastAppliedIdx ≤ s.log.length)

/-- Moves within the log can be made one after the other. -/
theorem movesWithin_composes : Composes (@MovesWithin Node) where
  refl _ := ⟨rfl, Or.inl rfl⟩
  trans {s s' s'' _ _} first second := by
    obtain ⟨log, moved⟩ := first
    obtain ⟨log', moved'⟩ := second
    refine ⟨log'.trans log, ?_⟩
    rw [log] at moved'
    omega

/-- Applying an entry moves the indices within the log. -/
theorem applyEntry_movesWithin (s : RaftServer Node) :
    MovesWithin s (applyEntry s).emitted (applyEntry s).state := by
  unfold applyEntry
  split
  case h_1 e found =>
      rw [RaftLogger.logGetFromIdx_eq_returned_iff] at found
      have bounds := RaftLogger.entryAt?_eq_some_bounds found
      exact ⟨rfl, Or.inr ⟨by omega, Int.le_add_one (Int.le_refl _), bounds.2⟩⟩
  all_goals exact movesWithin_composes.refl s

/-- So does the loop over it. -/
theorem applyEntries_movesWithin (s : RaftServer Node) :
    MovesWithin s (applyEntries s).emitted (applyEntries s).state := by
  apply Outcome.loop_composes movesWithin_composes
  intro s
  exact Outcome.bind_composes movesWithin_composes _ _ _ (applyEntry_movesWithin s)
    (fun _ => movesWithin_composes.refl _)

/-- Step 5 leaves the commit index, or assigns an index and moves on within the log, one
entry at a time. -/
theorem advanceCommit_commitIdx (ae : MsgAppendEntries) (s : RaftServer Node) :
    match commitTarget ae s.commitIdx s.log with
    | none => (advanceCommit ae s).state.commitIdx = s.commitIdx
    | some idx => (advanceCommit ae s).state.commitIdx = idx ∨
        0 ≤ idx ∧ idx ≤ (advanceCommit ae s).state.commitIdx ∧
          (advanceCommit ae s).state.commitIdx ≤ s.log.length := by
  rw [advanceCommit_eq]
  cases commitTarget ae s.commitIdx s.log with
  | none => rfl
  | some idx =>
      have moved := applyEntries_movesWithin { s with commitIdx := idx, lastAppliedIdx := idx }
      have together := (applyEntries_applied
        { s with commitIdx := idx, lastAppliedIdx := idx }).together rfl
      rw [MovesWithin, together] at moved
      exact moved.2

/-- The commit index of an accepted message is the one that step 5 leaves: the append loop
and the reply do not touch it. -/
theorem recvAppendentries_commitIdx {asResponce : Bool} {node : Node} {ae : MsgAppendEntries}
    {stack : Int × Int} {s : RaftServer Node} {effect : Effect (RaftServer Node) (Action Node)}
    (defined : (recvAppendentries asResponce node ae stack s).effect? = some effect)
    (reached : s.currentTerm ≤ ae.term) {kept : RaftLogger}
    (deleted : deleteConflicts ae s.log = .returned (some kept)) :
    effect.state.commitIdx =
      (advanceCommit ae { noticeLeader asResponce ae s with log := kept }).state.commitIdx := by
  unfold recvAppendentries at defined
  simp only [noticeLeader_currentTerm, noticeLeader_log] at defined
  rw [if_neg (Int.not_lt.mpr reached), deleted, Outcome.bind_ofExit_returned] at defined
  obtain ⟨⟨⟩, rest, -, tail, stateEq, -⟩ :=
    Outcome.bind_effect?_eq_some (advanceCommit_exit_ne_thrown ae _) defined
  rw [appendAndReply_eq, Outcome.effect?_eq_some_iff] at tail
  obtain ⟨-, -, rfl⟩ := tail
  obtain ⟨state, votedFor, demoted⟩ :=
    demote_frame (advanceCommit ae { noticeLeader asResponce ae s with log := kept }).state
  rw [stateEq, demoted]
  rfl

/-- The message deletes nothing: it starts at index zero or after the last entry. Where it
moves the commit index, the id of the last entry is an index and does not take the commit index
beyond the log, the entries of the message included. -/
def StaysWithin (s : RaftServer Node) : Event Node → Prop
  | .recvAppendentries _ _ ae _ =>
      (keptLog? ae s).isSome →
        (ae.prevLogIdx = 0 ∨ ae.prevLogIdx = s.log.logCount) ∧
        (s.commitIdx < ae.leaderCommit → ∀ tail ∈ s.log.getLast?, 0 ≤ tail.id ∧
          (tail.id ≤ s.log.logCount + (acceptedEntries ae.entries).length ∨
            ae.leaderCommit ≤ s.log.logCount + (acceptedEntries ae.entries).length))
  | _ => True

instance (s : RaftServer Node) (event : Event Node) : Decidable (StaysWithin s event) := by
  cases_type Event <;> dsimp only [StaysWithin] <;> infer_instance

/-- Steps 2 and 3 keep the whole log if the message starts at index zero or after the last
entry. -/
theorem length_eq_iff_of_keeps {ae : MsgAppendEntries} {log kept : RaftLogger}
    (keeps : Keeps ae log kept) :
    kept.length = log.length ↔ ae.prevLogIdx = 0 ∨ ae.prevLogIdx = log.logCount := by
  cases keeps with
  | all first => simp [first]
  | upTo found _ =>
      have bounds := RaftLogger.entryAt?_eq_some_bounds found
      rw [List.length_take, RaftLogger.logCount]
      omega

/-- The counters after a message is accepted are in step exactly if nothing was deleted and
the commit index lies within the new log. -/
theorem bookkept_acceptAppend_iff (ae : MsgAppendEntries) (kept : RaftLogger)
    (elapsed commit last : Int) {s : RaftServer Node} (books : Bookkept s) :
    Bookkept (acceptAppend ae kept elapsed commit last s) ↔
      kept.length = s.log.length ∧ 0 ≤ commit ∧
        commit ≤ kept.length + (acceptedEntries ae.entries).length := by
  have current := books.current
  have count : RaftLogger.logCount (acceptAppend ae kept elapsed commit last s).log =
      kept.length + (acceptedEntries ae.entries).length := by
    simp [acceptAppend, RaftLogger.logCount]
  rw [RaftLogger.logCount] at current
  constructor
  · rintro ⟨current', low, high⟩
    rw [count] at current' high
    simp only [acceptAppend] at current' low high
    exact ⟨by omega, low, high⟩
  · rintro ⟨whole, low, high⟩
    refine ⟨?_, low, by rwa [count]⟩
    rw [count]
    simp only [acceptAppend]
    omega

/-- A message that finds the counters in step leaves them so exactly if it stays within the
log. -/
theorem recvAppendentries_bookkept_iff {asResponce : Bool} {node : Node} {ae : MsgAppendEntries}
    {stack : Int × Int} {s : RaftServer Node} {effect : Effect (RaftServer Node) (Action Node)}
    (defined : (recvAppendentries asResponce node ae stack s).effect? = some effect)
    (books : Bookkept s) :
    Bookkept effect.state ↔ StaysWithin s (.recvAppendentries asResponce node ae stack) := by
  obtain ⟨elapsed, state, votedFor, noticed, -⟩ := noticeLeader_frame asResponce ae s
  cases recvAppendentries_effect? defined with
  | refused reason =>
      rw [noticed]
      refine iff_of_true ⟨books.current, books.commitLow, books.commitHigh⟩ ?_
      intro accepted
      rw [keptLog?_eq_none reason] at accepted
      cases accepted
  | accepted kept reached deleted keeps elapsed' commit last _ _ =>
      have keptSome := (keptLog?_eq_some_iff ae s kept).mpr ⟨reached, deleted⟩
      have step5 := advanceCommit_commitIdx ae { noticeLeader asResponce ae s with log := kept }
      rw [← recvAppendentries_commitIdx defined reached deleted, noticed] at step5
      simp only [StaysWithin, keptSome, Option.isSome_some, forall_const,
        ← length_eq_iff_of_keeps keeps,
        bookkept_acceptAppend_iff ae kept elapsed' commit last books]
      refine and_congr_right fun whole => ?_
      obtain rfl := keeps.isPrefixOf.eq_of_length whole
      have low := books.commitLow
      have high := books.commitHigh
      simp only [commitTarget, acceptAppend, RaftLogger.logCount] at step5 high ⊢
      by_cases behind : s.commitIdx < ae.leaderCommit
      · cases tail : s.log.getLast? with
        | none =>
            simp only [behind, ↓reduceIte, tail, Option.map_none] at step5
            simp only [Option.mem_def, reduceCtorEq, false_implies, implies_true, iff_true]
            omega
        | some e =>
            simp only [behind, ↓reduceIte, tail, Option.map_some] at step5
            simp only [behind, Option.mem_def, Option.some.injEq, forall_const, forall_eq']
            split at step5 <;> omega
      · simp only [behind, ↓reduceIte] at step5
        simp only [behind, false_implies, iff_true]
        omega

variable [DecidableEq Node]

/-- Marking, committing and applying what the log has keeps the counters in step, as the log
keeps its length. -/
theorem ResponseResult.bookkept {node : Node} {r : MsgAppendentriesResponse}
    {s s' : RaftServer Node} {emitted : List (Action Node)}
    (result : ResponseResult node r s s' emitted) (together : s.lastAppliedIdx = s.commitIdx)
    (books : Bookkept s) : Bookkept s' := by
  cases result with
  | failed _ => exact books
  | succeeded _ marked mark _ _ committed =>
      have agree := committed.applied.together together
      obtain ⟨count, moved, -⟩ := committed.applied.consecutive
      have reached := committed.counted s'.lastAppliedIdx
      obtain ⟨commit, last, rfl⟩ := committed.applied.frame
      have length := mark.length_eq
      have current := books.current
      have low := books.commitLow
      have high := books.commitHigh
      simp only [setNextIdx, RaftLogger.logCount] at agree moved reached current high
      refine ⟨by simp only [setNextIdx, RaftLogger.logCount]; omega, by simp only; omega, ?_⟩
      simp only [RaftLogger.logCount]
      by_cases still : last = s.lastAppliedIdx
      · omega
      · obtain ⟨entry, found, -⟩ := reached (by omega) (Int.le_refl _)
        have bounds := RaftLogger.entryAt?_eq_some_bounds found
        omega

/-- A step of a server whose counters are in step keeps them so exactly under `StaysWithin`;
only AppendEntries messages can violate it. -/
theorem step_bookkept_iff {s : RaftServer Node} {event : Event Node}
    {effect : Effect (RaftServer Node) (Action Node)}
    (stepped : (machine Node).step s event = some effect)
    (together : s.lastAppliedIdx = s.commitIdx) (books : Bookkept s) :
    Bookkept effect.state ↔ StaysWithin s event := by
  cases step_result stepped with
  | appendentries _ => exact recvAppendentries_bookkept_iff stepped books
  | appendentriesResponse responded => exact iff_of_true (responded.bookkept together books) trivial
  | requestvote _ _ => exact iff_of_true ⟨books.current, books.commitLow, books.commitHigh⟩ trivial
  | requestvoteResponse _ ballot =>
      refine iff_of_true ?_ trivial
      cases ballot with
      | ignored _ => exact books
      | refused _ _ => exact ⟨books.current, books.commitLow, books.commitHigh⟩
      | counted _ _ => exact ⟨books.current, books.commitLow, books.commitHigh⟩
      | elected _ _ _ =>
          rw [becomeLeader_eq]
          exact ⟨books.current, books.commitLow, books.commitHigh⟩
  | refusedEntry _ _ => exact iff_of_true books trivial
  | appendedEntry _ _ =>
      have current := books.current
      have high := books.commitHigh
      refine iff_of_true ⟨?_, books.commitLow, ?_⟩ trivial
      all_goals
        simp only [appendClient, RaftLogger.logCount, List.length_append, List.length_singleton,
          Int.natCast_add, Int.natCast_one] at current high ⊢
        omega
  | pending due _ _ =>
      rw [hasPendingEntry_of_together together] at due
      cases due
  | timer timed =>
      refine iff_of_true ?_ trivial
      cases timed <;> exact ⟨books.current, books.commitLow, books.commitHigh⟩

/-- In every run the counters are in step with the log throughout if and only if every message
stays within the log it meets. -/
theorem counters_follow_log_iff (config : Config Node) (trace : List (Step Node))
    (s : RaftServer Node) (run : RunFrom config trace s) :
    (∀ t ∈ trace, t.after.currentIdx = t.after.log.logCount + 1 ∧ 0 ≤ t.after.commitIdx ∧
        t.after.commitIdx ≤ t.after.log.logCount) ↔
      ∀ t ∈ trace, StaysWithin t.before t.event := by
  have books := run.forall_after_iff (I := Bookkept)
    (P := fun t => StaysWithin t.before t.event) ⟨rfl, Int.le_refl 0, Int.le_refl 0⟩
    fun reached books stepped => step_bookkept_iff stepped (RunFrom.together reached) books
  rw [← books.1]
  exact forall₂_congr fun t _ =>
    ⟨fun ⟨current, low, high⟩ => ⟨current, low, high⟩,
      fun kept => ⟨kept.current, kept.commitLow, kept.commitHigh⟩⟩

/-- Two entries and a third after them, the first of which is committed. -/
def appendInOrder (leader : Node) : List (Event Node) :=
  [.recvAppendentries true leader ⟨1, 0, 0, 0, [⟨1, [10]⟩, ⟨2, [20]⟩], by decide⟩ (0, 0),
    .recvAppendentries true leader ⟨1, 2, 1, 1, [⟨3, [30]⟩], by decide⟩ (0, 0)]

/-- Three entries that come in order: the counters follow the log throughout. -/
theorem counters_follow_log_in_order :
    (stateOn (0 : Fin 3) (appendInOrder 1)).log.logCount = 3 ∧
      ∀ t ∈ traceOn (0 : Fin 3) (appendInOrder 1),
        t.after.currentIdx = t.after.log.logCount + 1 ∧ 0 ≤ t.after.commitIdx ∧
          t.after.commitIdx ≤ t.after.log.logCount :=
  ⟨by decide, (counters_follow_log_iff (.member 0) _ _
    (run_traceOf (machine (Fin 3)) _ (appendInOrder 1) (by decide))).mpr (by decide)⟩

/-- Two entries, of which a message that starts after the first deletes the second. -/
def deleteSecondEntry (leader : Node) : List (Event Node) :=
  [.recvAppendentries true leader ⟨1, 0, 0, 0, [⟨1, [10]⟩, ⟨2, [20]⟩], by decide⟩ (0, 0),
    .recvAppendentries true leader (.new 1 1 1 0 0) (0, 0)]

/-- One entry with a large id and a leader that has committed more. -/
def commitLargeId (leader : Node) : List (Event Node) :=
  [.recvAppendentries true leader ⟨1, 0, 0, 0, [⟨9, [10]⟩], by decide⟩ (0, 0),
    .recvAppendentries true leader (.new 1 1 1 0 7) (0, 0)]

/-- A deletion leaves `current_idx` behind, and an id takes `commit_idx` out of the log. -/
theorem counters_leave_log :
    RunFrom (.member 0) (traceOn (0 : Fin 3) (deleteSecondEntry 1))
        (stateOn 0 (deleteSecondEntry 1)) ∧
      (stateOn (0 : Fin 3) (deleteSecondEntry 1)).log.logCount = 1 ∧
      (stateOn (0 : Fin 3) (deleteSecondEntry 1)).currentIdx = 3 ∧
      RunFrom (.member 0) (traceOn (0 : Fin 3) (commitLargeId 1)) (stateOn 0 (commitLargeId 1)) ∧
      (stateOn (0 : Fin 3) (commitLargeId 1)).log.logCount = 1 ∧
      (stateOn (0 : Fin 3) (commitLargeId 1)).commitIdx = 7 :=
  ⟨run_traceOf _ _ _ (by decide), by decide, by decide, run_traceOf _ _ _ (by decide),
    by decide, by decide⟩

end RaftServer

end CppRaft
