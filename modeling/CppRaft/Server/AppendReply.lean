import CppRaft.Server.Loops

/-!
# Replies to AppendEntries and what becomes of them

A message is refused before anything of the replica changes, or it is accepted: then the
log is cut, step 5 moves the commit index to the end of the kept log or to the index it
assigns, the term is adopted and entries are appended, and only then an entry with id zero
can still turn the reply into a failure. A success reply carries `current_idx`, which is
beyond the last entry in every reachable state.
-/

namespace CppRaft

open Machine

namespace RaftServer

variable {Node : Type}

/-- The commit index and the last applied index that step 5 leaves with the kept log. -/
def indicesAfter (ae : MsgAppendEntries) (kept : RaftLogger) (s : RaftServer Node) : Int × Int :=
  match commitTarget ae s.commitIdx kept with
  | none => (s.commitIdx, s.lastAppliedIdx)
  | some idx => (appliedThrough kept idx, appliedThrough kept idx)

/-- Step 5 does not make an undefined access for a message that is answered. -/
theorem commitTarget_ne_neg_one {asResponce : Bool} {node : Node} {ae : MsgAppendEntries}
    {stack : Int × Int} {s : RaftServer Node} {effect : Effect (RaftServer Node) (Action Node)}
    (defined : (recvAppendentries asResponce node ae stack s).effect? = some effect)
    {kept : RaftLogger} (found : keptLog? ae s = some kept) :
    commitTarget ae s.commitIdx kept ≠ some (-1) := by
  intro target
  exact ((Outcome.effect?_eq_some_iff _ _).mp defined).1
    ((recvAppendentries_exit_eq_undefined_iff _ _ _ _ _).mpr ⟨kept, found, target⟩)

/-- Step 5 of an accepted message assigns its target and then applies on through the kept
log. The apply loop does not look at the commit index of the leader any more. -/
theorem recvAppendentries_commitIdx_eq {asResponce : Bool} {node : Node} {ae : MsgAppendEntries}
    {stack : Int × Int} {s : RaftServer Node} {effect : Effect (RaftServer Node) (Action Node)}
    (defined : (recvAppendentries asResponce node ae stack s).effect? = some effect)
    {kept : RaftLogger} (found : keptLog? ae s = some kept) {idx : Int}
    (target : commitTarget ae s.commitIdx kept = some idx) :
    effect.state.commitIdx = appliedThrough kept idx := by
  obtain ⟨reached, deleted⟩ := (keptLog?_eq_some_iff ae s kept).mp found
  obtain ⟨elapsed, state, votedFor, noticed, -⟩ := noticeLeader_frame asResponce ae s
  have inside : (applyEntries { noticeLeader asResponce ae s with
      log := kept, commitIdx := idx, lastAppliedIdx := idx }).exit ≠ .undefined := by
    rw [Ne, applyEntries_exit_eq_undefined_iff]
    rintro ⟨-, before⟩
    simp only at before
    exact commitTarget_ne_neg_one defined found (before ▸ target)
  have together := (applyEntries_applied { noticeLeader asResponce ae s with
    log := kept, commitIdx := idx, lastAppliedIdx := idx }).together rfl
  have commit : (noticeLeader asResponce ae s).commitIdx = s.commitIdx := by rw [noticed]
  rw [recvAppendentries_commitIdx defined reached deleted, advanceCommit_eq]
  simp only [commit, target]
  rw [← together, applyEntries_lastAppliedIdx _ inside]

/-- The reply to a message: nothing of the replica has changed, or the message was accepted. -/
inductive Answered (asResponce : Bool) (ae : MsgAppendEntries) (s t : RaftServer Node)
    (r : MsgAppendentriesResponse) : Prop where
  | refused (refusal : keptLog? ae s = none) (state : t = noticeLeader asResponce ae s)
      (failure : r.success = 0)
  | accepted (kept : RaftLogger) (found : keptLog? ae s = some kept)
      (keeps : Keeps ae s.log kept) (elapsed : Int)
      (state : t = acceptAppend ae kept elapsed (indicesAfter ae kept s).1
        (indicesAfter ae kept s).2 s)
      (first last : Int) (answer : r = answerTo ae ⟨s.currentTerm, 0, first, last⟩ t.currentIdx)

/-- What a reply of `recv_appendentries` says of the message and of the log that it leaves,
in each of the places that send one. -/
theorem recvAppendentries_answered {asResponce : Bool} {node : Node} {ae : MsgAppendEntries}
    {stack : Int × Int} {s : RaftServer Node} {effect : Effect (RaftServer Node) (Action Node)}
    (defined : (recvAppendentries asResponce node ae stack s).effect? = some effect)
    {r : MsgAppendentriesResponse}
    (reply : .send node (.appendentriesResponse r) ∈ effect.emitted) :
    Answered asResponce ae s effect.state r := by
  cases recvAppendentries_effect? defined with
  | refused reason =>
      obtain ⟨-, -, ⟨⟩⟩ := send_mem_sends.mp reply
      exact .refused (keptLog?_eq_none reason) rfl rfl
  | accepted kept reached deleted keeps elapsed commit last applied advanced =>
      have found := (keptLog?_eq_some_iff ae s kept).mpr ⟨reached, deleted⟩
      have answer : r = answerTo ae ⟨s.currentTerm, 0, stack.1, stack.2⟩
          (s.currentIdx + (acceptedEntries ae.entries).length) := by
        rcases List.mem_append.mp reply with early | late
        · exact absurd early (advanced.sound.send_not_mem _ _)
        · rcases List.mem_append.mp late with pushed | sent
          · obtain ⟨idx, -, other⟩ := List.mem_map.mp pushed
            cases other
          · obtain ⟨-, -, ⟨⟩⟩ := send_mem_sends.mp sent
            rfl
      refine .accepted kept found keeps elapsed ?_ stack.1 stack.2 answer
      cases advanced with
      | unchanged skipped => simp [indicesAfter, skipped]
      | assigned idx target count _ _ _ =>
          have settled := recvAppendentries_commitIdx_eq defined found target
          simp only [acceptAppend] at settled
          simp only [indicesAfter, target, ← settled]

/-- The log after the conflict deletion and before the entries of the message are appended. -/
def logAfterDeletion (ae : MsgAppendEntries) (s : RaftServer Node) : RaftLogger :=
  (keptLog? ae s).getD s.log

/-- What step 5 needs to set the commit index by the rule, if the leader is ahead of it: an empty
log and an index that is not negative; or a last entry with an id within the log, all of which
the leader has committed; or one with an id beyond the log, while the leader has committed
exactly the log or the id is the commit index already; or a negative index of the leader. -/
def FollowsCommitRule (ae : MsgAppendEntries) (log : RaftLogger) (commitIdx : Int) : Prop :=
  commitIdx < ae.leaderCommit →
    (log = [] → 0 ≤ commitIdx) ∧ ∀ tail ∈ log.getLast?,
      0 ≤ tail.id ∧ tail.id ≤ log.logCount ∧ commitIdx ≤ log.logCount ∧
          log.logCount ≤ ae.leaderCommit ∨
        log.logCount < tail.id ∧ (ae.leaderCommit = log.logCount ∨ tail.id = commitIdx) ∨
        ae.leaderCommit < 0 ∧ ae.leaderCommit ≤ tail.id

instance (ae : MsgAppendEntries) (log : RaftLogger) (commitIdx : Int) :
    Decidable (FollowsCommitRule ae log commitIdx) :=
  inferInstanceAs (Decidable (_ → _ ∧ ∀ tail ∈ log.getLast?, _))

/-- The commit index after a message that is answered with success is the larger of the old one
and the smaller of the leader's and the length of the log after the deletion, exactly under
`FollowsCommitRule`. -/
theorem commitIdx_follows_rule_iff {asResponce : Bool} {node : Node} {ae : MsgAppendEntries}
    {stack : Int × Int} {s : RaftServer Node} {effect : Effect (RaftServer Node) (Action Node)}
    (defined : (recvAppendentries asResponce node ae stack s).effect? = some effect)
    {r : MsgAppendentriesResponse}
    (reply : .send node (.appendentriesResponse r) ∈ effect.emitted) (success : r.success = 1) :
    (effect.state.commitIdx =
          max s.commitIdx (min ae.leaderCommit (logAfterDeletion ae s).logCount) ∧
        s.commitIdx ≤ effect.state.commitIdx ∧
        effect.state.commitIdx ≤ max s.commitIdx ae.leaderCommit) ↔
      FollowsCommitRule ae (logAfterDeletion ae s) s.commitIdx := by
  cases recvAppendentries_answered defined reply with
  | refused _ _ failure => exact absurd (success.symm.trans failure) (by decide)
  | accepted kept found _ elapsed state _ _ _ =>
      have inside := commitTarget_ne_neg_one defined found
      rw [state]
      simp only [logAfterDeletion, found, Option.getD_some, acceptAppend, indicesAfter,
        commitTarget, FollowsCommitRule, appliedThrough, RaftLogger.logCount] at inside ⊢
      by_cases behind : s.commitIdx < ae.leaderCommit
      · cases tail : kept.getLast? with
        | none =>
            rw [List.getLast?_eq_none_iff] at tail
            simp only [behind, tail, Option.map_none, ↓reduceIte, List.length_nil, forall_const,
              Option.mem_def, reduceCtorEq, false_implies, implies_true, and_true]
            omega
        | some e =>
            have nonempty : kept ≠ [] := by
              rintro rfl
              cases tail
            simp only [behind, tail, ↓reduceIte, Option.map_some, forall_const, ne_eq,
              Option.some.injEq, nonempty, false_implies, true_and, Option.mem_def,
              forall_eq'] at inside ⊢
            split <;> omega
      · simp only [behind, ↓reduceIte, false_implies, iff_true]
        omega

/-- Two entries with their indices as ids. -/
def twoInOrder (leader : Node) : List (Event Node) :=
  [.recvAppendentries true leader ⟨1, 0, 0, 0, [⟨1, [21]⟩, ⟨2, [22]⟩], by decide⟩ (0, 0)]

/-- A leader that has committed both entries. -/
theorem commitIdx_follows_rule_whole_log :
    RunFrom (.member 0) (traceOn (0 : Fin 3) (twoInOrder 1)) (stateOn 0 (twoInOrder 1)) ∧
      ∃ effect, (recvAppendentries true 1 (.new 1 2 1 0 2) (0, 0)
          (stateOn (0 : Fin 3) (twoInOrder 1))).effect? = some effect ∧
        effect.state.commitIdx = 2 ∧ effect.state.commitIdx =
          max (stateOn (0 : Fin 3) (twoInOrder 1)).commitIdx
            (min 2 (logAfterDeletion (.new 1 2 1 0 2)
              (stateOn (0 : Fin 3) (twoInOrder 1))).logCount) :=
  ⟨run_traceOf _ _ _ (by decide), _, (Option.some_get (by decide)).symm, by decide,
    ((commitIdx_follows_rule_iff (r := ⟨1, 1, 3, 3⟩) (Option.some_get (by decide)).symm
      (by decide) rfl).mpr (by decide)).1⟩

/-- A leader that has committed the first of two entries makes the server commit both. -/
theorem commitIdx_beyond_leaderCommit :
    RunFrom (.member 0) (traceOn (0 : Fin 3) (twoInOrder 1)) (stateOn 0 (twoInOrder 1)) ∧
      ∃ effect, (recvAppendentries true 1 (.new 1 2 1 0 1) (0, 0)
          (stateOn (0 : Fin 3) (twoInOrder 1))).effect? = some effect ∧
        .send 1 (.appendentriesResponse ⟨1, 1, 3, 3⟩) ∈ effect.emitted ∧
        (stateOn (0 : Fin 3) (twoInOrder 1)).commitIdx = 0 ∧ effect.state.commitIdx = 2 :=
  ⟨run_traceOf _ _ _ (by decide), _, (Option.some_get (by decide)).symm, by decide, by decide,
    by decide⟩

/-- Nothing is accepted exactly if the first entry has id zero. -/
theorem acceptedEntries_eq_nil_iff {entries : List MsgEntry} (nonempty : entries ≠ []) :
    acceptedEntries entries = [] ↔ entries.head?.map MsgEntry.intId = some 0 := by
  cases entries with
  | nil => exact absurd rfl nonempty
  | cons first rest => simp [acceptedEntries]

/-- The message is refused before it changes anything; or it is of the current term, deletes
nothing and starts with an entry of id zero, and step 5 finds the commit index where it would
put it. -/
def LeavesReplica (ae : MsgAppendEntries) (s : RaftServer Node) : Prop :=
  (keptLog? ae s).isSome →
    ae.term = s.currentTerm ∧ (ae.prevLogIdx = 0 ∨ ae.prevLogIdx = s.log.logCount) ∧
      ae.entries.head?.map MsgEntry.intId = some 0 ∧
      (s.commitIdx < ae.leaderCommit → ∀ tail ∈ s.log.getLast?,
        s.lastAppliedIdx = s.commitIdx ∧
          (0 ≤ tail.id ∧ tail.id ≤ s.log.logCount ∧ s.commitIdx = s.log.logCount ∨
            (tail.id < 0 ∨ s.log.logCount < tail.id) ∧ tail.id = s.commitIdx))

instance (ae : MsgAppendEntries) (s : RaftServer Node) : Decidable (LeavesReplica ae s) :=
  inferInstanceAs (Decidable (_ → _ ∧ _ ∧ _ ∧ (_ → ∀ tail ∈ s.log.getLast?, _)))

/-- Step 5 on the whole log leaves both indices exactly if it finds them where it puts them:
at the end of the log, or at a last id that is no index of the log. -/
theorem indicesAfter_eq_iff (ae : MsgAppendEntries) (s : RaftServer Node) :
    indicesAfter ae s.log s = (s.commitIdx, s.lastAppliedIdx) ↔
      (s.commitIdx < ae.leaderCommit → ∀ tail ∈ s.log.getLast?,
        s.lastAppliedIdx = s.commitIdx ∧
          (0 ≤ tail.id ∧ tail.id ≤ s.log.logCount ∧ s.commitIdx = s.log.logCount ∨
            (tail.id < 0 ∨ s.log.logCount < tail.id) ∧ tail.id = s.commitIdx)) := by
  unfold indicesAfter commitTarget
  by_cases behind : s.commitIdx < ae.leaderCommit
  · cases tail : s.log.getLast? with
    | none => simp [behind]
    | some e =>
        simp only [behind, ↓reduceIte, Option.map_some, Prod.mk.injEq, appliedThrough,
          RaftLogger.logCount, Option.mem_def, Option.some.injEq, forall_eq', forall_const]
        split <;> split <;> omega
  · simp [behind]

/-- A message that is answered with a failure leaves the log, the indices and the term of the
replica exactly under `LeavesReplica`. -/
theorem rejected_append_untouched_iff {asResponce : Bool} {node : Node} {ae : MsgAppendEntries}
    {stack : Int × Int} {s : RaftServer Node} {effect : Effect (RaftServer Node) (Action Node)}
    (defined : (recvAppendentries asResponce node ae stack s).effect? = some effect)
    {r : MsgAppendentriesResponse}
    (reply : .send node (.appendentriesResponse r) ∈ effect.emitted) (failure : r.success = 0) :
    (effect.state.log = s.log ∧ effect.state.currentIdx = s.currentIdx ∧
        effect.state.commitIdx = s.commitIdx ∧ effect.state.lastAppliedIdx = s.lastAppliedIdx ∧
        effect.state.currentTerm = s.currentTerm) ↔ LeavesReplica ae s := by
  cases recvAppendentries_answered defined reply with
  | refused refusal state _ =>
      obtain ⟨elapsed, role, votedFor, noticed, -⟩ := noticeLeader_frame asResponce ae s
      rw [state, noticed]
      refine iff_of_true ⟨rfl, rfl, rfl, rfl, rfl⟩ fun accepted => ?_
      rw [refusal] at accepted
      cases accepted
  | accepted kept found keeps elapsed state first last answer =>
      have nonempty : ae.entries ≠ [] := by
        intro none
        rw [answer, answerTo, none] at failure
        cases failure
      rw [state]
      simp only [acceptAppend]
      constructor
      · rintro ⟨log, current, commit, applied, term⟩ -
        have none : acceptedEntries ae.entries = [] := List.length_eq_zero_iff.mp (by omega)
        rw [none, List.map_nil, List.append_nil] at log
        subst log
        exact ⟨term, (length_eq_iff_of_keeps keeps).mp rfl,
          (acceptedEntries_eq_nil_iff nonempty).mp none,
          (indicesAfter_eq_iff ae s).mp (Prod.ext commit applied)⟩
      · intro leaves
        obtain ⟨term, whole, zero, indices⟩ := leaves (by simp [found])
        obtain rfl := keeps.isPrefixOf.eq_of_length ((length_eq_iff_of_keeps keeps).mpr whole)
        rw [(indicesAfter_eq_iff ae s).mpr indices,
          (acceptedEntries_eq_nil_iff nonempty).mpr zero]
        exact ⟨List.append_nil _, Int.add_zero _, rfl, rfl, term⟩

/-- A refused message of an old term. -/
theorem rejected_append_untouched_old_term :
    RunFrom (.member 0) (traceOn (0 : Fin 3) (twoInOrder 1)) (stateOn 0 (twoInOrder 1)) ∧
      ∃ effect, (recvAppendentries true 2 (.new 0 0 0 0 2) (7, 8)
          (stateOn (0 : Fin 3) (twoInOrder 1))).effect? = some effect ∧
        effect.state.log = (stateOn (0 : Fin 3) (twoInOrder 1)).log :=
  ⟨run_traceOf _ _ _ (by decide), _, (Option.some_get (by decide)).symm,
    ((rejected_append_untouched_iff (r := ⟨1, 0, 7, 8⟩) (Option.some_get (by decide)).symm
      (by decide) rfl).mpr (by decide)).1⟩

/-- A message of a later term that cuts the log, commits and appends an entry before it fails
on id zero. -/
def failingAppend : MsgAppendEntries :=
  ⟨2, 1, 1, 1, [⟨5, [25]⟩, ⟨0, [26]⟩], by decide⟩

/-- A message with two entries, the second of them with id zero: the reply says that it
failed, with indices from the stack, and the log has lost an entry and gained another. -/
theorem rejected_append_changes_replica :
    RunFrom (.member 0) (traceOn (0 : Fin 3) (twoInOrder 1)) (stateOn 0 (twoInOrder 1)) ∧
      ∃ effect, (recvAppendentries true 1 failingAppend (7, 8)
          (stateOn (0 : Fin 3) (twoInOrder 1))).effect? = some effect ∧
        .send 1 (.appendentriesResponse ⟨1, 0, 7, 8⟩) ∈ effect.emitted ∧
        (stateOn (0 : Fin 3) (twoInOrder 1)).log.map RaftEntry.id = [1, 2] ∧
        effect.state.log.map RaftEntry.id = [1, 5] ∧ effect.state.commitIdx = 1 ∧
        effect.state.currentIdx = 4 ∧ effect.state.currentTerm = 2 :=
  ⟨run_traceOf _ _ _ (by decide), _, (Option.some_get (by decide)).symm, by decide, by decide,
    by decide, by decide, by decide, by decide⟩

/-- A success answer carries `current_idx` and the index after `prevLogIdx`. -/
theorem answerTo_of_success {ae : MsgAppendEntries} {r : MsgAppendentriesResponse}
    {currentIdx : Int} (unset : r.success = 0) (success : (answerTo ae r currentIdx).success = 1) :
    (answerTo ae r currentIdx).currentIdx = currentIdx ∧
      (answerTo ae r currentIdx).firstIdx = ae.prevLogIdx + 1 := by
  unfold answerTo at success ⊢
  split
  · exact ⟨rfl, rfl⟩
  · rename_i refused
    rw [if_neg refused, unset] at success
    cases success

variable [DecidableEq Node]

/-- The timer leaves the log and its counter alone. -/
theorem TimerResult.log_and_currentIdx {msec : Int} {rand : ℕ × ℕ} {s : RaftServer Node}
    {effect : Effect (RaftServer Node) (Action Node)} (timed : TimerResult msec rand s effect) :
    effect.state.log = s.log ∧ effect.state.currentIdx = s.currentIdx := by
  cases timed <;> exact ⟨rfl, rfl⟩

/-- The number of entries that a call deletes from the log. -/
def deletedBy (s : RaftServer Node) : Event Node → ℕ
  | .recvAppendentries _ _ ae _ => s.log.length - (logAfterDeletion ae s).length
  | _ => 0

/-- A step moves `current_idx` with the length of the log, except for the entries it
deletes: `log_delete` is not followed by a change of the counter. -/
theorem StepResult.currentIdx_sub_length {s : RaftServer Node} {event : Event Node}
    {effect : Effect (RaftServer Node) (Action Node)} (result : StepResult s event effect) :
    effect.state.currentIdx - effect.state.log.length =
      s.currentIdx - s.log.length + deletedBy s event := by
  have still : s.currentIdx - s.log.length = s.currentIdx - s.log.length + (0 : ℕ) :=
    (Int.add_zero _).symm
  cases result with
  | @appendentries asResponce node ae stack _ appended =>
      cases appended with
      | refused reason =>
          obtain ⟨elapsed, state, votedFor, noticed, -⟩ := noticeLeader_frame asResponce ae s
          simp only [noticed, deletedBy, logAfterDeletion, keptLog?_eq_none reason,
            Option.getD_none]
          omega
      | accepted kept reached deleted keeps _ _ _ _ _ =>
          have found := (keptLog?_eq_some_iff ae s kept).mpr ⟨reached, deleted⟩
          have shorter := keeps.isPrefixOf.length_le
          simp only [acceptAppend, List.length_append, List.length_map, deletedBy,
            logAfterDeletion, found, Option.getD_some]
          omega
  | appendentriesResponse responded =>
      cases responded with
      | failed _ => exact still
      | succeeded _ marked mark _ _ committed =>
          obtain ⟨commit, applied, rfl⟩ := committed.applied.frame
          simp only [mark.length_eq, setNextIdx]
          exact still
  | requestvote _ _ => exact still
  | requestvoteResponse _ ballot =>
      cases ballot with
      | ignored _ => exact still
      | refused _ _ => exact still
      | counted _ _ => exact still
      | elected _ _ _ =>
          rw [becomeLeader_eq]
          exact still
  | refusedEntry _ _ => exact still
  | appendedEntry _ _ =>
      simp only [appendClient, List.length_append, List.length_singleton, deletedBy]
      omega
  | pending _ entry rest =>
      obtain ⟨commit, applied, rfl⟩ := entry.frame
      rcases rest with rfl | timed
      · exact still
      · rw [timed.log_and_currentIdx.1, timed.log_and_currentIdx.2]
        exact still
  | timer timed =>
      rw [timed.log_and_currentIdx.1, timed.log_and_currentIdx.2]
      exact still

/-- A step keeps `current_idx` above the number of entries. -/
theorem StepResult.length_lt_currentIdx {s : RaftServer Node} {event : Event Node}
    {effect : Effect (RaftServer Node) (Action Node)} (result : StepResult s event effect)
    (above : (s.log.length : Int) < s.currentIdx) :
    (effect.state.log.length : Int) < effect.state.currentIdx := by
  have moved := result.currentIdx_sub_length
  omega

/-- In every reachable state `current_idx` is above the number of entries. -/
theorem RunFrom.length_lt_currentIdx {config : Config Node} {trace : List (Step Node)}
    {s : RaftServer Node} (run : RunFrom config trace s) :
    (s.log.length : Int) < s.currentIdx := by
  apply run.invariant (fun _ s => (s.log.length : Int) < s.currentIdx)
  · exact Int.zero_lt_one
  · intro trace s event effect _ above stepped
    exact (step_result stepped).length_lt_currentIdx above

/-- A response whose range ends beyond the log is refused by the marking loop, if it starts at
one of the indices up to there. -/
theorem recvAppendentriesResponse_exit_eq_thrown {node : Node} {r : MsgAppendentriesResponse}
    {s : RaftServer Node} (success : r.success = 1) (low : 1 ≤ r.firstIdx)
    (range : r.firstIdx ≤ r.currentIdx) (beyond : (s.log.length : Int) < r.currentIdx) :
    (recvAppendentriesResponse node r s).exit = .thrown := by
  have ending := markNodeHasCommitted_exit (r.currentIdx - r.firstIdx + 1).toNat r.firstIdx
    (s.setNextIdx node r.currentIdx)
  rw [show (s.setNextIdx node r.currentIdx).log = s.log from rfl, if_neg (by omega),
    if_neg fun before => by omega] at ending
  rw [recvAppendentriesResponse_eq node r s success, Outcome.bind, ending]

/-- In no reachable state does a success reply carry the index of the last entry, and every
leader whose log is as long as that of the replica throws on it. -/
theorem success_reply_overshoots {config : Config Node} {trace : List (Step Node)}
    {s : RaftServer Node} (run : RunFrom config trace s) {asResponce : Bool} {node : Node}
    {ae : MsgAppendEntries} {stack : Int × Int} {effect : Effect (RaftServer Node) (Action Node)}
    (defined : (recvAppendentries asResponce node ae stack s).effect? = some effect)
    {r : MsgAppendentriesResponse}
    (reply : .send node (.appendentriesResponse r) ∈ effect.emitted) (success : r.success = 1) :
    r.currentIdx ≠ effect.state.log.logCount ∧
      ∀ (peer : Node) (leader : RaftServer Node),
        leader.log.logCount = effect.state.log.logCount →
          (recvAppendentriesResponse peer r leader).exit = .thrown := by
  have above := (StepResult.appendentries (recvAppendentries_effect? defined)).length_lt_currentIdx
    (RunFrom.length_lt_currentIdx run)
  cases recvAppendentries_answered defined reply with
  | refused _ _ failure => exact absurd (success.symm.trans failure) (by decide)
  | accepted kept _ keeps elapsed state first last answer =>
      obtain ⟨current, start⟩ := answerTo_of_success rfl (answer ▸ success)
      rw [← answer] at current start
      have bounds := keeps.prevLogIdx_bounds
      have longer : kept.length ≤ effect.state.log.length := by
        rw [state]
        simp [acceptAppend]
      simp only [RaftLogger.logCount]
      refine ⟨by omega, fun peer leader same => ?_⟩
      exact recvAppendentriesResponse_exit_eq_thrown success (by omega) (by omega) (by omega)

/-- The reply of a fresh replica to a message without entries. -/
theorem success_reply_overshoots_fresh :
    ∃ effect, (recvAppendentries true 1 (.new 1 0 0 0 0) (0, 0)
        (init (.member (0 : Fin 3)))).effect? = some effect ∧
      .send 1 (.appendentriesResponse ⟨0, 1, 1, 1⟩) ∈ effect.emitted ∧
      (1 : Int) ≠ effect.state.log.logCount :=
  ⟨_, (Option.some_get (by decide)).symm, by decide,
    (success_reply_overshoots (r := ⟨0, 1, 1, 1⟩) .nil (Option.some_get (by decide)).symm
      (by decide) rfl).1⟩

/-- A fresh replica accepts the heartbeat of a leader whose log is empty as well, and the leader
throws on the reply. -/
theorem success_reply_thrown_by_leader :
    RunFrom (.member 1) (traceOn (1 : Fin 3) (candidacy 1000 (0, 0) ⟨1, 1⟩ [2]))
        (stateOn 1 (candidacy 1000 (0, 0) ⟨1, 1⟩ [2])) ∧
      (stateOn (1 : Fin 3) (candidacy 1000 (0, 0) ⟨1, 1⟩ [2])).state = .leader ∧
      (stateOn (1 : Fin 3) (candidacy 1000 (0, 0) ⟨1, 1⟩ [2])).log.logCount = 0 ∧
      ∃ effect, (recvAppendentries true 1 (.new 1 0 0 0 0) (0, 0)
          (init (.member (0 : Fin 3)))).effect? = some effect ∧
        effect.state.log.logCount = 0 ∧
        .send 1 (.appendentriesResponse ⟨0, 1, 1, 1⟩) ∈ effect.emitted ∧
        (recvAppendentriesResponse 0 ⟨0, 1, 1, 1⟩
          (stateOn (1 : Fin 3) (candidacy 1000 (0, 0) ⟨1, 1⟩ [2]))).exit = .thrown :=
  ⟨run_traceOf _ _ _ (by decide), by decide, by decide, _, (Option.some_get (by decide)).symm,
    by decide, by decide, by decide⟩

end RaftServer

end CppRaft
