import Mathlib.Data.List.TakeWhile
import CppRaft.Server.Applied
import CppRaft.Server.Broadcast

/-!
# What `recv_appendentries` does

The handler refuses a message and answers, or keeps a prefix of the log, moves
the commit index, adopts the term of the message and appends its entries up to
the first one with id zero.
-/

namespace CppRaft

open Machine

/-- The leading entries of a message that the append loop accepts. -/
def acceptedEntries (entries : List MsgEntry) : List MsgEntry :=
  entries.takeWhile fun entry => entry.intId ≠ 0

/-- An entry with id zero is not accepted: `append_entry` refuses it and ends the loop. -/
theorem intId_ne_zero_of_mem_acceptedEntries {entries : List MsgEntry} {entry : MsgEntry}
    (member : entry ∈ acceptedEntries entries) : entry.intId ≠ 0 := by
  have test := List.mem_takeWhile_imp member
  simpa using test

/-- What steps 2 and 3 keep of a log when they do not refuse the message. -/
inductive Keeps (ae : MsgAppendEntries) (log : RaftLogger) : RaftLogger → Prop where
  | all : ae.prevLogIdx = 0 → Keeps ae log log
  | upTo {entry : RaftEntry} : log.entryAt? ae.prevLogIdx = some entry →
      entry.term = ae.prevLogTerm → Keeps ae log (log.take ae.prevLogIdx.toNat)

/-- The kept entries are a prefix of the log. -/
theorem Keeps.isPrefixOf {ae : MsgAppendEntries} {log kept : RaftLogger}
    (keeps : Keeps ae log kept) : kept <+: log := by
  cases keeps with
  | all _ => exact List.prefix_refl _
  | upTo _ _ => exact List.take_prefix _ _

/-- A message from the beginning deletes nothing. -/
theorem Keeps.eq_of_prevLogIdx_eq_zero {ae : MsgAppendEntries} {log kept : RaftLogger}
    (keeps : Keeps ae log kept) (first : ae.prevLogIdx = 0) : kept = log := by
  cases keeps with
  | all _ => rfl
  | upTo found _ =>
      have bounds := RaftLogger.entryAt?_eq_some_bounds found
      omega

/-- A message that is accepted starts after an index of what it keeps. -/
theorem Keeps.prevLogIdx_bounds {ae : MsgAppendEntries} {log kept : RaftLogger}
    (keeps : Keeps ae log kept) : 0 ≤ ae.prevLogIdx ∧ ae.prevLogIdx ≤ kept.length := by
  cases keeps with
  | all first => omega
  | upTo found _ =>
      have bounds := RaftLogger.entryAt?_eq_some_bounds found
      rw [List.length_take]
      omega

/-- A message that is accepted leaves an empty log only where it found one. -/
theorem Keeps.log_eq_nil {ae : MsgAppendEntries} {log kept : RaftLogger}
    (keeps : Keeps ae log kept) (empty : kept = []) : log = [] := by
  cases keeps with
  | all _ => exact empty
  | upTo found _ =>
      have bounds := RaftLogger.entryAt?_eq_some_bounds found
      rcases List.take_eq_nil_iff.mp empty with zero | none
      · omega
      · exact none

namespace RaftServer

variable {Node : Type}

/-- Steps 2 and 3 of `recv_appendentries` refuse the message or keep a prefix of the log:
`log_delete` cuts from an index on, and nothing else in them writes the log. -/
theorem deleteConflicts_cases (ae : MsgAppendEntries) (log : RaftLogger) :
    deleteConflicts ae log = .returned none ∨
      ∃ kept, deleteConflicts ae log = .returned (some kept) ∧ Keeps ae log kept := by
  unfold deleteConflicts MsgAppendEntries.hasAnyLogs
  by_cases first : ae.prevLogIdx = 0
  · exact Or.inr ⟨log, by simp [first], .all first⟩
  · simp only [first, ne_eq, not_false_eq_true, decide_true, ↓reduceIte]
    split
    case h_1 e found =>
        rw [RaftLogger.logGetFromIdx_eq_returned_iff] at found
        have bounds := RaftLogger.entryAt?_eq_some_bounds found
        rw [RaftLogger.logDelete_succ (by omega) bounds.2]
        by_cases sameTerm : e.term = ae.prevLogTerm
        · exact Or.inr ⟨_, by simp [sameTerm], .upTo found sameTerm⟩
        · exact Or.inl (by simp [sameTerm])
    case h_2 => exact Or.inl rfl
    case h_3 undefined =>
        rw [RaftLogger.logGetFromIdx_eq_undefined_iff] at undefined
        exact absurd undefined.2 first
    case h_4 diverged => exact absurd diverged (RaftLogger.logGetFromIdx_ne_diverged _ _)

/-- Steps 2 and 3 keep only what they return. -/
theorem deleteConflicts_of_keeps {ae : MsgAppendEntries} {log kept : RaftLogger}
    (keeps : Keeps ae log kept) : deleteConflicts ae log = .returned (some kept) := by
  unfold deleteConflicts MsgAppendEntries.hasAnyLogs
  cases keeps with
  | all first => simp [first]
  | upTo found sameTerm =>
      have bounds := RaftLogger.entryAt?_eq_some_bounds found
      have later : ae.prevLogIdx ≠ 0 := by omega
      simp only [later, ne_eq, not_false_eq_true, decide_true, ↓reduceIte,
        (RaftLogger.logGetFromIdx_eq_returned_iff _ _ _).mpr found, sameTerm, not_true_eq_false,
        RaftLogger.logDelete_succ (show 0 ≤ ae.prevLogIdx by omega) bounds.2]

/-- The index that step 5 assigns to `commit_idx` and `last_applied_idx`, if it assigns one. -/
def commitTarget (ae : MsgAppendEntries) (commitIdx : Int) (log : RaftLogger) : Option Int :=
  if commitIdx < ae.leaderCommit then
    log.getLast?.map fun e => if e.id < ae.leaderCommit then e.id else ae.leaderCommit
  else none

/-- The commit part of `recv_appendentries`: it sets both indices to the target and only
then applies from there. -/
theorem advanceCommit_eq (ae : MsgAppendEntries) (s : RaftServer Node) :
    advanceCommit ae s =
      match commitTarget ae s.commitIdx s.log with
      | none => (Effect.done s).returning ()
      | some idx => applyEntries { s with commitIdx := idx, lastAppliedIdx := idx } := by
  unfold advanceCommit commitTarget RaftLogger.logPeektail
  by_cases behind : s.commitIdx < ae.leaderCommit
  · cases tail : s.log.getLast? <;> simp [behind]
  · simp [behind]

/-- The commit part does not throw. -/
theorem advanceCommit_exit_ne_thrown (ae : MsgAppendEntries) (s : RaftServer Node) :
    (advanceCommit ae s).exit ≠ .thrown := by
  rw [advanceCommit_eq]
  split
  · simp
  · exact applyEntries_exit_ne_thrown _

/-- The append loop pushes the accepted entries, each stamped with the current term and not
with a term of the message. It ends at the first entry that `append_entry` refuses. -/
theorem appendMsgEntries_eq (entries : List MsgEntry) (s : RaftServer Node) :
    appendMsgEntries entries s =
      ⟨.returned (if entries.all (fun entry => entry.intId ≠ 0) then 1 else 0),
        { s with
          log := s.log ++ (acceptedEntries entries).map (RaftEntry.ofMsgEntry s.currentTerm)
          currentIdx := s.currentIdx + (acceptedEntries entries).length },
        (indicesFrom s.log.length (acceptedEntries entries).length).map .appended⟩ := by
  induction entries generalizing s with
  | nil => simp [appendMsgEntries, acceptedEntries, indicesFrom, Effect.returning, Effect.done]
  | cons entry rest ih =>
      unfold appendMsgEntries appendEntry RaftLogger.logAppendEntry
      by_cases zero : entry.intId = 0
      · simp [RaftEntry.ofMsgEntry, zero, Outcome.bind, acceptedEntries, indicesFrom,
          Effect.returning, Effect.done]
      · have shifted : indicesFrom (s.log.length : Int) ((acceptedEntries rest).length + 1) =
            ((s.log.length : Int) + 1) ::
              indicesFrom ((s.log.length : Int) + 1) (acceptedEntries rest).length := by
          rw [Nat.add_comm, indicesFrom_add]
          simp [indicesFrom]
        have accepted : acceptedEntries (entry :: rest) = entry :: acceptedEntries rest := by
          simp [acceptedEntries, zero]
        rw [accepted, List.length_cons, shifted]
        simp only [RaftEntry.ofMsgEntry, zero, ↓reduceIte, Outcome.bind, Int.one_ne_zero, ih,
          RaftLogger.logCount, List.length_append, List.length_cons, List.length_nil,
          List.append_assoc, List.map_cons, List.all_cons, ne_eq, not_false_eq_true, decide_true,
          Bool.true_and, List.cons_append, List.nil_append, Nat.zero_add, Int.natCast_add,
          Int.natCast_one]
        congr 2
        omega

/-- The state after the accepted entries of a message are appended in its term. -/
def appendAccepted (ae : MsgAppendEntries) (s : RaftServer Node) : RaftServer Node :=
  { s with
    currentTerm := ae.term
    log := s.log ++ (acceptedEntries ae.entries).map (RaftEntry.ofMsgEntry ae.term)
    currentIdx := s.currentIdx + (acceptedEntries ae.entries).length }

/-- The reply that ends `recv_appendentries`, as an emission. -/
def replyActions (node : Node) (r : MsgAppendentriesResponse) (s : RaftServer Node) :
    List (Action Node) :=
  s.sends [node] fun _ => .appendentriesResponse r

/-- The reply leaves the server as it is. -/
theorem replyAppendentries_eq (node : Node) (r : MsgAppendentriesResponse)
    (s : RaftServer Node) : replyAppendentries node r s = ⟨s, replyActions node r s⟩ := by
  unfold replyAppendentries replyActions sends
  split <;> rfl

/-- The answer to a message whose entries were appended, up to `currentIdx`. -/
def answerTo (ae : MsgAppendEntries) (r : MsgAppendentriesResponse) (currentIdx : Int) :
    MsgAppendentriesResponse :=
  if ae.entries.all (fun entry => entry.intId ≠ 0) then
    { r with success := 1, currentIdx := currentIdx, firstIdx := ae.prevLogIdx + 1 }
  else r

/-- Stepping down touches the role and the vote. -/
theorem demote_frame (s : RaftServer Node) :
    ∃ state votedFor, demote s = { s with state := state, votedFor := votedFor } := by
  unfold demote becomeFollower
  split
  · exact ⟨_, _, rfl⟩
  · exact ⟨s.state, s.votedFor, rfl⟩

/-- The end of `recv_appendentries`. -/
theorem appendAndReply_eq (node : Node) (ae : MsgAppendEntries) (r : MsgAppendentriesResponse)
    (s : RaftServer Node) :
    appendAndReply node ae r s =
      ⟨.returned 1, appendAccepted ae (demote s),
        (indicesFrom s.log.length (acceptedEntries ae.entries).length).map .appended ++
          replyActions node
            (answerTo ae r (s.currentIdx + (acceptedEntries ae.entries).length)) s⟩ := by
  obtain ⟨state, votedFor, demoted⟩ := demote_frame s
  unfold appendAndReply answerTo appendAccepted
  rw [appendMsgEntries_eq, demoted]
  cases all : ae.entries.all (fun entry => entry.intId ≠ 0) <;>
    simp [Outcome.bind, replyAppendentries_eq, replyActions, sends, Effect.returning]

/-- The head of `recv_appendentries` touches the timer, and the role and the vote only of a
leader that steps down. -/
theorem noticeLeader_frame (asResponce : Bool) (ae : MsgAppendEntries) (s : RaftServer Node) :
    ∃ elapsed state votedFor,
      noticeLeader asResponce ae s =
        { s with timeoutElapsed := elapsed, state := state, votedFor := votedFor } ∧
      (state = s.state ∧ votedFor = s.votedFor ∧ (s.state = .leader → ae.term < s.currentTerm) ∨
        state = .follower ∧ s.state = .leader ∧ s.currentTerm ≤ ae.term) := by
  unfold noticeLeader becomeFollower
  cases asResponce
  all_goals
    simp only [Bool.false_eq_true, ↓reduceIte]
    split
    · rename_i stepsDown
      exact ⟨_, _, _, rfl, Or.inr ⟨rfl, stepsDown⟩⟩
    · rename_i stays
      refine ⟨_, s.state, s.votedFor, rfl, Or.inl ⟨rfl, rfl, fun leads => ?_⟩⟩
      exact Int.not_le.mp fun reached => stays ⟨leads, reached⟩

/-- A server that leads or stands for election after the head did so before. -/
theorem noticeLeader_state_of_active {asResponce : Bool} {ae : MsgAppendEntries}
    {s : RaftServer Node} (active : (noticeLeader asResponce ae s).state = .leader ∨
      (noticeLeader asResponce ae s).state = .candidate) :
    (noticeLeader asResponce ae s).state = s.state := by
  obtain ⟨elapsed, state, votedFor, noticed, roles⟩ := noticeLeader_frame asResponce ae s
  rw [noticed] at active ⊢
  rcases roles with ⟨same, -⟩ | ⟨follower, -⟩
  · exact same
  · simp [follower] at active

@[simp] theorem noticeLeader_currentTerm (asResponce : Bool) (ae : MsgAppendEntries)
    (s : RaftServer Node) : (noticeLeader asResponce ae s).currentTerm = s.currentTerm := by
  obtain ⟨elapsed, state, votedFor, noticed, -⟩ := noticeLeader_frame asResponce ae s
  rw [noticed]

@[simp] theorem noticeLeader_log (asResponce : Bool) (ae : MsgAppendEntries)
    (s : RaftServer Node) : (noticeLeader asResponce ae s).log = s.log := by
  obtain ⟨elapsed, state, votedFor, noticed, -⟩ := noticeLeader_frame asResponce ae s
  rw [noticed]

/-- `recv_appendentries` ends: the apply loop has a falling measure, and the append loop
runs over the entries of the message. -/
theorem recvAppendentries_exit_ne_diverged (asResponce : Bool) (node : Node)
    (ae : MsgAppendEntries) (stack : Int × Int) (s : RaftServer Node) :
    (recvAppendentries asResponce node ae stack s).exit ≠ .diverged := by
  unfold recvAppendentries
  simp only
  split
  · simp
  · refine Outcome.bind_exit_ne_diverged ?_ fun kept _ => ?_
    · rcases deleteConflicts_cases ae s.log with refused | ⟨kept, returned, -⟩
      · simp [Outcome.ofExit, refused]
      · simp [Outcome.ofExit, returned]
    · cases kept with
      | none => simp
      | some log =>
          refine Outcome.bind_exit_ne_diverged ?_ fun _ _ => by simp [appendAndReply_eq]
          rw [advanceCommit_eq]
          split
          · simp
          · exact applyEntries_exit_ne_diverged _

/-- Step 5 of `recv_appendentries` on the kept log: the commit index, the last applied index
and the applications it ends with. -/
inductive Advanced (ae : MsgAppendEntries) (kept : RaftLogger) (s : RaftServer Node) :
    Int → Int → List (Action Node) → Prop where
  | unchanged (skipped : commitTarget ae s.commitIdx kept = none) :
      Advanced ae kept s s.commitIdx s.lastAppliedIdx []
  | assigned (idx : Int) (target : commitTarget ae s.commitIdx kept = some idx) (count : ℕ)
      (emitted : List (Action Node))
      (indices : appliedIdxs emitted =
        if s.callbacks.applylog then indicesFrom idx count else [])
      (sound : ApplicationsOf kept emitted) :
      Advanced ae kept s (idx + count) (idx + count) emitted

/-- Step 5 emits applications of entries of the kept log only. -/
theorem Advanced.sound {ae : MsgAppendEntries} {kept : RaftLogger} {s : RaftServer Node}
    {commit last : Int} {emitted : List (Action Node)}
    (advanced : Advanced ae kept s commit last emitted) : ApplicationsOf kept emitted := by
  cases advanced with
  | unchanged _ => exact .nil
  | assigned _ _ _ _ _ sound => exact sound

/-- Step 5 reads the two indices and the callbacks only, so its effect can be computed on a
state that agrees in these. -/
private theorem Advanced.of_frame {ae : MsgAppendEntries} {kept : RaftLogger}
    {s t : RaftServer Node} {commit last : Int} {emitted : List (Action Node)}
    (sameCommit : t.commitIdx = s.commitIdx) (sameLast : t.lastAppliedIdx = s.lastAppliedIdx)
    (sameCallbacks : t.callbacks = s.callbacks)
    (advanced : Advanced ae kept t commit last emitted) :
    Advanced ae kept s commit last emitted := by
  cases advanced with
  | unchanged skipped =>
      rw [sameCommit] at skipped
      rw [sameCommit, sameLast]
      exact .unchanged skipped
  | assigned idx target count _ indices sound =>
      rw [sameCommit] at target
      rw [sameCallbacks] at indices
      exact .assigned idx target count emitted indices sound

/-- What the commit part does to the indices: nothing, or both come to rest at the same
place beyond the target. -/
theorem advanceCommit_advanced (ae : MsgAppendEntries) (s : RaftServer Node) :
    ∃ commit applied,
      (advanceCommit ae s).state = { s with commitIdx := commit, lastAppliedIdx := applied } ∧
      Advanced ae s.log s commit applied (advanceCommit ae s).emitted := by
  rw [advanceCommit_eq]
  split
  case h_1 skipped => exact ⟨_, _, rfl, .unchanged skipped⟩
  case h_2 idx target =>
      have loop := applyEntries_applied { s with commitIdx := idx, lastAppliedIdx := idx }
      obtain ⟨commit, applied, frame⟩ := loop.frame
      obtain ⟨count, moved, indices⟩ := loop.consecutive
      have together := loop.together rfl
      rw [frame] at moved together
      simp only at moved together
      subst moved together
      exact ⟨_, _, frame, .assigned idx target count _ indices loop.sound⟩

/-- The role of a server that accepted a message. -/
def roleAfterAppend (s : RaftServer Node) : RaftState :=
  if s.state = .leader ∨ s.state = .candidate then .follower else s.state

/-- A server that accepted a message neither leads nor stands for election. -/
theorem roleAfterAppend_not_active (s : RaftServer Node) :
    ¬(roleAfterAppend s = .leader ∨ roleAfterAppend s = .candidate) := by
  unfold roleAfterAppend
  split
  · simp
  · assumption

/-- The vote of a server that accepted a message. -/
def voteAfterAppend (s : RaftServer Node) : Option Node :=
  if s.state = .leader ∨ s.state = .candidate then none else s.votedFor

/-- The state of a server that accepted a message of which steps 2 to 5 left these values. -/
def acceptAppend (ae : MsgAppendEntries) (kept : RaftLogger) (elapsed commit last : Int)
    (s : RaftServer Node) : RaftServer Node :=
  { s with
    currentTerm := ae.term
    votedFor := voteAfterAppend s
    log := kept ++ (acceptedEntries ae.entries).map (RaftEntry.ofMsgEntry ae.term)
    commitIdx := commit
    lastAppliedIdx := last
    state := roleAfterAppend s
    currentIdx := s.currentIdx + (acceptedEntries ae.entries).length
    timeoutElapsed := elapsed }

/-- What the end of `recv_appendentries` emits: the pushes and the answer. -/
def acceptActions (node : Node) (ae : MsgAppendEntries) (stack : Int × Int) (kept : RaftLogger)
    (s : RaftServer Node) : List (Action Node) :=
  (indicesFrom kept.length (acceptedEntries ae.entries).length).map .appended ++
    replyActions node
      (answerTo ae ⟨s.currentTerm, 0, stack.1, stack.2⟩
        (s.currentIdx + (acceptedEntries ae.entries).length)) s

/-- The defined effects of `recv_appendentries`. -/
inductive AppendResult (asResponce : Bool) (node : Node) (ae : MsgAppendEntries)
    (stack : Int × Int) (s : RaftServer Node) :
    Effect (RaftServer Node) (Action Node) → Prop where
  | refused (reason : ae.term < s.currentTerm ∨ deleteConflicts ae s.log = .returned none) :
      AppendResult asResponce node ae stack s
        ⟨noticeLeader asResponce ae s,
          replyActions node ⟨s.currentTerm, 0, stack.1, stack.2⟩ s⟩
  | accepted (kept : RaftLogger) (reached : s.currentTerm ≤ ae.term)
      (deleted : deleteConflicts ae s.log = .returned (some kept)) (keeps : Keeps ae s.log kept)
      (elapsed commit last : Int) (applied : List (Action Node))
      (advanced : Advanced ae kept s commit last applied) :
      AppendResult asResponce node ae stack s
        ⟨acceptAppend ae kept elapsed commit last s,
          applied ++ acceptActions node ae stack kept s⟩

/-- The end of `recv_appendentries`, after a head that did not refuse the message: the
appends, the reply, and the state that they leave in one record. -/
private theorem appendAndReply_accept (asResponce : Bool) (node : Node) (ae : MsgAppendEntries)
    (stack : Int × Int) (s : RaftServer Node) (reached : s.currentTerm ≤ ae.term)
    (kept : RaftLogger) (commit last : Int) :
    ∃ elapsed,
      appendAndReply node ae ⟨s.currentTerm, 0, stack.1, stack.2⟩
          { noticeLeader asResponce ae s with
            log := kept, commitIdx := commit, lastAppliedIdx := last } =
        ⟨.returned 1, acceptAppend ae kept elapsed commit last s,
          acceptActions node ae stack kept s⟩ := by
  refine ⟨if asResponce then 0 else s.timeoutElapsed, ?_⟩
  rw [appendAndReply_eq]
  unfold acceptAppend acceptActions appendAccepted demote noticeLeader becomeFollower
    voteAfterAppend roleAfterAppend replyActions sends
  cases asResponce <;> cases role : s.state <;> simp [role, reached]

/-- The defined effects of `recv_appendentries`. Everything that is proved about the handler
is read off these cases. -/
theorem recvAppendentries_effect? {asResponce : Bool} {node : Node} {ae : MsgAppendEntries}
    {stack : Int × Int} {s : RaftServer Node} {effect : Effect (RaftServer Node) (Action Node)}
    (defined : (recvAppendentries asResponce node ae stack s).effect? = some effect) :
    AppendResult asResponce node ae stack s effect := by
  obtain ⟨elapsed, state, votedFor, noticed, -⟩ := noticeLeader_frame asResponce ae s
  have refusal : replyActions node ⟨s.currentTerm, 0, stack.1, stack.2⟩
      (noticeLeader asResponce ae s) =
      replyActions node ⟨s.currentTerm, 0, stack.1, stack.2⟩ s := by
    rw [noticed]
    rfl
  unfold recvAppendentries at defined
  simp only [noticeLeader_currentTerm, noticeLeader_log, replyAppendentries_eq, refusal] at defined
  by_cases stale : ae.term < s.currentTerm
  · rw [if_pos stale, Outcome.effect?_eq_some_iff] at defined
    obtain ⟨-, -, rfl⟩ := defined
    exact .refused (Or.inl stale)
  · rw [if_neg stale] at defined
    rcases deleteConflicts_cases ae s.log with conflict | ⟨kept, accepted, keeps⟩
    · rw [conflict, Outcome.bind_ofExit_returned] at defined
      simp only [refusal, Outcome.effect?_eq_some_iff] at defined
      obtain ⟨-, -, rfl⟩ := defined
      exact .refused (Or.inr conflict)
    · rw [accepted, Outcome.bind_ofExit_returned] at defined
      obtain ⟨⟨⟩, rest, -, tail, stateEq, emittedEq⟩ :=
        Outcome.bind_effect?_eq_some (advanceCommit_exit_ne_thrown ae _) defined
      obtain ⟨commit, last, middle, advanced⟩ :=
        advanceCommit_advanced ae { noticeLeader asResponce ae s with log := kept }
      obtain ⟨elapsed', ended⟩ :=
        appendAndReply_accept asResponce node ae stack s (Int.not_lt.mp stale) kept commit last
      rw [middle, ended, Outcome.effect?_eq_some_iff] at tail
      obtain ⟨-, -, rfl⟩ := tail
      cases effect
      cases stateEq
      cases emittedEq
      refine .accepted kept (Int.not_lt.mp stale) accepted keeps elapsed' commit last _ ?_
      exact advanced.of_frame (by rw [noticed]) (by rw [noticed]) (by rw [noticed])

end RaftServer

end CppRaft
