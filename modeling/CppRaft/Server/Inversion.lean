import CppRaft.Server.Run
import CppRaft.Server.AppendEntries
import CppRaft.Server.AppendResponse

/-!
# What a step of a run can be

For each event the defined effects of its handler, as closed forms of the state
and the emissions. Invariants are proved from these and never unfold a handler.
-/

namespace CppRaft

open Machine

namespace RaftServer

variable {Node : Type}

/-- The request passes every test of `recv_requestvote`. -/
def grantsVote (vr : MsgRequestvote) (s : RaftServer Node) : Prop :=
  s.currentTerm ≤ vr.term ∧ (s.votedFor = none ∨ s.currentTerm < vr.term) ∧
    s.currentIdx ≤ vr.lastLogIdx

instance (vr : MsgRequestvote) (s : RaftServer Node) : Decidable (grantsVote vr s) :=
  inferInstanceAs (Decidable (_ ∧ _ ∧ _))

/-- The test of `recv_requestvote`, after the vote has been forgotten on a higher term. -/
private theorem refuses_iff (vr : MsgRequestvote) (s : RaftServer Node) :
    (vr.term < s.currentTerm ∨ (if s.currentTerm < vr.term then none else s.votedFor).isSome ∨
      vr.lastLogIdx < s.currentIdx) ↔ ¬grantsVote vr s := by
  unfold grantsVote
  by_cases higher : s.currentTerm < vr.term
  · simp [higher]
    omega
  · cases s.votedFor with
    | none =>
        simp [higher]
        omega
    | some _ => simp [higher]

/-- The vote after a request: granted, forgotten on a higher term, or kept. -/
def voteAfter (node : Node) (vr : MsgRequestvote) (s : RaftServer Node) : Option Node :=
  if grantsVote vr s then some node
  else if s.currentTerm < vr.term then none else s.votedFor

/-- The answer to a request. -/
def voteReply (node : Node) (vr : MsgRequestvote) (s : RaftServer Node) : List (Action Node) :=
  s.sends [node] fun _ =>
    .requestvoteResponse ⟨s.currentTerm, if grantsVote vr s then 1 else 0⟩

/-- `recv_requestvote` forgets the vote on a higher term and records the one it grants. It
replies in every case, with its own term, which it does not raise. -/
theorem recvRequestvote_eq (node : Node) (vr : MsgRequestvote) (s : RaftServer Node) :
    recvRequestvote node vr s =
      ⟨{ s with votedFor := voteAfter node vr s }, voteReply node vr s⟩ := by
  have forgotten : (if s.currentTerm < vr.term then { s with votedFor := none } else s) =
      { s with votedFor := if s.currentTerm < vr.term then none else s.votedFor } := by
    split <;> rfl
  have test := refuses_iff vr s
  unfold recvRequestvote
  rw [forgotten]
  by_cases grants : grantsVote vr s
  · cases send : s.callbacks.send <;>
      simp [test, grants, send, Effect.done, voteAfter, voteReply, sends]
  · cases send : s.callbacks.send <;>
      simp [test, grants, send, Effect.done, voteAfter, voteReply, sends]

/-- A candidacy raises the term. -/
theorem termIncrement_pos (s : RaftServer Node) (rand : ℕ) : 0 < s.termIncrement rand := by
  unfold termIncrement
  simp only
  omega

variable [DecidableEq Node]

/-- The effects of `recv_requestvote_response`. -/
inductive BallotResult (node : Node) (r : MsgRequestvoteResponse) (s : RaftServer Node) :
    Effect (RaftServer Node) (Action Node) → Prop where
  | ignored (leads : s.state = .leader) : BallotResult node r s ⟨s, []⟩
  | refused (undecided : s.state ≠ .leader) (refusal : r.voteGranted ≠ 1) :
      BallotResult node r s ⟨s.setVotesForMe node 0, []⟩
  | counted (undecided : s.state ≠ .leader) (granted : r.voteGranted = 1) :
      BallotResult node r s ⟨s.setVotesForMe node 1, []⟩
  | elected (undecided : s.state ≠ .leader) (granted : r.voteGranted = 1)
      (majority : raftVotesIsMajority ((s.setVotesForMe node 1).table.count - 1)
        (s.setVotesForMe node 1).getNvotesForMe) :
      BallotResult node r s (becomeLeader (s.setVotesForMe node 1))

/-- `recv_requestvote_response` ignores the response, counts it, or wins by it. -/
theorem recvRequestvoteResponse_result (node : Node) (r : MsgRequestvoteResponse)
    (s : RaftServer Node) : BallotResult node r s (recvRequestvoteResponse node r s) := by
  unfold recvRequestvoteResponse
  by_cases leads : s.state = .leader
  · rw [if_pos leads]
    exact .ignored leads
  · rw [if_neg leads]
    by_cases granted : r.voteGranted = 1
    · rw [if_pos granted]
      simp only
      split
      · exact .elected leads granted ‹_›
      · exact .counted leads granted
    · rw [if_neg granted]
      exact .refused leads granted

/-- The messages that follow the treatment of a client entry. -/
def entryActions (node : Node) (id : UInt32) (result : Int) (s : RaftServer Node) :
    List (Action Node) :=
  s.sends [node] (fun _ => .entryResponse ⟨id, result⟩) ++
    s.sends (s.peers false) fun peer => .appendentries (appendentriesFor peer s)

/-- The state after a client entry is appended. -/
def appendClient (e : MsgEntry) (s : RaftServer Node) : RaftServer Node :=
  { s with
    log := s.log ++ [RaftEntry.ofMsgEntry s.currentTerm e]
    currentIdx := s.currentIdx + 1 }

/-- `recv_entry` refuses id zero and appends every other entry in the current term. It does
not ask whether the server is the leader. -/
theorem recvEntry_eq (node : Node) (e : MsgEntry) (s : RaftServer Node) :
    recvEntry node e s =
      if e.intId = 0 then ⟨.returned 0, s, entryActions node e.id 0 s⟩
      else ⟨.returned 0, appendClient e s,
        .appended (s.log.length + 1) :: entryActions node e.id 1 (appendClient e s)⟩ := by
  unfold recvEntry appendEntry RaftLogger.logAppendEntry
  by_cases zero : e.intId = 0
  · cases send : s.callbacks.send <;>
      simp [RaftEntry.ofMsgEntry, zero, Outcome.bind, entryActions, sendEntryResponse,
        Effect.andThen, Effect.returning, Effect.done, forAll_sendAppendentries, sends, send]
  · cases send : s.callbacks.send <;>
      simp [RaftEntry.ofMsgEntry, zero, Outcome.bind, entryActions, sendEntryResponse,
        Effect.andThen, Effect.returning, Effect.done, forAll_sendAppendentries, sends, send,
        appendClient, RaftLogger.logCount]

/-- The timer test by which `periodic` starts an election. -/
def startsElection (msec : Int) (s : RaftServer Node) : Bool :=
  decide (s.state ≠ .leader ∧ s.electionTimeout ≤ s.timeoutElapsed + msec)

/-- The effects of the timer part of `periodic`. -/
inductive TimerResult (msec : Int) (rand : ℕ × ℕ) (s : RaftServer Node) :
    Effect (RaftServer Node) (Action Node) → Prop where
  | waited (quiet : s.startsElection msec = false) :
      TimerResult msec rand s ⟨{ s with timeoutElapsed := s.timeoutElapsed + msec }, []⟩
  | heartbeat (leads : s.state = .leader) :
      TimerResult msec rand s
        ⟨{ s with timeoutElapsed := 0, leaderCommit := s.leaderCommit + 1 },
          s.sends (s.peers false) fun node => .appendentries
            (.new s.currentTerm 0 (s.table.record node).nextIdx 0 (s.leaderCommit + 1))⟩
  | stood (due : s.startsElection msec = true) :
      TimerResult msec rand s
        ⟨{ s with
            currentTerm := s.currentTerm + s.termIncrement rand.1
            votedFor := s.thisNode
            state := .candidate
            timeoutElapsed := (rand.2 % 500 : ℕ) },
          s.sends (s.peers true) fun _ => .requestvote
            ⟨s.currentTerm + s.termIncrement rand.1, 0, s.currentIdx, 0⟩⟩

/-- The timer of `periodic` sends heartbeats, starts an election or does nothing, by role
and elapsed time. -/
theorem advanceTimer_result (msec : Int) (rand : ℕ × ℕ) (s : RaftServer Node) :
    TimerResult msec rand s (advanceTimer msec rand s) := by
  unfold advanceTimer
  by_cases leads : s.state = .leader
  · simp only [if_pos leads]
    split
    · rw [sendAppendentriesAll_eq]
      have sent : TimerResult msec rand s _ := .heartbeat leads
      simpa [Effect.andThen, Effect.done, peers, skips, sends] using sent
    · exact .waited (by simp [startsElection, leads])
  · simp only [if_neg leads]
    split
    · rename_i due
      rw [becomeCandidate_eq]
      exact .stood (by simp [startsElection, leads, due])
    · rename_i early
      exact .waited (by simp [startsElection, leads, Int.not_le.mp early])

/-- The defined steps of a server. -/
inductive StepResult (s : RaftServer Node) :
    Event Node → Effect (RaftServer Node) (Action Node) → Prop where
  | appendentries {asResponce : Bool} {node : Node} {ae : MsgAppendEntries} {stack : Int × Int}
      {effect : Effect (RaftServer Node) (Action Node)}
      (result : AppendResult asResponce node ae stack s effect) :
      StepResult s (.recvAppendentries asResponce node ae stack) effect
  | appendentriesResponse {node : Node} {r : MsgAppendentriesResponse} {s' : RaftServer Node}
      {emitted : List (Action Node)} (result : ResponseResult node r s s' emitted) :
      StepResult s (.recvAppendentriesResponse node r) ⟨s', emitted⟩
  | requestvote (node : Node) (vr : MsgRequestvote) :
      StepResult s (.recvRequestvote node vr)
        ⟨{ s with votedFor := voteAfter node vr s }, voteReply node vr s⟩
  | requestvoteResponse {node : Node} {r : MsgRequestvoteResponse} (answers : Int)
      {effect : Effect (RaftServer Node) (Action Node)} (result : BallotResult node r s effect) :
      StepResult s (.recvRequestvoteResponse node r answers) effect
  | refusedEntry (node : Node) {e : MsgEntry} (zero : e.intId = 0) :
      StepResult s (.recvEntry node e) ⟨s, entryActions node e.id 0 s⟩
  | appendedEntry (node : Node) {e : MsgEntry} (nonzero : e.intId ≠ 0) :
      StepResult s (.recvEntry node e)
        ⟨appendClient e s,
          .appended (s.log.length + 1) :: entryActions node e.id 1 (appendClient e s)⟩
  | pending {msec : Int} {rand : ℕ × ℕ} (due : s.hasPendingEntry = true)
      {middle : RaftServer Node} {applied : List (Action Node)}
      (entry : Applied s applied middle) {effect : Effect (RaftServer Node) (Action Node)}
      (rest : effect = ⟨middle, []⟩ ∨ TimerResult msec rand middle effect) :
      StepResult s (.periodic msec rand) ⟨effect.state, applied ++ effect.emitted⟩
  | timer {msec : Int} {rand : ℕ × ℕ} {effect : Effect (RaftServer Node) (Action Node)}
      (result : TimerResult msec rand s effect) : StepResult s (.periodic msec rand) effect

/-- `periodic` applies at most one pending entry and then serves the timer, unless the entry
could not be applied. -/
private theorem periodic_effect? {msec : Int} {rand : ℕ × ℕ} {s : RaftServer Node}
    {effect : Effect (RaftServer Node) (Action Node)}
    (defined : (periodic msec rand s).effect? = some effect) :
    StepResult s (.periodic msec rand) effect := by
  unfold periodic at defined
  split at defined
  · rename_i due
    obtain ⟨result, rest, -, tail, stateEq, emittedEq⟩ :=
      Outcome.bind_effect?_eq_some (applyEntry_exit_ne_thrown s) defined
    cases effect
    cases stateEq
    cases emittedEq
    refine .pending due (applyEntry_applied s) ?_
    split at tail
    · rw [Outcome.effect?_eq_some_iff] at tail
      exact Or.inl tail.2.2
    · rw [Outcome.effect?_eq_some_iff] at tail
      obtain ⟨-, -, rfl⟩ := tail
      exact Or.inr (advanceTimer_result _ _ _)
  · rw [Outcome.effect?_eq_some_iff] at defined
    obtain ⟨-, -, rfl⟩ := defined
    exact .timer (advanceTimer_result _ _ _)

/-- What a step of a run can be. Every invariant of runs below is proved by cases on this
and not on the handlers. -/
theorem step_result {s : RaftServer Node} {event : Event Node}
    {effect : Effect (RaftServer Node) (Action Node)}
    (stepped : (machine Node).step s event = some effect) : StepResult s event effect := by
  have called : effect = ⟨(handle event s).state, (handle event s).emitted⟩ :=
    ((Outcome.effect?_eq_some_iff (handle event s) effect).mp stepped).2.2
  cases event with
  | recvAppendentries asResponce node ae stack =>
      exact .appendentries (recvAppendentries_effect? stepped)
  | recvAppendentriesResponse node r =>
      subst called
      exact .appendentriesResponse (recvAppendentriesResponse_result node r s)
  | recvRequestvote node vr =>
      subst called
      simp only [handle, recvRequestvote_eq]
      exact .requestvote node vr
  | recvRequestvoteResponse node r answers =>
      subst called
      exact .requestvoteResponse answers (recvRequestvoteResponse_result node r s)
  | recvEntry node e =>
      subst called
      simp only [handle, recvEntry_eq]
      split
      · exact .refusedEntry node ‹_›
      · exact .appendedEntry node ‹_›
  | periodic msec rand => exact periodic_effect? stepped

/-- The messages of a step that applies no pending entry, by the branch that sends them. -/
inductive Sends (s : RaftServer Node) :
    Event Node → RaftServer Node → Node → Message → Prop where
  | answer {asResponce : Bool} {node : Node} {ae : MsgAppendEntries} {stack : Int × Int}
      {after : RaftServer Node} (r : MsgAppendentriesResponse) :
      Sends s (.recvAppendentries asResponce node ae stack) after node (.appendentriesResponse r)
  | resend {node : Node} {r : MsgAppendentriesResponse} (failure : r.success ≠ 1) :
      Sends s (.recvAppendentriesResponse node r) s node (.appendentries (appendentriesFor node s))
  | vote {node : Node} {vr : MsgRequestvote} {after : RaftServer Node}
      (r : MsgRequestvoteResponse) :
      Sends s (.recvRequestvote node vr) after node (.requestvoteResponse r)
  | elected {voter node : Node} {r : MsgRequestvoteResponse} {answers : Int}
      {after : RaftServer Node} :
      Sends s (.recvRequestvoteResponse voter r answers) after node
        (.appendentries (.new s.currentTerm 0 (s.currentIdx + 1) 0 s.leaderCommit))
  | entryAnswer {client : Node} {e : MsgEntry} {after : RaftServer Node} (r : MsgEntryResponse) :
      Sends s (.recvEntry client e) after client (.entryResponse r)
  | refusedEntry {client node : Node} {e : MsgEntry} (zero : e.intId = 0) :
      Sends s (.recvEntry client e) s node (.appendentries (appendentriesFor node s))
  | appendedEntry {client node : Node} {e : MsgEntry} (nonzero : e.intId ≠ 0) :
      Sends s (.recvEntry client e) (appendClient e s) node
        (.appendentries (appendentriesFor node (appendClient e s)))
  | heartbeat {msec : Int} {rand : ℕ × ℕ} {node : Node} {after : RaftServer Node}
      (log : after.log = s.log) (commit : after.commitIdx = s.commitIdx) :
      Sends s (.periodic msec rand) after node
        (.appendentries
          (.new s.currentTerm 0 (s.table.record node).nextIdx 0 (s.leaderCommit + 1)))
  | request {msec : Int} {rand : ℕ × ℕ} {node : Node} {after : RaftServer Node}
      (vr : MsgRequestvote) : Sends s (.periodic msec rand) after node (.requestvote vr)

omit [DecidableEq Node] in
/-- What `recv_appendentries` sends is one reply, to the sender. -/
theorem AppendResult.sends {asResponce : Bool} {node peer : Node} {ae : MsgAppendEntries}
    {stack : Int × Int} {s : RaftServer Node} {effect : Effect (RaftServer Node) (Action Node)}
    (appended : AppendResult asResponce node ae stack s effect) {msg : Message}
    (sent : .send peer msg ∈ effect.emitted) :
    Sends s (.recvAppendentries asResponce node ae stack) effect.state peer msg := by
  cases appended with
  | refused _ =>
      obtain ⟨-, member, rfl⟩ := send_mem_sends.mp sent
      obtain rfl := List.mem_singleton.mp member
      exact .answer _
  | accepted _ _ _ _ _ _ _ _ advanced =>
      rcases List.mem_append.mp sent with early | late
      · exact absurd early (advanced.sound.send_not_mem _ _)
      · rcases List.mem_append.mp late with pushed | answered
        · obtain ⟨idx, -, other⟩ := List.mem_map.mp pushed
          cases other
        · obtain ⟨-, member, rfl⟩ := send_mem_sends.mp answered
          obtain rfl := List.mem_singleton.mp member
          exact .answer _

/-- A client entry is answered, and the entries are announced to the others. -/
theorem send_mem_entryActions {client node : Node} {id : UInt32} {result : Int}
    {s : RaftServer Node} {msg : Message}
    (sent : .send node msg ∈ entryActions client id result s) :
    (node = client ∧ msg = .entryResponse ⟨id, result⟩) ∨
      msg = .appendentries (appendentriesFor node s) := by
  rcases List.mem_append.mp sent with answer | broadcast
  · obtain ⟨-, member, same⟩ := send_mem_sends.mp answer
    exact Or.inl ⟨List.mem_singleton.mp member, same⟩
  · exact Or.inr (send_mem_sends.mp broadcast).2.2

/-- Every message of a step is one of these: a reply to the sender, or a part of a broadcast
of a candidate or a leader. -/
theorem StepResult.sends {s : RaftServer Node} {event : Event Node}
    {effect : Effect (RaftServer Node) (Action Node)} (result : StepResult s event effect)
    (idle : s.hasPendingEntry = false) {node : Node} {msg : Message}
    (sent : .send node msg ∈ effect.emitted) : Sends s event effect.state node msg := by
  cases result with
  | appendentries appended => exact appended.sends sent
  | appendentriesResponse responded =>
      cases responded with
      | failed failure =>
          obtain ⟨-, member, rfl⟩ := send_mem_sends.mp sent
          obtain rfl := List.mem_singleton.mp member
          exact .resend failure
      | succeeded _ _ _ _ _ committed =>
          exact absurd sent (committed.applied.sound.send_not_mem _ _)
  | requestvote _ _ =>
      obtain ⟨-, member, rfl⟩ := send_mem_sends.mp sent
      obtain rfl := List.mem_singleton.mp member
      exact .vote _
  | requestvoteResponse _ ballot =>
      cases ballot with
      | ignored _ => cases sent
      | refused _ _ => cases sent
      | counted _ _ => cases sent
      | elected _ _ _ =>
          rw [becomeLeader_eq] at sent
          obtain ⟨-, -, rfl⟩ := send_mem_sends.mp sent
          exact .elected
  | refusedEntry _ zero =>
      obtain ⟨rfl, rfl⟩ | rfl := send_mem_entryActions sent
      · exact .entryAnswer _
      · exact .refusedEntry zero
  | appendedEntry _ nonzero =>
      rcases List.mem_cons.mp sent with push | sent
      · cases push
      · obtain ⟨rfl, rfl⟩ | rfl := send_mem_entryActions sent
        · exact .entryAnswer _
        · exact .appendedEntry nonzero
  | pending due _ _ =>
      rw [idle] at due
      cases due
  | timer timed =>
      cases timed with
      | waited _ => cases sent
      | heartbeat _ =>
          obtain ⟨-, -, rfl⟩ := send_mem_sends.mp sent
          exact .heartbeat rfl rfl
      | stood _ =>
          obtain ⟨-, -, rfl⟩ := send_mem_sends.mp sent
          exact .request _

/-- What no handler changes: the nodes with their leader flags, the own node and the
callbacks. -/
structure SameConfig (s t : RaftServer Node) : Prop where
  nodes : t.table.nodes = s.table.nodes
  flagged : ∀ node, (t.table.record node).isLeader = (s.table.record node).isLeader
  thisNode : t.thisNode = s.thisNode
  callbacks : t.callbacks = s.callbacks

/-- Counting a vote changes no node and no timeout. -/
theorem setVotesForMe_sameConfig (node : Node) (vote : Int) (s : RaftServer Node) :
    SameConfig s (s.setVotesForMe node vote) := by
  refine ⟨rfl, fun other => ?_, rfl, rfl⟩
  by_cases same : other = node
  · subst same
    simp [setVotesForMe, NodeTable.update]
  · simp [setVotesForMe, NodeTable.update, same]

/-- Setting next indices leaves the leader flags alone. -/
theorem setNextIdxOf_isLeader (nodes : List Node) (idx : Int) (table : NodeTable Node)
    (node : Node) :
    ((setNextIdxOf nodes idx table).record node).isLeader = (table.record node).isLeader := by
  by_cases member : node ∈ nodes <;> simp [setNextIdxOf, member]

/-- The timer changes no node and no timeout. -/
theorem TimerResult.sameConfig {msec : Int} {rand : ℕ × ℕ}
    {s : RaftServer Node} {effect : Effect (RaftServer Node) (Action Node)}
    (timed : TimerResult msec rand s effect) : SameConfig s effect.state := by
  cases timed <;> exact ⟨rfl, fun _ => rfl, rfl, rfl⟩

/-- A step keeps the configuration: the nodes, their flags as leader, the own node, the
callbacks and the two timeouts. -/
theorem StepResult.sameConfig {s : RaftServer Node} {event : Event Node}
    {effect : Effect (RaftServer Node) (Action Node)} (result : StepResult s event effect) :
    SameConfig s effect.state := by
  cases result with
  | @appendentries asResponce node ae stack _ appended =>
      cases appended with
      | refused _ =>
          obtain ⟨elapsed, state, votedFor, noticed, -⟩ := noticeLeader_frame asResponce ae s
          rw [noticed]
          exact ⟨rfl, fun _ => rfl, rfl, rfl⟩
      | accepted _ _ _ _ _ _ _ _ _ => exact ⟨rfl, fun _ => rfl, rfl, rfl⟩
  | appendentriesResponse responded =>
      cases responded with
      | failed _ => exact ⟨rfl, fun _ => rfl, rfl, rfl⟩
      | succeeded _ marked _ _ _ committed =>
          obtain ⟨commit, last, rfl⟩ := committed.applied.frame
          rw [setNextIdx_eq]
          exact ⟨rfl, setNextIdxOf_isLeader _ _ _, rfl, rfl⟩
  | requestvote _ _ => exact ⟨rfl, fun _ => rfl, rfl, rfl⟩
  | requestvoteResponse _ ballot =>
      cases ballot with
      | ignored _ => exact ⟨rfl, fun _ => rfl, rfl, rfl⟩
      | refused _ _ => exact setVotesForMe_sameConfig _ _ s
      | counted _ _ => exact setVotesForMe_sameConfig _ _ s
      | elected _ _ _ =>
          rw [becomeLeader_eq]
          refine ⟨rfl, fun node => ?_, rfl, rfl⟩
          rw [setNextIdxOf_isLeader]
          exact (setVotesForMe_sameConfig _ _ s).flagged node
  | refusedEntry _ _ => exact ⟨rfl, fun _ => rfl, rfl, rfl⟩
  | appendedEntry _ _ => exact ⟨rfl, fun _ => rfl, rfl, rfl⟩
  | pending _ entry rest =>
      obtain ⟨commit, last, rfl⟩ := entry.frame
      rcases rest with rfl | timed
      · exact ⟨rfl, fun _ => rfl, rfl, rfl⟩
      · obtain ⟨nodes, flagged, thisNode, callbacks⟩ := timed.sameConfig
        exact ⟨nodes, flagged, thisNode, callbacks⟩
  | timer timed => exact timed.sameConfig

/-- Every reachable state has the configuration of the run. -/
theorem RunFrom.sameConfig {config : Config Node} {trace : List (Step Node)}
    {s : RaftServer Node} (run : RunFrom config trace s) : SameConfig (init config) s := by
  apply run.invariant (fun _ s => SameConfig (init config) s)
  · exact ⟨rfl, fun _ => rfl, rfl, rfl⟩
  · intro trace s event effect _ same stepped
    have step := (step_result stepped).sameConfig
    exact ⟨step.nodes.trans same.nodes, fun node => (step.flagged node).trans (same.flagged node),
      step.thisNode.trans same.thisNode, step.callbacks.trans same.callbacks⟩

/-- Every handler call ends: a step that is missing from a run is one the language leaves
undefined. -/
theorem handle_exit_ne_diverged (event : Event Node) (s : RaftServer Node) :
    (handle event s).exit ≠ .diverged := by
  cases event with
  | recvAppendentries asResponce node ae stack =>
      exact recvAppendentries_exit_ne_diverged asResponce node ae stack s
  | recvAppendentriesResponse node r => exact recvAppendentriesResponse_exit_ne_diverged node r s
  | recvRequestvote node vr => simp [handle]
  | recvRequestvoteResponse node r answers => simp [handle]
  | recvEntry node e =>
      simp only [handle, recvEntry_eq]
      split <;> simp
  | periodic msec rand =>
      simp only [handle]
      unfold periodic
      split
      · refine Outcome.bind_exit_ne_diverged (applyEntry_exit_ne_diverged s) fun result _ => ?_
        split <;> simp
      · simp

end RaftServer

end CppRaft
