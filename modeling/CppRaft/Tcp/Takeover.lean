import CppRaft.Server.Ballot
import CppRaft.Tcp.Layers
import CppRaft.Tcp.Pointers

/-!
# How a TCP server takes office

A ballot that completes a majority makes a leader at once only of a server without a
leader pointer; any other asks a worker, and so does a candidacy that can count on no
other node. The worker removes the old leader. Whether there is a leader pointer never
changes, so a server that joined a cluster without a leader has none for good, and the
worker that it asks in a candidacy follows a null pointer.
-/

namespace CppRaft

namespace Tcp

open Machine

namespace Server

/-- The ballot is granted and completes a majority. -/
def Elects (s : Server) (node : NodeIdentifierKey) (r : MsgRequestvoteResponse) : Prop :=
  s.raft.state ≠ .leader ∧ r.voteGranted = 1 ∧
    RaftServer.raftVotesIsMajority ((s.raft.setVotesForMe node 1).table.count - 1)
      (s.raft.setVotesForMe node 1).getNvotesForMe = true

/-- The calls by which a server comes to lead. -/
def TakesOffice (s : Server) : Call → Prop
  | .raft (.recvRequestvoteResponse node r _) => s.leaderNode = none ∧ s.Elects node r
  | .internal .becomeLeader _ => s.raft.state = .candidate
  | _ => False

/-- The nodes that a candidate counts on: those that are able to vote, without the leader. -/
def voters (s : Server) : List NodeIdentifierKey :=
  s.raft.table.nodes.filter fun node => s.isAbleToVote node && decide (s.leaderNode ≠ some node)

/-- The calls that ask a worker to make the server the leader. -/
def AsksForOffice (s : Server) : Call → Prop
  | .raft (.recvRequestvoteResponse node r _) => s.leaderNode.isSome = true ∧ s.Elects node r
  | .raft (.periodic msec _) => s.raft.startsElection msec = true ∧ s.voters.length < 2
  | _ => False

/-- The effects of `recv_requestvote_response` of the TCP server. -/
inductive BallotEffect (s : Server) (node : NodeIdentifierKey) (r : MsgRequestvoteResponse) :
    Effect Server Output → Prop where
  | undecided {raft : RaftServer NodeIdentifierKey} (minority : ¬s.Elects node r)
      (role : raft.state = s.raft.state) : BallotEffect s node r ⟨{ s with raft := raft }, []⟩
  | elected (elects : s.Elects node r) (leaderless : s.leaderNode = none) :
      BallotEffect s node r
        ⟨{ s with raft := (RaftServer.becomeLeader (s.raft.setVotesForMe node 1)).state },
          (RaftServer.becomeLeader (s.raft.setVotesForMe node 1)).emitted.map .raft⟩
  | asked (elects : s.Elects node r) (led : s.leaderNode.isSome = true) :
      BallotEffect s node r
        ⟨{ s with raft := s.raft.setVotesForMe node 1 }, [.addInternalForWorker .becomeLeader]⟩

variable {s : Server} {effect : Effect Server Output}

/-- A ballot is ignored, counted, or completes a majority; in the last case the server takes
office at once or, with a leader in place, asks a worker for it. -/
theorem recvRequestvoteResponse_effect {node : NodeIdentifierKey} {r : MsgRequestvoteResponse}
    (defined : (s.recvRequestvoteResponse node r).effect? = some effect) :
    BallotEffect s node r effect := by
  obtain rfl := ((Outcome.effect?_eq_some_iff _ _).mp defined).2.2
  unfold recvRequestvoteResponse
  by_cases leads : s.raft.state = .leader
  · rw [if_pos leads]
    exact .undecided (fun elects => elects.1 leads) rfl
  · rw [if_neg leads]
    by_cases granted : r.voteGranted = 1
    · rw [if_pos granted]
      simp only
      split
      · rename_i majority
        have elects : s.Elects node r := ⟨leads, granted, majority⟩
        rw [becomeLeader]
        split
        · exact .asked elects ‹_›
        · rename_i leaderless
          have elected := BallotEffect.elected elects (Option.not_isSome_iff_eq_none.mp leaderless)
          simpa [inside, Outcome.bind] using elected
      · rename_i minority
        exact .undecided (fun elects => minority elects.2.2) rfl
    · rw [if_neg granted]
      exact .undecided (fun elects => granted elects.2.1) rfl

/-- What a call does to the pointer and the role, and whether it asks for office. -/
structure Governs (s : Server) (call : Call) (effect : Effect Server Output) : Prop where
  pointer : effect.state.leaderNode.isSome = s.leaderNode.isSome
  leads : s.raft.state ≠ .leader → (effect.state.raft.state = .leader ↔ s.TakesOffice call)
  asks : .addInternalForWorker .becomeLeader ∈ effect.emitted ↔ s.AsksForOffice call

/-- A call that touches neither and asks for nothing. -/
theorem Governs.of_same {call : Call}
    (pointer : effect.state.leaderNode.isSome = s.leaderNode.isSome)
    (role : effect.state.raft.state = s.raft.state) (silent : effect.emitted = [])
    (takes : ¬s.TakesOffice call) (asks : ¬s.AsksForOffice call) : s.Governs call effect := by
  refine ⟨pointer, fun other => iff_of_false ?_ takes, iff_of_false ?_ asks⟩
  · rw [role]
    exact other
  · rw [silent]
    exact List.not_mem_nil

/-- What the Raft core emits is never a job for a worker. -/
theorem not_mem_map_raft {request : InternalRequest} (actions : List (Action NodeIdentifierKey)) :
    .addInternalForWorker request ∉ actions.map Output.raft := by
  rw [List.mem_map]
  rintro ⟨_, -, other⟩
  cases other

/-- A candidacy asks for office exactly if it can count on no other node. -/
theorem becomeCandidate_asks_iff {rand : ℕ × ℕ}
    (defined : (s.becomeCandidate rand).effect? = some effect) :
    .addInternalForWorker .becomeLeader ∈ effect.emitted ↔ s.voters.length < 2 := by
  replace defined := disqualifyLeader_bind defined
  rw [((Outcome.effect?_eq_some_iff _ _).mp defined).2.2]
  simp only [inside, Outcome.bind, Effect.returning, voters]
  split
  · rename_i few
    exact iff_of_true (List.mem_append_right _ List.mem_cons_self) few
  · rename_i many
    refine iff_of_false ?_ many
    rw [Effect.done_emitted, List.append_nil]
    exact not_mem_map_raft _

/-- The timer asks for office exactly if it starts an election in which fewer than two nodes
can vote. -/
theorem periodic_asks_iff {msec : Int} {rand : ℕ × ℕ} (idle : s.raft.hasPendingEntry = false)
    (defined : (s.periodic msec rand).effect? = some effect) :
    .addInternalForWorker .becomeLeader ∈ effect.emitted ↔
      s.AsksForOffice (.raft (.periodic msec rand)) := by
  rw [periodic, idle, if_neg Bool.false_ne_true, Outcome.effect?_bind_done] at defined
  unfold advanceTimer at defined
  simp only at defined
  simp only [AsksForOffice, RaftServer.startsElection, decide_eq_true_iff]
  split at defined
  · rename_i leads
    refine iff_of_false ?_ fun due => due.1.1 leads
    split at defined
    · rw [((Outcome.effect?_eq_some_iff _ _).mp defined).2.2]
      simp only [inside, Outcome.bind, Effect.returning, Effect.done_emitted, List.append_nil]
      exact not_mem_map_raft _
    · rw [eq_of_returned defined]
      exact List.not_mem_nil
  · rename_i other
    split at defined
    · rename_i due
      rw [and_iff_right (⟨other, due⟩ : s.raft.state ≠ .leader ∧ _)]
      exact @becomeCandidate_asks_iff
        { s with raft := { s.raft with timeoutElapsed := s.raft.timeoutElapsed + msec } }
        effect rand defined
    · rename_i early
      rw [eq_of_returned defined]
      exact iff_of_false List.not_mem_nil fun due => early due.1.2

/-- Except for a ballot, no handler makes a leader of a server that is none. -/
theorem not_leads_of_handle {event : Event NodeIdentifierKey}
    (idle : s.raft.hasPendingEntry = false) (other : isBallot event = false)
    (handled : (s.handle event).effect? = some effect) (undecided : s.raft.state ≠ .leader) :
    effect.state.raft.state ≠ .leader := by
  intro leads
  have result := RaftServer.step_result (handle_step other handled)
  cases result.activeAfter idle (Or.inl leads) with
  | kept role _ => exact undecided (role.symm.trans leads)
  | stood candidate _ => cases candidate.symm.trans leads
  | elected _ _ _ _ _ => cases other

/-- Of the events of the Raft core only a ballot that completes a majority takes office, and
only a ballot or the timer asks for it. -/
theorem handle_governs {event : Event NodeIdentifierKey} (idle : s.raft.hasPendingEntry = false)
    (handled : (s.handle event).effect? = some effect) : s.Governs (.raft event) effect := by
  have pointer : effect.state.leaderNode.isSome = s.leaderNode.isSome :=
    congrArg _ (handle_sameMembers handled).leaderNode
  -- The handlers that the TCP server takes over from the Raft server.
  have plain (other : isBallot event = false)
      (takes : ¬s.TakesOffice (.raft event)) (asks : ¬s.AsksForOffice (.raft event))
      (inherited : (s.inside (RaftServer.handle event s.raft)).effect? = some effect) :
      s.Governs (.raft event) effect := by
    refine ⟨pointer, fun undecided =>
      iff_of_false (not_leads_of_handle idle other handled undecided) takes, iff_of_false ?_ asks⟩
    rw [((Outcome.effect?_eq_some_iff _ _).mp inherited).2.2]
    exact not_mem_map_raft _
  cases event with
  | recvRequestvoteResponse node r answers =>
      have asked : .addInternalForWorker .becomeLeader ∈ effect.emitted ↔
          s.AsksForOffice (.raft (.recvRequestvoteResponse node r answers)) := by
        cases recvRequestvoteResponse_effect handled with
        | undecided minority _ =>
            exact iff_of_false List.not_mem_nil fun asks => minority asks.2
        | elected _ leaderless =>
            refine iff_of_false (not_mem_map_raft _) fun asks => ?_
            rw [AsksForOffice, leaderless] at asks
            cases asks.1
        | asked elects led => exact iff_of_true List.mem_cons_self ⟨led, elects⟩
      refine ⟨pointer, fun other => ?_, asked⟩
      cases recvRequestvoteResponse_effect handled with
      | undecided minority role =>
          refine iff_of_false (fun leads => other (role.symm.trans leads)) fun takes => ?_
          exact minority takes.2
      | elected elects leaderless =>
          rw [RaftServer.becomeLeader_eq]
          exact iff_of_true rfl ⟨leaderless, elects⟩
      | asked _ led =>
          refine iff_of_false other fun takes => ?_
          rw [takes.1] at led
          cases led
  | periodic msec rand =>
      exact ⟨pointer, fun undecided =>
        iff_of_false (not_leads_of_handle idle rfl handled undecided) id,
        periodic_asks_iff idle handled⟩
  | recvAppendentries _ _ _ _ => exact plain rfl id id handled
  | recvAppendentriesResponse _ _ => exact plain rfl id id handled
  | recvRequestvote _ _ => exact plain rfl id id handled
  | recvEntry _ _ => exact plain rfl id id handled

/-- Adding a node changes neither the leader nor the role. -/
theorem addNode_governs {nodeKey : NodeIdentifierKey} {call : Call}
    (takes : ¬s.TakesOffice call) (asks : ¬s.AsksForOffice call)
    (defined : (s.addNode nodeKey).effect? = some effect) : s.Governs call effect := by
  unfold addNode at defined
  split at defined <;>
    · rw [eq_of_returned defined]
      exact .of_same rfl rfl rfl takes asks

/-- The locked part of a request from a node can change the leader, by the request that
tells of a new one, but it does not take office. -/
theorem handleReceiveFromNodeLocked_governs {request : LockedRequest} {sender : NodeIdentifierKey}
    (defined : (s.handleReceiveFromNodeLocked request sender).effect? = some effect) :
    s.Governs (.receive request sender) effect := by
  cases request with
  | newNode nodeKey => exact addNode_governs id id defined
  | removeNode nodeKey =>
      rw [eq_of_returned defined]
      exact .of_same rfl rfl rfl id id
  | oldLeaderDied =>
      unfold handleReceiveFromNodeLocked at defined
      simp only at defined
      split at defined
      · rw [eq_of_returned defined]
        exact .of_same rfl rfl rfl id id
      · rename_i leader pointer
        obtain ⟨_, -, -, defined⟩ := follow_bind_effect? defined
        obtain ⟨_, -, -, defined⟩ := follow_bind_effect? defined
        rw [eq_of_returned defined]
        refine .of_same ?_ rfl rfl id id
        rw [pointer]
        rfl

/-- The own node is in the place of the old leader, which is no more in the table. -/
structure TakesOver (s s' : Server) : Prop where
  pointers : ∃ own old, s.raft.thisNode = some own ∧ s.leaderNode = some old ∧
    s'.leaderNode = some own ∧
    s'.raft.table.nodes = s.raft.table.nodes.filter fun node => decide (node ≠ old)
  leads : s'.raft.state = .leader
  term : s'.raft.currentTerm = s.raft.currentTerm
  log : s'.raft.log = s.raft.log

/-- The worker that makes a candidate the leader. -/
theorem becomeLeader_takesOver {node : Option NodeIdentifierKey}
    (stands : s.raft.state = .candidate)
    (defined : (s.handleInternalLocked .becomeLeader node).effect? = some effect) :
    s.TakesOver effect.state ∧
      .addInternalForWorker .becomeLeader ∉ effect.emitted := by
  obtain ⟨own, old, this, leads, rfl⟩ := becomeLeader_result stands defined
  refine ⟨?_, not_mem_map_raft _⟩
  rw [RaftServer.becomeLeader_eq]
  exact ⟨⟨own, old, this, leads, rfl, rfl⟩, rfl, rfl, rfl⟩

/-- The locked part of an internal request takes office exactly for a candidate that was
asked to become the leader. -/
theorem handleInternalLocked_governs {request : InternalRequest} {node : Option NodeIdentifierKey}
    (defined : (s.handleInternalLocked request node).effect? = some effect) :
    s.Governs (.internal request node) effect := by
  cases request with
  | removeNode =>
      unfold handleInternalLocked at defined
      simp only at defined
      split at defined
      · obtain ⟨_, -, -, defined⟩ := follow_bind_effect? defined
        rw [eq_of_returned defined]
        exact .of_same rfl rfl rfl id id
      · rw [eq_of_returned defined]
        exact .of_same rfl rfl rfl id id
  | becomeLeader =>
      by_cases stands : s.raft.state = .candidate
      · obtain ⟨took, silent⟩ := becomeLeader_takesOver stands defined
        obtain ⟨own, old, -, led, leads, -⟩ := took.pointers
        refine ⟨?_, fun _ => iff_of_true took.leads stands, iff_of_false silent id⟩
        rw [leads, led]
        rfl
      · unfold handleInternalLocked at defined
        simp only [if_neg stands] at defined
        rw [eq_of_returned defined]
        exact .of_same rfl rfl rfl stands id

/-- One call. -/
theorem step_governs {call : Call} (idle : s.raft.hasPendingEntry = false)
    (stepped : machine.step s call = some effect) : s.Governs call effect := by
  cases call with
  | newConnection nodeKey => exact addNode_governs id id stepped
  | receive request sender => exact handleReceiveFromNodeLocked_governs stepped
  | internal request node => exact handleInternalLocked_governs stepped
  | ableToVote node able =>
      cases stepped
      exact .of_same rfl rfl rfl id id
  | raft event => exact handle_governs idle stepped

/-- In a run of the TCP server no entry waits to be applied: nothing is ever committed ahead
of what was applied. -/
theorem RunFrom.hasPendingEntry {own : NodeIdentifierKey} {timing : Timing} {found : Found}
    {trace : List Step} {s : Server} (run : RunFrom own timing found trace s) :
    s.raft.hasPendingEntry = false := by
  obtain ⟨moves, -, -, sound⟩ := RunFrom.hosted run
  exact RaftServer.hasPendingEntry_of_together sound.together

/-- Whether there is a leader pointer never changes. -/
theorem RunFrom.pointer {own : NodeIdentifierKey} {timing : Timing} {found : Found}
    {trace : List Step} {s : Server} (run : RunFrom own timing found trace s) :
    s.leaderNode.isSome = (found.members own).leaderNode.isSome := by
  apply run.invariant fun _ s => s.leaderNode.isSome = (found.members own).leaderNode.isSome
  · rfl
  · intro trace s call effect reached same stepped
    exact (step_governs (RunFrom.hasPendingEntry reached) stepped).pointer.trans same

/-- In every run of a TCP server: a server comes to lead exactly by a ballot that completes a
majority, if the cluster it joined had no leader, or by a worker that it has asked, if the
cluster had one; the worker then removes that leader. A server asks a worker exactly when such
a ballot comes, or when it stands and can count on no other node. Without a leader in the
cluster the worker has no defined result. -/
theorem takes_office_by_ballot_or_worker (own : NodeIdentifierKey) (timing : Timing)
    (found : Found) {trace : List Step} {s : Server} (run : RunFrom own timing found trace s) :
    (∀ t ∈ trace,
      t.before.leaderNode.isSome = (found.members own).leaderNode.isSome ∧
      (t.before.raft.state ≠ .leader →
        (t.after.raft.state = .leader ↔ t.before.TakesOffice t.event)) ∧
      (.addInternalForWorker .becomeLeader ∈ t.emitted ↔ t.before.AsksForOffice t.event) ∧
      ∀ node, t.event = .internal .becomeLeader node → t.before.raft.state = .candidate →
        t.before.TakesOver t.after) ∧
    ((found.members own).leaderNode = none → s.raft.state = .candidate →
      ∀ node, machine.step s (.internal .becomeLeader node) = none) := by
  constructor
  · intro t member
    obtain ⟨past, reached, stepped⟩ := run.at_mem member
    have governs := step_governs (RunFrom.hasPendingEntry reached) stepped
    refine ⟨RunFrom.pointer reached, governs.leads, governs.asks, fun node call stands => ?_⟩
    rw [call] at stepped
    exact (becomeLeader_takesOver stands stepped).1
  · intro leaderless stands node
    rw [Option.eq_none_iff_forall_ne_some]
    intro effect stepped
    obtain ⟨_, old, -, led, -⟩ := (becomeLeader_takesOver stands stepped).1.pointers
    have pointer := RunFrom.pointer run
    rw [led, leaderless] at pointer
    cases pointer

/-- A follower whose leader is lost takes office through a worker, and by no other call. -/
theorem takes_office_by_worker :
    (machine.execute (findClusterAndInit (.ofPort 1) {} (.cluster [.zero, .ofPort 2] 0))
        (takeoverCalls (.ofPort 2))).isSome = true ∧
      ∀ t ∈ machine.traceOf (findClusterAndInit (.ofPort 1) {} (.cluster [.zero, .ofPort 2] 0))
        (takeoverCalls (.ofPort 2)),
        t.before.raft.state ≠ .leader →
          (t.after.raft.state = .leader ↔ t.before.TakesOffice t.event) := by
  have defined : (machine.execute
      (findClusterAndInit (.ofPort 1) {} (.cluster [.zero, .ofPort 2] 0))
      (takeoverCalls (.ofPort 2))).isSome = true := by decide +kernel
  exact ⟨defined, fun t member => ((takes_office_by_ballot_or_worker (.ofPort 1) {}
    (.cluster [.zero, .ofPort 2] 0) (run_traceOf machine _ _ defined)).1 t member).2.1⟩

end Server

end Tcp

end CppRaft
