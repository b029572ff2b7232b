import CppRaft.Server.WireTerms
import CppRaft.Tcp.Server

/-!
# The TCP server as a Raft server

`raft::tcp::Server` overrides two methods of `RaftServer`, and its workers change the
node table and take office on its behalf. Seen from below it is a host of a
`RaftServer`: each of its calls is a handler call, a change of the node table, a vote
that is counted and decides nothing, or an office that a candidate takes. What holds
of a hosted server in all its runs holds of the TCP server.
-/

namespace CppRaft

open Machine

namespace RaftServer

variable (Node : Type)

/-- What a host does with a server: call a handler, put another node table in the place of its
own, count a vote, or make a candidate the leader. -/
inductive HostMove where
  | call (event : Event Node)
  | table (table : NodeTable Node)
  | vote (node : Node)
  | office

variable [DecidableEq Node]

/-- A hosted server. -/
def hosted : Machine (RaftServer Node) (HostMove Node) (Action Node) where
  step := fun s move =>
    match move with
    | .call event => (machine Node).step s event
    | .table table => some (.done { s with table := table })
    | .vote node => if s.state = .leader then none else some (.done (s.setVotesForMe node 1))
    | .office => if s.state = .candidate then some (becomeLeader s) else none

/-- A move of a host. -/
abbrev HostStep : Type :=
  Transition (RaftServer Node) (HostMove Node) (Action Node)

variable {Node}

/-- The defined moves of a host. -/
inductive HostResult (s : RaftServer Node) :
    HostMove Node → Effect (RaftServer Node) (Action Node) → Prop where
  | called {event : Event Node} {effect : Effect (RaftServer Node) (Action Node)}
      (result : StepResult s event effect) : HostResult s (.call event) effect
  | moved (table : NodeTable Node) : HostResult s (.table table) ⟨{ s with table := table }, []⟩
  | counted (node : Node) (undecided : s.state ≠ .leader) :
      HostResult s (.vote node) ⟨s.setVotesForMe node 1, []⟩
  | took (stands : s.state = .candidate) : HostResult s .office (becomeLeader s)

/-- The moves of a hosted core are its own events, and changes of its table and flags by the
host. -/
theorem hosted_result {s : RaftServer Node} {move : HostMove Node}
    {effect : Effect (RaftServer Node) (Action Node)}
    (stepped : (hosted Node).step s move = some effect) : HostResult s move effect := by
  cases move with
  | call event => exact .called (step_result stepped)
  | table table =>
      cases stepped
      exact .moved table
  | vote node =>
      simp only [hosted] at stepped
      split at stepped
      · cases stepped
      · cases stepped
        exact .counted node ‹_›
  | office =>
      simp only [hosted] at stepped
      split at stepped
      · cases stepped
        exact .took ‹_›
      · cases stepped

/-- What a host cannot break: the order of the log under the term, the agreement of the commit
and the applied index, and the order of the terms that were sent. -/
structure Sound (moves : List (HostStep Node)) (s : RaftServer Node) : Prop where
  order : TermOrdered s.currentTerm s.log
  together : s.lastAppliedIdx = s.commitIdx
  sent : (sentTerms (emissions moves)).Pairwise (· ≤ ·)
  sent_le : ∀ term ∈ sentTerms (emissions moves), term ≤ s.currentTerm

/-- The messages of one move carry one term, that before or that after the move. -/
theorem HostResult.sentTerms {s : RaftServer Node} {move : HostMove Node}
    {effect : Effect (RaftServer Node) (Action Node)} (result : HostResult s move effect)
    (idle : s.hasPendingEntry = false) :
    ∃ stamp, (stamp = s.currentTerm ∨ stamp = effect.state.currentTerm) ∧
      ∀ term ∈ CppRaft.sentTerms effect.emitted, term = stamp := by
  cases result with
  | called result => exact result.sentTerms idle
  | moved _ => exact ⟨_, Or.inl rfl, fun _ member => nomatch member⟩
  | counted _ _ => exact ⟨_, Or.inl rfl, fun _ member => nomatch member⟩
  | took _ =>
      refine ⟨s.currentTerm, Or.inl rfl, fun term member => ?_⟩
      obtain ⟨node, msg, sent, carries⟩ := mem_sentTerms.mp member
      rw [becomeLeader_eq] at sent
      obtain ⟨-, -, rfl⟩ := send_mem_sends.mp sent
      exact (Option.some.inj carries).symm

/-- One move: the term does not fall, the log stays ordered and the indices agree. For an
event of the core this is known from the core alone. -/
theorem HostResult.keeps {s : RaftServer Node} {move : HostMove Node}
    {effect : Effect (RaftServer Node) (Action Node)} (result : HostResult s move effect)
    (order : TermOrdered s.currentTerm s.log) (together : s.lastAppliedIdx = s.commitIdx) :
    s.currentTerm ≤ effect.state.currentTerm ∧
      TermOrdered effect.state.currentTerm effect.state.log ∧
      effect.state.lastAppliedIdx = effect.state.commitIdx := by
  cases result with
  | called result =>
      obtain ⟨grown, ordered⟩ := result.termOrdered order
      exact ⟨grown, ordered, (result.applies together).together⟩
  | moved _ => exact ⟨Int.le_refl _, order, together⟩
  | counted _ _ => exact ⟨Int.le_refl _, order, together⟩
  | took _ =>
      rw [becomeLeader_eq]
      exact ⟨Int.le_refl _, order, together⟩

/-- Every move keeps what a run of the core would keep. The moves of the host need an
argument of their own, as no handler of the core makes them. -/
theorem Sound.step {moves : List (HostStep Node)} {s : RaftServer Node} {move : HostMove Node}
    {effect : Effect (RaftServer Node) (Action Node)} (sound : Sound moves s)
    (result : HostResult s move effect) :
    Sound (moves ++ [⟨s, move, effect.state, effect.emitted⟩]) effect.state := by
  obtain ⟨grown, order, together⟩ := result.keeps sound.order sound.together
  obtain ⟨stamp, either, same⟩ := result.sentTerms (hasPendingEntry_of_together sound.together)
  have reached : s.currentTerm ≤ stamp := by omega
  have current : stamp ≤ effect.state.currentTerm := by omega
  refine ⟨order, together, ?_, fun term member => ?_⟩
  · rw [emissions_append_singleton, sentTerms_append]
    exact pairwise_le_append sound.sent sound.sent_le reached same
  · rw [emissions_append_singleton, sentTerms_append] at member
    rcases List.mem_append.mp member with old | new
    · exact Int.le_trans (sound.sent_le term old) grown
    · rw [same term new]
      exact current

/-- Every run of a hosted server. -/
theorem Sound.of_run {start s : RaftServer Node} {moves : List (HostStep Node)}
    (sound : Sound [] start) (run : (hosted Node).Run start moves s) : Sound moves s := by
  apply run.invariant Sound
  · exact sound
  · intro moves s move effect _ sound stepped
    exact sound.step (hosted_result stepped)

end RaftServer

namespace Tcp

/-- What is shown of an output to a Raft server. -/
def Output.action? : Output → Option (Action NodeIdentifierKey)
  | .raft action => some action
  | .addInternalForWorker _ => none

/-- The actions of the Raft server among some outputs. -/
def raftActions (outputs : List Output) : List (Action NodeIdentifierKey) :=
  outputs.filterMap Output.action?

@[simp] theorem raftActions_map_raft (actions : List (Action NodeIdentifierKey)) :
    raftActions (actions.map .raft) = actions := by
  rw [raftActions, List.filterMap_map]
  exact List.filterMap_some

/-- The actions of the core are collected output by output. -/
theorem raftActions_append (first second : List Output) :
    raftActions (first ++ second) = raftActions first ++ raftActions second :=
  List.filterMap_append

namespace Server

/-- A Raft server follows a call by moves of a host. -/
def Follows (s : Server) (effect : Effect Server Output) : Prop :=
  ∃ moves, (RaftServer.hosted NodeIdentifierKey).Run s.raft moves effect.state.raft ∧
    emissions moves = raftActions effect.emitted

variable {s : Server} {effect : Effect Server Output}

/-- The call leaves the Raft server alone. -/
theorem follows_of_same (raft : effect.state.raft = s.raft)
    (silent : raftActions effect.emitted = []) : s.Follows effect :=
  ⟨[], raft ▸ .nil, silent.symm⟩

/-- The call changes the node table. -/
theorem follows_of_table {table : NodeTable NodeIdentifierKey}
    (raft : effect.state.raft = { s.raft with table := table })
    (silent : raftActions effect.emitted = []) : s.Follows effect := by
  have moved : (RaftServer.hosted NodeIdentifierKey).step s.raft (.table table) =
      some (.done effect.state.raft) := by
    rw [raft]
    rfl
  exact ⟨_, .single moved, silent.symm⟩

/-- The call is one of a handler of the Raft server. -/
theorem follows_of_call (event : Event NodeIdentifierKey)
    (called : (RaftServer.machine NodeIdentifierKey).step s.raft event =
      some ⟨effect.state.raft, raftActions effect.emitted⟩) : s.Follows effect := by
  have moved : (RaftServer.hosted NodeIdentifierKey).step s.raft (.call event) =
      some ⟨effect.state.raft, raftActions effect.emitted⟩ := called
  exact ⟨_, .single moved, List.append_nil _⟩

/-- A handler that is not overridden. -/
theorem inside_step (event : Event NodeIdentifierKey)
    (defined : (s.inside (RaftServer.handle event s.raft)).effect? = some effect) :
    (RaftServer.machine NodeIdentifierKey).step s.raft event =
      some ⟨effect.state.raft, raftActions effect.emitted⟩ := by
  rw [Outcome.effect?_eq_some_iff] at defined
  obtain ⟨notUndefined, notDiverged, rfl⟩ := defined
  rw [inside, raftActions_map_raft]
  exact (Outcome.effect?_eq_some_iff _ _).mpr ⟨notUndefined, notDiverged, rfl⟩

/-- Adding a node is one move of the host. -/
theorem addNode_follows {nodeKey : NodeIdentifierKey}
    (defined : (s.addNode nodeKey).effect? = some effect) : s.Follows effect := by
  unfold addNode at defined
  split at defined
  · rw [eq_of_returned defined]
    exact follows_of_same rfl rfl
  · rw [eq_of_returned defined]
    exact follows_of_table rfl rfl

/-- The locked part of a request from a node is a sequence of moves of the host. -/
theorem handleReceiveFromNodeLocked_follows {request : LockedRequest} {sender : NodeIdentifierKey}
    (defined : (s.handleReceiveFromNodeLocked request sender).effect? = some effect) :
    s.Follows effect := by
  cases request with
  | newNode nodeKey => exact addNode_follows defined
  | removeNode nodeKey =>
      rw [eq_of_returned defined]
      exact follows_of_table rfl rfl
  | oldLeaderDied =>
      unfold handleReceiveFromNodeLocked at defined
      cases leads : s.leaderNode with
      | none =>
          simp only [leads] at defined
          rw [eq_of_returned defined]
          exact follows_of_same rfl rfl
      | some leader =>
          simp only [leads] at defined
          obtain ⟨_, ⟨⟩, -, defined⟩ := follow_bind_effect? defined
          obtain ⟨_, ⟨⟩, -, defined⟩ := follow_bind_effect? defined
          rw [eq_of_returned defined]
          exact follows_of_table rfl rfl

/-- A worker that makes a candidate the leader flags the own node, takes office and removes the
old leader. -/
theorem becomeLeader_result {node : Option NodeIdentifierKey} (stands : s.raft.state = .candidate)
    (defined : (s.handleInternalLocked .becomeLeader node).effect? = some effect) :
    ∃ own old, s.raft.thisNode = some own ∧ s.leaderNode = some old ∧
      effect =
        ⟨({ s.setLeader own with
            raft := (RaftServer.becomeLeader (s.setLeader own).raft).state } : Server).removeNode1
              old,
          (RaftServer.becomeLeader (s.setLeader own).raft).emitted.map .raft⟩ := by
  unfold handleInternalLocked at defined
  simp only [if_pos stands] at defined
  obtain ⟨own, this, -, defined⟩ := follow_bind_effect? defined
  obtain ⟨_, rest, -, removed, state, emitted⟩ :=
    Outcome.bind_effect?_eq_some (by simp [inside]) defined
  obtain ⟨old, leads, -, removed⟩ := follow_bind_effect? removed
  rw [eq_of_returned removed] at state emitted
  simp only [Effect.done_emitted, List.append_nil] at emitted
  refine ⟨own, old, this, leads, ?_⟩
  cases effect
  cases state
  cases emitted
  rfl

/-- Taking office through a worker is the flag of the new leader, the removal of the old
one, and `become_leader` of the core. -/
theorem becomeLeader_follows {node : Option NodeIdentifierKey} (stands : s.raft.state = .candidate)
    (defined : (s.handleInternalLocked .becomeLeader node).effect? = some effect) :
    s.Follows effect := by
  obtain ⟨own, old, -, -, rfl⟩ := becomeLeader_result stands defined
  have flagged : (RaftServer.hosted NodeIdentifierKey).step s.raft
      (.table (s.raft.table.makeLeader own)) = some (.done (s.setLeader own).raft) := rfl
  have took : (RaftServer.hosted NodeIdentifierKey).step (s.setLeader own).raft .office =
      some (RaftServer.becomeLeader (s.setLeader own).raft) := if_pos stands
  have removal : (RaftServer.hosted NodeIdentifierKey).step
      (RaftServer.becomeLeader (s.setLeader own).raft).state
      (.table ((RaftServer.becomeLeader (s.setLeader own).raft).state.table.removeNode old)) =
        some (.done _) := rfl
  refine ⟨_, ((Run.single flagged).snoc took).snoc removal, ?_⟩
  simp [emissions, Effect.done]

/-- The locked part of an internal request is a sequence of moves. -/
theorem handleInternalLocked_follows {request : InternalRequest} {node : Option NodeIdentifierKey}
    (defined : (s.handleInternalLocked request node).effect? = some effect) :
    s.Follows effect := by
  cases request with
  | removeNode =>
      unfold handleInternalLocked at defined
      by_cases leads : s.raft.state = .leader
      · simp only [if_pos leads] at defined
        obtain ⟨_, -, -, defined⟩ := follow_bind_effect? defined
        rw [eq_of_returned defined]
        exact follows_of_table rfl rfl
      · simp only [if_neg leads] at defined
        rw [eq_of_returned defined]
        exact follows_of_same rfl rfl
  | becomeLeader =>
      by_cases stands : s.raft.state = .candidate
      · exact becomeLeader_follows stands defined
      · unfold handleInternalLocked at defined
        simp only [if_neg stands] at defined
        rw [eq_of_returned defined]
        exact follows_of_same rfl rfl

/-- A ballot that elects a server with a leader is a vote to a Raft server; the office
follows when a worker has removed the leader. -/
theorem recvRequestvoteResponse_follows {node : NodeIdentifierKey} {r : MsgRequestvoteResponse}
    (answers : Int) (defined : (s.recvRequestvoteResponse node r).effect? = some effect) :
    s.Follows effect := by
  have final := ((Outcome.effect?_eq_some_iff _ _).mp defined).2.2
  have called (result : RaftServer.recvRequestvoteResponse node r s.raft =
      ⟨effect.state.raft, raftActions effect.emitted⟩) : s.Follows effect :=
    follows_of_call (.recvRequestvoteResponse node r answers) (congrArg some result)
  unfold recvRequestvoteResponse at final
  by_cases leads : s.raft.state = .leader
  · rw [if_pos leads] at final
    refine called ?_
    rw [RaftServer.recvRequestvoteResponse, if_pos leads, final]
    rfl
  · rw [if_neg leads] at final
    by_cases granted : r.voteGranted = 1
    · rw [if_pos granted] at final
      simp only at final
      split at final
      · rename_i majority
        cases pointer : s.leaderNode with
        | none =>
            refine called ?_
            simp only [becomeLeader, pointer, Option.isSome_none, Bool.false_eq_true,
              if_false] at final
            rw [RaftServer.recvRequestvoteResponse, if_neg leads, if_pos granted, final]
            simp only [if_pos majority]
            simp [inside, Outcome.bind, Effect.done, Effect.returning]
        | some leader =>
            simp only [becomeLeader, pointer, Option.isSome_some, if_true] at final
            have counted : (RaftServer.hosted NodeIdentifierKey).step s.raft (.vote node) =
                some (.done effect.state.raft) := by
              rw [final]
              exact if_neg leads
            refine ⟨_, .single counted, ?_⟩
            rw [final]
            rfl
      · rename_i minority
        refine called ?_
        rw [RaftServer.recvRequestvoteResponse, if_neg leads, if_pos granted, final]
        exact if_neg minority
    · rw [if_neg granted] at final
      refine called ?_
      rw [RaftServer.recvRequestvoteResponse, if_neg leads, if_neg granted, final]
      rfl

/-- The head of `become_candidate` changes only who is counted on: not the leader pointer,
and nothing of the core. -/
theorem disqualifyLeader_bind {α : Type} {next : Unit → Server → Outcome Server Output α}
    (defined : (s.disqualifyLeader.bind next).effect? = some effect) :
    (next () { s with
        isAbleToVote := fun node =>
          s.isAbleToVote node && decide (s.leaderNode ≠ some node) }).effect? = some effect := by
  unfold disqualifyLeader at defined
  split at defined
  · rename_i pointer
    have same : (fun node => s.isAbleToVote node && decide (s.leaderNode ≠ some node)) =
        s.isAbleToVote := by
      funext node
      simp [pointer]
    rw [same]
    exact defined
  · rename_i pointed pointer
    rw [Outcome.bind_assoc] at defined
    obtain ⟨leader, same, -, defined⟩ := follow_bind_effect? defined
    cases same
    have disqualified : (fun node => s.isAbleToVote node && decide (s.leaderNode ≠ some node)) =
        Function.update s.isAbleToVote pointed false := by
      funext node
      by_cases leads : node = pointed
      · subst leads
        simp [pointer]
      · simp [pointer, leads, Ne.symm leads]
    rw [disqualified]
    exact defined

/-- `become_candidate` of the TCP server stands as that of the Raft server does. -/
theorem becomeCandidate_raft {rand : ℕ × ℕ}
    (defined : (s.becomeCandidate rand).effect? = some effect) :
    RaftServer.becomeCandidate rand s.raft =
      ⟨effect.state.raft, raftActions effect.emitted⟩ := by
  replace defined := disqualifyLeader_bind defined
  rw [((Outcome.effect?_eq_some_iff _ _).mp defined).2.2]
  simp only [inside, Outcome.bind, Effect.returning]
  split
  · have job : raftActions [.addInternalForWorker .becomeLeader] = [] := rfl
    simp [addInternalForWorker, raftActions_append, job]
  · simp

/-- The timer part of `periodic`, as an event of the core: the overrides of
`become_candidate` come before and after the call of the base class. -/
theorem advanceTimer_raft {msec : Int} {rand : ℕ × ℕ}
    (defined : (s.advanceTimer msec rand).effect? = some effect) :
    RaftServer.advanceTimer msec rand s.raft =
      ⟨effect.state.raft, raftActions effect.emitted⟩ := by
  unfold advanceTimer at defined
  unfold RaftServer.advanceTimer
  simp only at defined ⊢
  split at defined
  · rename_i leads
    rw [if_pos leads]
    split at defined
    · rename_i due
      rw [if_pos due, ((Outcome.effect?_eq_some_iff _ _).mp defined).2.2]
      simp [inside, Outcome.bind, Effect.returning, Effect.done, Effect.andThen]
    · rename_i early
      rw [if_neg early, eq_of_returned defined]
      rfl
  · rename_i other
    rw [if_neg other]
    split at defined
    · rename_i due
      rw [if_pos due]
      exact @becomeCandidate_raft
        { s with raft := { s.raft with timeoutElapsed := s.raft.timeoutElapsed + msec } }
        effect rand defined
    · rename_i early
      rw [if_neg early, eq_of_returned defined]
      rfl

/-- `periodic` of the TCP server is that of the Raft server, with the jobs for workers as
the only addition. -/
theorem periodic_step {msec : Int} {rand : ℕ × ℕ}
    (defined : (s.periodic msec rand).effect? = some effect) :
    (RaftServer.machine NodeIdentifierKey).step s.raft (.periodic msec rand) =
      some ⟨effect.state.raft, raftActions effect.emitted⟩ := by
  change (RaftServer.periodic msec rand s.raft).effect? = _
  unfold periodic at defined
  unfold RaftServer.periodic
  split at defined
  · rename_i due
    rw [if_pos due]
    have throwless : (s.inside s.raft.applyEntry).exit ≠ .thrown :=
      RaftServer.applyEntry_exit_ne_thrown s.raft
    obtain ⟨result, rest, returned, tail, state, emitted⟩ :=
      Outcome.bind_effect?_eq_some throwless defined
    have timed : (if result = 0 then (Effect.done s.raft.applyEntry.state).returning (0 : Int)
        else (RaftServer.advanceTimer msec rand s.raft.applyEntry.state).returning 1).effect? =
          some ⟨rest.state.raft, raftActions rest.emitted⟩ := by
      split at tail
      · rename_i none
        rw [if_pos none, eq_of_returned tail]
        rfl
      · rename_i one
        rw [Outcome.effect?_bind_done] at tail
        rw [if_neg one]
        exact congrArg some (advanceTimer_raft tail)
    have applied : s.raft.applyEntry.exit = .returned result := returned
    rw [Outcome.bind_effect?_of_returned applied timed, state, emitted, raftActions_append]
    simp [inside]
  · rename_i idle
    rw [Outcome.effect?_bind_done] at defined
    rw [if_neg idle]
    exact congrArg some (advanceTimer_raft defined)

/-- The event whose handler calls an overridden method that takes office. -/
def isBallot : Event NodeIdentifierKey → Bool
  | .recvRequestvoteResponse _ _ _ => true
  | _ => false

/-- Except for a ballot, a handler is that of the Raft server. -/
theorem handle_step {event : Event NodeIdentifierKey} (other : isBallot event = false)
    (handled : (s.handle event).effect? = some effect) :
    (RaftServer.machine NodeIdentifierKey).step s.raft event =
      some ⟨effect.state.raft, raftActions effect.emitted⟩ := by
  cases event with
  | recvRequestvoteResponse node r answers => cases other
  | periodic msec rand => exact periodic_step handled
  | recvAppendentries asResponce node ae stack =>
      exact inside_step (.recvAppendentries asResponce node ae stack) handled
  | recvAppendentriesResponse node r =>
      exact inside_step (.recvAppendentriesResponse node r) handled
  | recvRequestvote node vr => exact inside_step (.recvRequestvote node vr) handled
  | recvEntry node e => exact inside_step (.recvEntry node e) handled

/-- A Raft server follows every call of the TCP server, by an event of its own or by moves
of its host. -/
theorem step_follows {call : Call} (stepped : machine.step s call = some effect) :
    s.Follows effect := by
  cases call with
  | newConnection nodeKey => exact addNode_follows stepped
  | receive request sender => exact handleReceiveFromNodeLocked_follows stepped
  | internal request node => exact handleInternalLocked_follows stepped
  | ableToVote node able =>
      cases stepped
      exact follows_of_same rfl rfl
  | raft event =>
      have handled : (s.handle event).effect? = some effect := stepped
      cases event with
      | recvRequestvoteResponse node r answers =>
          exact recvRequestvoteResponse_follows answers handled
      | _ => exact follows_of_call _ (handle_step rfl handled)

/-- A server that has just started is in order. -/
theorem sound_findClusterAndInit (own : NodeIdentifierKey) (timing : Timing) (found : Found) :
    RaftServer.Sound [] (findClusterAndInit own timing found).raft :=
  ⟨.nil 0, rfl, .nil, fun _ member => nomatch member⟩

/-- The moves of a host that follow a run. -/
theorem RunFrom.hosted {own : NodeIdentifierKey} {timing : Timing} {found : Found}
    {trace : List Step} {s : Server} (run : RunFrom own timing found trace s) :
    ∃ moves, (RaftServer.hosted NodeIdentifierKey).Run
        (findClusterAndInit own timing found).raft moves s.raft ∧
      emissions moves = raftActions (emissions trace) ∧ RaftServer.Sound moves s.raft := by
  obtain ⟨moves, hosts, same⟩ := run.simulate_emissions Server.raft Output.action? step_follows
  exact ⟨moves, hosts, same, (sound_findClusterAndInit own timing found).of_run hosts⟩

/-- In every run of a TCP server its Raft server goes through moves of a host that emit the same
messages: the log stays ordered under the term, the commit and the applied index agree, and
the terms of the messages never fall. -/
theorem runs_as_hosted (own : NodeIdentifierKey) (timing : Timing) (found : Found)
    {trace : List Step} {s : Server} (run : RunFrom own timing found trace s) :
    (∃ moves, (RaftServer.hosted NodeIdentifierKey).Run
        (findClusterAndInit own timing found).raft moves s.raft ∧
      emissions moves = raftActions (emissions trace)) ∧
    TermOrdered s.raft.currentTerm s.raft.log ∧
    s.raft.lastAppliedIdx = s.raft.commitIdx ∧
    (sentTerms (raftActions (emissions trace))).Pairwise (· ≤ ·) ∧
    ∀ term ∈ sentTerms (raftActions (emissions trace)), term ≤ s.raft.currentTerm := by
  obtain ⟨moves, hosts, same, sound⟩ := RunFrom.hosted run
  rw [← same]
  exact ⟨⟨moves, hosts, rfl⟩, sound.order, sound.together, sound.sent, sound.sent_le⟩

/-- A follower of three hears no leader, stands, gets a vote, is made leader by a worker and sends
its heartbeats. -/
def takeoverCalls (voter : NodeIdentifierKey) : List Call :=
  List.replicate 11 (.raft (.periodic 2000 (0, 0))) ++
    [.raft (.recvRequestvoteResponse voter ⟨1, 1⟩ 1), .internal .becomeLeader none,
      .raft (.periodic 2000 (0, 0))]

/-- A follower takes over, and the terms that it sends do not fall. -/
theorem takeover_runs_as_hosted :
    sentTerms (raftActions (emissions (machine.traceOf
        (findClusterAndInit (.ofPort 1) {} (.cluster [.zero, .ofPort 2] 0))
        (takeoverCalls (.ofPort 2))))) = [1, 1, 1] ∧
      (sentTerms (raftActions (emissions (machine.traceOf
        (findClusterAndInit (.ofPort 1) {} (.cluster [.zero, .ofPort 2] 0))
        (takeoverCalls (.ofPort 2)))))).Pairwise (· ≤ ·) :=
  ⟨by decide +kernel, (runs_as_hosted (.ofPort 1) {} (.cluster [.zero, .ofPort 2] 0)
    (run_traceOf machine _ (takeoverCalls (.ofPort 2)) (by decide +kernel))).2.2.2.1⟩

end Server

end Tcp

end CppRaft
